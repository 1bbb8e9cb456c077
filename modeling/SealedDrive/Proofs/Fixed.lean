import SealedDrive.Proofs.Ascent
import SealedDrive.Proofs.Segments

/-!
Records that never change. When the server has one record for every link and the root is nobody's
child, nothing that is known of the tree ever becomes stale: a record that comes again is the same
as before, parents are known before their children, and a path once told stays true.
-/

namespace SealedDrive

/-- A root, and records of which no two have one id; none of them puts the root below a link. -/
structure Fixed (sends : LinkRecord → Prop) (root : Node) : Prop where
  isRoot : root.parent = none
  unique : ∀ {r r' : LinkRecord}, sends r → sends r' → r.linkId = r'.linkId → r = r'
  root : ∀ {r : LinkRecord}, sends r → r.linkId = root.id → r.parentLinkId = none

namespace Arena

variable {arena after : Arena}

/-- More links may be known, but of those that were known nothing changes. -/
structure Grows (arena after : Arena) : Prop where
  size_le : arena.size ≤ after.size
  nodeAt_eq : ∀ {h}, h < arena.size → after.nodeAt h = arena.nodeAt h

theorem Grows.refl (arena : Arena) : arena.Grows arena := ⟨Nat.le_refl _, fun _ => rfl⟩

theorem Grows.trans {last : Arena} (h : arena.Grows after) (h' : after.Grows last) :
    arena.Grows last :=
  ⟨Nat.le_trans h.size_le h'.size_le, fun hh =>
    (h'.nodeAt_eq (Nat.lt_of_lt_of_le hh h.size_le)).trans (h.nodeAt_eq hh)⟩

/-- Parents were known before their children. -/
def Descends (arena : Arena) : Prop :=
  ∀ {h p}, h < arena.size → (arena.nodeAt h).parent = some p → p < h

/-- There is one way up, however much room there is to tell it. -/
theorem Grows.climb (hg : arena.Grows after) (hd : arena.Descends) {p m n : Nat}
    (hp : p < arena.size) (hm : p < m) (hn : p < n) :
    after.climb m (some p) = arena.climb n (some p) := by
  induction p using Nat.strong_induction_on generalizing m n with
  | _ p ih =>
    obtain ⟨m, rfl⟩ : ∃ k, m = k + 1 := ⟨m - 1, by omega⟩
    obtain ⟨n, rfl⟩ : ∃ k, n = k + 1 := ⟨n - 1, by omega⟩
    simp only [Arena.climb, hg.nodeAt_eq hp]
    cases hq : (arena.nodeAt p).parent with
    | none => simp
    | some q =>
      have hqp := hd hp hq
      refine congrArg (List.cons _) (ih q hqp ?_ ?_ ?_) <;> omega

/-- A path stays what it is while the tree grows. -/
theorem Grows.path (hg : arena.Grows after) (hd : arena.Descends) {link : Link}
    (hk : arena.Knows link) : link.path after = link.path arena := by
  simp only [Link.path]
  cases hp : link.node.parent with
  | none => simp
  | some p =>
    obtain ⟨hb, -⟩ := hk.parent hp
    rw [hg.climb hd hb (Nat.lt_of_lt_of_le hb hg.size_le) hb]

/-- The path of a child is the path of its parent and its own name. -/
theorem Descends.path_child (hd : arena.Descends) {link : Link} {p : Nat}
    (hp : link.node.parent = some p) (hb : p < arena.size) :
    link.path arena = (arena.linkAt p).path arena ++ "/" ++ link.name := by
  have hc : arena.climb arena.size (some p) =
      arena.nodeAt p :: arena.climb arena.size (arena.nodeAt p).parent := by
    obtain ⟨n, hn⟩ : ∃ n, arena.size = n + 1 := ⟨arena.size - 1, by omega⟩
    rw [hn]
    simp only [climb]
    cases hq : (arena.nodeAt p).parent with
    | none => simp
    | some q =>
      have hqp := hd hb hq
      refine congrArg (List.cons _) ((Grows.refl arena).climb hd ?_ ?_ ?_) <;> omega
  have hne : ((arena.nodeAt p :: arena.climb arena.size (arena.nodeAt p).parent).map
      (·.name)).reverse ≠ [] := by simp
  rw [Link.path, hp, hc, List.map_cons, List.reverse_cons, Path.join_append_singleton hne]
  rfl

end Arena

namespace Use

variable {share : Share} {sends : LinkRecord → Prop} {root : Node} {u v : Use}
  {log : List Adoption}

/-- The tree is what the records say: every link in hand is current, and every node but the root was
derived under a parent that was known before. -/
structure Mirrors (share : Share) (sends : LinkRecord → Prop) (root : Node) (u : Use) : Prop where
  proper : u.Proper
  current : ∀ link ∈ u.links, link = u.arena.linkAt link.handle
  root : u.arena.nodeAt 0 = root
  child : ∀ {h}, 0 < h → h < u.arena.size → ∃ p, p < h ∧ sends (u.arena.nodeAt h).record ∧
    Node.derive share.session (some p) (u.arena.nodeAt p).nodeKeyring (u.arena.nodeAt h).record =
      .ok (u.arena.nodeAt h)

theorem Mirrors.descends (hf : Fixed sends root) (hu : u.Mirrors share sends root) :
    u.arena.Descends := by
  intro h p hh hp
  rcases Nat.eq_zero_or_pos h with rfl | hpos
  · rw [hu.root, hf.isRoot] at hp
    cases hp
  · obtain ⟨q, hq, -, hd⟩ := hu.child hpos hh
    obtain ⟨hn, -⟩ := Node.derive_eq_ok_iff.mp hd
    rw [hp] at hn
    cases hn
    exact hq

theorem start_mirrors (hr : root.parent = none) : (start root).Mirrors share sends root := by
  refine ⟨start_proper hr, fun link hl => ?_, rfl, fun {h} hpos hh => ?_⟩
  · rw [List.mem_singleton.mp hl]
    rfl
  · simp [start, Arena.size_eq, Arena.ofRoot] at hh
    omega

/-- A record that comes again becomes the same node again, and a new one only adds to the tree. -/
theorem Mirrors.adopt (hf : Fixed sends root) (hu : u.Mirrors share sends root)
    {parent link : Link} {record : LinkRecord} {after : Arena} (hp : parent ∈ u.links)
    (hs : sends record) (hm : share.materialize parent record u.arena = (.ok link, after)) :
    Mirrors share sends root ⟨after, link :: u.links⟩ ∧ u.arena.Grows after := by
  obtain ⟨hid, hd, -⟩ := Share.materialize_ok hm
  obtain ⟨hn, hr, -⟩ := Node.derive_eq_ok_iff.mp hd
  have ht := hu.proper.takes hm
  have hb := (hu.proper.knows parent hp).bound
  have hcur : parent.node = u.arena.nodeAt parent.handle := congrArg Link.node (hu.current _ hp)
  -- Whatever was known under the handle of the new link is the new link already.
  have hsame : link.handle < u.arena.size → link.node = u.arena.nodeAt link.handle := by
    intro hk
    have hi : (u.arena.nodeAt link.handle).id = record.linkId := by
      rw [(ht.id_iff hk).mpr rfl, Node.id, hr]
    rcases Nat.eq_zero_or_pos link.handle with hz | hpos
    · rw [hz, hu.root] at hi
      rw [hf.root hs hi.symm] at hid
      cases hid
    · obtain ⟨q, hq, hs', hd'⟩ := hu.child hpos hk
      have hrec := hf.unique hs' hs hi
      obtain ⟨hn', -⟩ := Node.derive_eq_ok_iff.mp hd'
      obtain ⟨hqb, hqi⟩ := hu.proper.sound.parent hk hn'
      rw [hrec, hid, Option.some.injEq, Link.id, hcur] at hqi
      have he := hu.proper.sound.handle_inj hb hqb hqi
      rw [hrec, ← he, ← hcur, hd] at hd'
      exact Except.ok.inj hd'
  have hgrow : u.arena.Grows after := by
    refine ⟨ht.size_le, fun {k} hk => ?_⟩
    by_cases he : k = link.handle
    · rw [he, ht.at_handle, hsame (he ▸ hk)]
    · exact ht.elsewhere hk he
  refine ⟨⟨hu.proper.adopt hp hm, fun l hl => ?_, ?_, fun {k} hpos hk => ?_⟩, hgrow⟩
  · rcases List.mem_cons.mp hl with rfl | hl
    · unfold Arena.linkAt
      rw [ht.at_handle]
    · have hk := (hu.proper.knows l hl).bound
      unfold Arena.linkAt
      rw [hgrow.nodeAt_eq hk]
      exact hu.current l hl
  · rw [hgrow.nodeAt_eq (Arena.size_pos _)]
    exact hu.root
  · by_cases hold : k < u.arena.size
    · obtain ⟨q, hq, hs', hd'⟩ := hu.child hpos hold
      refine ⟨q, hq, ?_⟩
      dsimp only
      rw [hgrow.nodeAt_eq hold, hgrow.nodeAt_eq (by omega)]
      exact ⟨hs', hd'⟩
    · obtain rfl := (ht.lt_or_eq hk).resolve_left hold
      refine ⟨parent.handle, by omega, ?_⟩
      dsimp only
      rw [ht.at_handle, hgrow.nodeAt_eq hb, ← hcur, hr]
      exact ⟨hs, hd⟩

theorem Mirrors.steps (hf : Fixed sends root) (hu : u.Mirrors share sends root)
    (h : Steps share sends u log v) : v.Mirrors share sends root ∧ u.arena.Grows v.arena := by
  induction h with
  | refl => exact ⟨hu, .refl _⟩
  | adopt _ hp hs hm ih =>
    obtain ⟨hv, hg⟩ := ih
    obtain ⟨hw, hg'⟩ := hv.adopt hf hp hs hm
    exact ⟨hw, hg.trans hg'⟩

end Use
end SealedDrive
