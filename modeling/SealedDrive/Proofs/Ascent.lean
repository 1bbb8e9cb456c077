import Mathlib.Data.Fintype.Card
import SealedDrive.Proofs.Traffic

/-!
The way up from a link. In a rooted arena every way up ends at the root, in fewer steps than there
are links, so every path can be told and begins with the name of the root. Taking a record in keeps
the arena rooted exactly when the link that it becomes is not on the way up from its new parent; a
server that sends such a record closes the way into a ring.
-/

namespace SealedDrive

namespace Arena

variable {arena after : Arena}

/-! ## Going up -/

/-- The handle so many parents above a handle. -/
def ascend (arena : Arena) : Nat → Nat → Option Nat
  | 0, h => some h
  | steps + 1, h => (arena.nodeAt h).parent.bind (arena.ascend steps)

theorem ascend_add (i j h : Nat) :
    arena.ascend (i + j) h = (arena.ascend i h).bind (arena.ascend j) := by
  induction i generalizing h with
  | zero => rw [Nat.zero_add]; rfl
  | succ i ih =>
    rw [Nat.add_right_comm]
    simp only [ascend]
    cases (arena.nodeAt h).parent with
    | none => rfl
    | some p => exact ih p

/-- The ways up stay among the handles in use. -/
theorem Sound.ascend_lt (hs : arena.Sound) {i h g : Nat} (hh : h < arena.size)
    (ha : arena.ascend i h = some g) : g < arena.size := by
  induction i generalizing h with
  | zero => cases ha; exact hh
  | succ i ih =>
    obtain ⟨p, hp, ha⟩ := Option.bind_eq_some_iff.mp ha
    exact ih (hs.parent hh hp).1 ha

/-- The node at the top has no parent, and every way up leads there. -/
structure Rooted (arena : Arena) : Prop where
  top : (arena.nodeAt 0).parent = none
  reaches : ∀ {h}, h < arena.size → ∃ steps, steps < arena.size ∧ arena.ascend steps h = some 0

theorem ascend_top (ht : (arena.nodeAt 0).parent = none) (i : Nat) :
    arena.ascend (i + 1) 0 = none := by
  simp [ascend, ht]

/-- A way up reaches the top once. -/
theorem ascend_top_unique (ht : (arena.nodeAt 0).parent = none) {i j h : Nat}
    (hi : arena.ascend i h = some 0) (hj : arena.ascend j h = some 0) : i = j := by
  have key : ∀ {i j : Nat}, arena.ascend i h = some 0 → arena.ascend j h = some 0 → ¬ i < j := by
    intro i j hi hj hlt
    obtain ⟨d, rfl⟩ := Nat.exists_eq_add_of_lt hlt
    rw [Nat.add_assoc, ascend_add, hi, Option.bind_some, ascend_top ht] at hj
    cases hj
  have hij := key hi hj
  have hji := key hj hi
  omega

/-- No handle is met twice on a way up to the top, so the way is shorter than the arena. -/
theorem Sound.ascend_lt_size (hs : arena.Sound) (ht : (arena.nodeAt 0).parent = none) {k h : Nat}
    (hh : h < arena.size) (hk : arena.ascend k h = some 0) : k < arena.size := by
  have hmet : ∀ i : Fin (k + 1), ∃ g : Fin arena.size, arena.ascend i h = some g ∧
      arena.ascend (k - i) g = some 0 := by
    intro i
    have hle : i.val ≤ k := Nat.le_of_lt_succ i.isLt
    rw [← Nat.add_sub_cancel' hle, ascend_add] at hk
    obtain ⟨g, hg, hr⟩ := Option.bind_eq_some_iff.mp hk
    exact ⟨⟨g, hs.ascend_lt hh hg⟩, hg, hr⟩
  choose met hmet hrest using hmet
  have hinj : Function.Injective met := by
    intro i j he
    have hi := hrest i
    rw [he] at hi
    have hij := ascend_top_unique ht hi (hrest j)
    exact Fin.ext (by omega)
  have hcard := Fintype.card_le_of_injective met hinj
  rw [Fintype.card_fin, Fintype.card_fin] at hcard
  exact hcard

theorem Sound.rooted (hs : arena.Sound) (ht : (arena.nodeAt 0).parent = none)
    (hr : ∀ {h}, h < arena.size → ∃ steps, arena.ascend steps h = some 0) : arena.Rooted := by
  refine ⟨ht, fun hh => ?_⟩
  obtain ⟨steps, ha⟩ := hr hh
  exact ⟨steps, hs.ascend_lt_size ht hh ha, ha⟩

/-- In a rooted arena some node is without a parent. -/
theorem Rooted.not_parents (hr : arena.Rooted) :
    ¬ ∀ g, ∃ p, (arena.nodeAt g).parent = some p := by
  intro hp
  obtain ⟨p, hp⟩ := hp 0
  rw [hr.top] at hp
  cases hp

theorem rooted_ofRoot {root : Node} (hr : root.parent = none) : (ofRoot root).Rooted := by
  refine ⟨hr, fun {h} hh => ⟨0, size_pos _, ?_⟩⟩
  simp [size_eq, ofRoot] at hh
  rw [hh]
  rfl

/-! ## Taking a record in -/

/-- Where the new node is not met, the way up is what it was. -/
theorem Takes.ascend_of_avoids {node : Node} {h : Nat} (ht : arena.Takes node h after)
    (hs : arena.Sound) {p : Nat} (hp : p < arena.size)
    (ha : ∀ i, arena.ascend i p ≠ some h) (i : Nat) : after.ascend i p = arena.ascend i p := by
  induction i generalizing p with
  | zero => rfl
  | succ i ih =>
    have hne : p ≠ h := fun he => ha 0 (congrArg some he)
    simp only [ascend, ht.elsewhere hp hne]
    cases hq : (arena.nodeAt p).parent with
    | none => rfl
    | some q =>
      refine ih (hs.parent hp hq).1 fun j hj => ha (j + 1) ?_
      simp only [ascend, hq]
      exact hj

/-- Up to the place of the new node, the way up is what it was. -/
theorem Takes.ascend_to {node : Node} {h : Nat} (ht : arena.Takes node h after)
    (hs : arena.Sound) {i p : Nat} (hp : p < arena.size) (ha : arena.ascend i p = some h) :
    ∃ j, after.ascend j p = some h := by
  induction i generalizing p with
  | zero => exact ⟨0, ha⟩
  | succ i ih =>
    by_cases he : p = h
    · exact ⟨0, congrArg some he⟩
    · obtain ⟨q, hq, ha⟩ := Option.bind_eq_some_iff.mp ha
      obtain ⟨j, hj⟩ := ih (hs.parent hp hq).1 ha
      refine ⟨j + 1, ?_⟩
      simp only [ascend, ht.elsewhere hp he, hq]
      exact hj

/-- When the way up from the new node leads to the top, every other one that did still does. -/
theorem Takes.ascend_of_reaches {node : Node} {h k : Nat} (ht : arena.Takes node h after)
    (hs : arena.Sound) (hk : after.ascend k h = some 0) {i g : Nat} (hg : g < arena.size)
    (ha : arena.ascend i g = some 0) : ∃ j, after.ascend j g = some 0 := by
  induction i generalizing g with
  | zero => exact ⟨0, ha⟩
  | succ i ih =>
    by_cases he : g = h
    · exact ⟨k, he ▸ hk⟩
    · obtain ⟨q, hq, ha⟩ := Option.bind_eq_some_iff.mp ha
      obtain ⟨j, hj⟩ := ih (hs.parent hg hq).1 ha
      refine ⟨j + 1, ?_⟩
      simp only [ascend, ht.elsewhere hg he, hq]
      exact hj

/-- A rooted arena stays rooted exactly when the new node is not on the way up from its parent. -/
theorem Takes.rooted_iff {node : Node} {h p : Nat} (ht : arena.Takes node h after)
    (hs : arena.Sound) (hs' : after.Sound) (hr : arena.Rooted) (hn : node.parent = some p)
    (hp : p < arena.size) : after.Rooted ↔ ∀ i, arena.ascend i p ≠ some h := by
  have hnew : ∀ j, after.ascend (j + 1) h = after.ascend j p := by
    intro j
    simp only [ascend, ht.at_handle, hn]
    rfl
  constructor
  · -- A ring would let the way up from `h` reach the top in two different numbers of steps.
    intro hr' i hi
    obtain ⟨j, hj⟩ := ht.ascend_to hs hp hi
    obtain ⟨m, -, hm⟩ := hr'.reaches ht.bound
    have hring : after.ascend (j + 1 + m) h = some 0 := by
      rw [ascend_add, hnew, hj]
      exact hm
    have he := ascend_top_unique hr'.top hm hring
    omega
  · intro ha
    obtain ⟨k, -, hk⟩ := hr.reaches hp
    have hne : 0 ≠ h := fun he => ha k (he ▸ hk)
    have htop : (after.nodeAt 0).parent = none := by
      rw [ht.elsewhere (size_pos _) hne]
      exact hr.top
    have hh : after.ascend (k + 1) h = some 0 := by
      rw [hnew, ht.ascend_of_avoids hs hp ha]
      exact hk
    refine hs'.rooted htop fun {g} hg => ?_
    rcases ht.lt_or_eq hg with hg | rfl
    · obtain ⟨i, -, hi⟩ := hr.reaches hg
      exact ht.ascend_of_reaches hs hh hg hi
    · exact ⟨k + 1, hh⟩

/-! ## Paths -/

@[simp]
theorem climb_none (n : Nat) : arena.climb n none = [] := by cases n <;> rfl

@[simp]
theorem climbEnds_none (n : Nat) : arena.climbEnds n none = true := by cases n <;> rfl

/-- Where every node has a parent, no way up comes to an end. -/
theorem climbEnds_of_parents (hp : ∀ g, ∃ p, (arena.nodeAt g).parent = some p) (n h : Nat) :
    arena.climbEnds n (some h) = false := by
  induction n generalizing h with
  | zero => rfl
  | succ n ih =>
    obtain ⟨p, hp⟩ := hp h
    unfold climbEnds
    rw [hp]
    exact ih p

/-- A way up to the top is told to its end, whatever else there is room for. -/
theorem climb_of_ascend (ht : (arena.nodeAt 0).parent = none) {k h n : Nat}
    (hk : arena.ascend k h = some 0) (hn : k < n) :
    arena.climbEnds n (some h) = true ∧
      (arena.climb n (some h)).getLast? = some (arena.nodeAt 0) := by
  induction k generalizing h n with
  | zero =>
    cases hk
    obtain ⟨n, rfl⟩ := Nat.exists_eq_add_of_lt hn
    simp [climbEnds, climb, ht]
  | succ k ih =>
    obtain ⟨p, hp, hk⟩ := Option.bind_eq_some_iff.mp hk
    obtain ⟨n, rfl⟩ : ∃ m, n = m + 1 := ⟨n - 1, by omega⟩
    obtain ⟨he, hl⟩ := ih hk (n := n) (by omega)
    simp only [climbEnds, climb, hp]
    refine ⟨he, ?_⟩
    rw [List.getLast?_cons, hl]
    rfl

/-- The names of a path in a rooted arena begin with the one at the top. -/
theorem Rooted.path_of_parent (hr : arena.Rooted) {link : Link} {p : Nat}
    (hp : link.node.parent = some p) (hb : p < arena.size) :
    arena.climbEnds arena.size link.node.parent = true ∧
      ∃ names, link.path arena = Path.join ((arena.nodeAt 0).name :: names) := by
  obtain ⟨k, hk, ha⟩ := hr.reaches hb
  obtain ⟨he, hl⟩ := climb_of_ascend hr.top ha hk
  unfold Link.path
  rw [hp]
  refine ⟨he, ?_⟩
  obtain ⟨nodes, hnodes⟩ := List.getLast?_eq_some_iff.mp hl
  rw [hnodes]
  exact ⟨((link.node :: nodes).map (·.name)).reverse, by simp⟩

end Arena

/-! ## Runs -/

/-- The link that the record became was there already, on the way up from its parent. -/
def Adoption.Loops (a : Adoption) : Prop :=
  ∃ steps, a.arena.ascend steps a.parent.handle = some a.link.handle

namespace Use

variable {share : Share} {sends : LinkRecord → Prop} {root : Node} {u : Use} {log : List Adoption}

/-- The tree stays rooted all the time exactly when no record is ever taken in below itself. -/
theorem Steps.rooted_iff (hr : root.parent = none) (h : Steps share sends (start root) log u) :
    ((∀ a ∈ log, a.arena.Rooted) ∧ u.arena.Rooted) ↔ ∀ a ∈ log, ¬ a.Loops := by
  induction h with
  | refl => simpa [start] using Arena.rooted_ofRoot hr
  | @adopt v log parent link record after hv hp hs hm ih =>
    have hpr := hv.proper (start_proper hr)
    have hstep : v.arena.Rooted → (after.Rooted ↔ ¬ Adoption.Loops ⟨v.arena, parent, link⟩) := by
      intro hrooted
      obtain ⟨hn, -⟩ := Node.derive_eq_ok_iff.mp (Share.materialize_ok hm).2.1
      rw [(hpr.takes hm).rooted_iff hpr.sound (hpr.adopt hp hm).sound hrooted hn
        (hpr.knows parent hp).bound]
      exact not_exists.symm
    simp only [List.mem_append, List.mem_singleton, or_imp, forall_and, forall_eq]
    rw [← ih]
    constructor
    · rintro ⟨⟨hlog, hv⟩, ha⟩
      exact ⟨⟨hlog, hv⟩, (hstep hv).mp ha⟩
    · rintro ⟨⟨hlog, hv⟩, ha⟩
      exact ⟨⟨hlog, hv⟩, (hstep hv).mpr ha⟩

/-- Only the link that the share was loaded with has no parent. -/
theorem Steps.eq_of_isRoot (h : Steps share sends (start root) log u) {link : Link}
    (hl : link ∈ u.links) (hi : link.isRoot = true) : link = (Arena.ofRoot root).rootLink := by
  induction h with
  | refl => exact List.mem_singleton.mp hl
  | adopt _ _ _ hm ih =>
    rcases List.mem_cons.mp hl with rfl | hl
    · obtain ⟨hn, -⟩ := Node.derive_eq_ok_iff.mp (Share.materialize_ok hm).2.1
      unfold Link.isRoot at hi
      rw [hn] at hi
      cases hi
    · exact ih hl

/-- What a rooted tree means for those who hold links: the root is the one that was loaded, and
every path comes to an end and begins with its name. -/
theorem Steps.path (hr : root.parent = none) (h : Steps share sends (start root) log u)
    (hu : u.arena.Rooted) :
    u.arena.rootLink = ⟨0, root⟩ ∧ ∀ link ∈ u.links,
      u.arena.climbEnds u.arena.size link.node.parent = true ∧
        ∃ names, link.path u.arena = Path.join (root.name :: names) := by
  have hp := h.proper (start_proper hr)
  have htop : u.arena.rootLink = ⟨0, root⟩ := by
    refine h.eq_of_isRoot (hp.present (Arena.size_pos _)) ?_
    unfold Link.isRoot
    exact Option.isNone_iff_eq_none.mpr hu.top
  refine ⟨htop, fun link hl => ?_⟩
  cases hpar : link.node.parent with
  | none =>
    have he := h.eq_of_isRoot hl (by rw [Link.isRoot, hpar]; rfl)
    refine ⟨Arena.climbEnds_none _, [], ?_⟩
    rw [he]
    simp [Link.path, Arena.rootLink, Arena.linkAt, Arena.nodeAt_zero, Arena.ofRoot, hr]
  | some p =>
    have hpath := hu.path_of_parent hpar ((hp.knows link hl).parent hpar).1
    rw [hpar] at hpath
    rwa [show u.arena.nodeAt 0 = root from congrArg Link.node htop] at hpath

end Use
end SealedDrive
