import Mathlib.Data.Finset.Card
import SealedDrive.Proofs.Ring

/-!
Handles stay good. A share hands out places in its arena, and a place is never given to another
link: ids and places are inverse to each other at all times, the arena grows by one place for each
id that was not there before, and every link that was ever handed out still finds its own id, and
that of its parent, where its handles say.
-/

namespace SealedDrive

/-! ## Places -/

namespace Arena

variable {arena : Arena}

theorem getElem?_nodes {h : Nat} (hh : h < arena.size) :
    arena.nodes[h]? = some (arena.nodeAt h) := by
  rw [nodeAt, List.getD_eq_getElem?_getD, List.getElem?_eq_getElem hh, Option.getD_some]

theorem lt_size_of_getElem? {h : Nat} {node : Node} (hn : arena.nodes[h]? = some node) :
    h < arena.size ∧ arena.nodeAt h = node := by
  obtain ⟨hh, -⟩ := List.getElem?_eq_some_iff.mp hn
  rw [getElem?_nodes hh] at hn
  exact ⟨hh, Option.some.inj hn⟩

/-- The link of an id stands at a place. -/
def Holds (arena : Arena) (h : Nat) (id : String) : Prop :=
  ∃ node, arena.nodes[h]? = some node ∧ node.id = id

theorem holds_iff {h : Nat} {id : String} :
    arena.Holds h id ↔ h < arena.size ∧ (arena.nodeAt h).id = id := by
  constructor
  · rintro ⟨node, hn, hid⟩
    obtain ⟨hh, rfl⟩ := lt_size_of_getElem? hn
    exact ⟨hh, hid⟩
  · rintro ⟨hh, hid⟩
    exact ⟨arena.nodeAt h, getElem?_nodes hh, hid⟩

theorem Sound.nodup_ids (hs : arena.Sound) : (arena.nodes.map (·.id)).Nodup := by
  refine List.nodup_iff_pairwise_ne.mpr (List.pairwise_map.mpr ?_)
  rw [List.pairwise_iff_getElem]
  intro h k hh hk hlt he
  have hat : ∀ {i : Nat} (hi : i < arena.nodes.length), arena.nodes[i] = arena.nodeAt i :=
    fun hi => Option.some.inj ((List.getElem?_eq_getElem hi).symm.trans (getElem?_nodes hi))
  rw [hat hh, hat hk] at he
  exact absurd (hs.handle_inj hh hk he) (Nat.ne_of_lt hlt)

/-- The ids of the links that stand in an arena. -/
def ids (arena : Arena) : Finset String := (arena.nodes.map (·.id)).toFinset

theorem Sound.card_ids (hs : arena.Sound) : arena.ids.card = arena.size := by
  rw [ids, List.toFinset_card_of_nodup hs.nodup_ids, List.length_map, size]

theorem mem_ids {id : String} : id ∈ arena.ids ↔ ∃ h, arena.Holds h id := by
  rw [ids, List.mem_toFinset, List.mem_map]
  constructor
  · rintro ⟨node, hm, rfl⟩
    obtain ⟨h, hn⟩ := List.mem_iff_getElem?.mp hm
    exact ⟨h, node, hn, rfl⟩
  · rintro ⟨h, node, hn, rfl⟩
    exact ⟨node, List.mem_of_getElem? hn, rfl⟩

/-- Putting a node in adds its id to those that are there, and takes none away. -/
theorem Takes.ids {after : Arena} {node : Node} {h : Nat} (ht : arena.Takes node h after) :
    after.ids = arena.ids ∪ {node.id} := by
  ext id
  rw [Finset.mem_union, Finset.mem_singleton, mem_ids, mem_ids]
  simp only [holds_iff]
  constructor
  · rintro ⟨k, hk, rfl⟩
    by_cases he : k = h
    · exact .inr (by rw [he, ht.at_handle])
    · have hk' := (ht.lt_or_eq hk).resolve_right he
      exact .inl ⟨k, hk', (ht.id_eq hk').symm⟩
  · rintro (⟨k, hk, rfl⟩ | rfl)
    · exact ⟨k, Nat.lt_of_lt_of_le hk ht.size_le, ht.id_eq hk⟩
    · exact ⟨h, ht.bound, by rw [ht.at_handle]⟩

end Arena

/-! ## Steps -/

namespace Use

variable {share : Share} {sends : LinkRecord → Prop} {root : Node} {u v : Use}
  {log : List Adoption}

/-- The ids of the links that were ever taken in, that of the root first. -/
def idsOf (root : Node) (log : List Adoption) : List String :=
  root.id :: log.map (·.link.id)

theorem Steps.size_le (h : Steps share sends u log v) (hu : u.Proper) :
    u.arena.size ≤ v.arena.size := by
  induction h with
  | refl => exact Nat.le_refl _
  | adopt hsteps _ _ hm ih => exact Nat.le_trans ih ((hsteps.proper hu).takes hm).size_le

/-- The arena has the ids that were ever taken in. -/
theorem Steps.ids (hr : root.parent = none) (h : Steps share sends (start root) log u) :
    u.arena.ids = (idsOf root log).toFinset := by
  induction h with
  | refl => rfl
  | adopt hsteps _ _ hm ih =>
    rw [((hsteps.proper (start_proper hr)).takes hm).ids, ih, idsOf, idsOf, List.map_append,
      ← List.cons_append, List.toFinset_append]
    rfl

/-- So the places are as many as the ids that were ever taken in. -/
theorem Steps.size_eq (hr : root.parent = none) (h : Steps share sends (start root) log u) :
    u.arena.size = (idsOf root log).toFinset.card := by
  rw [← h.ids hr, (h.proper (start_proper hr)).sound.card_ids]

end Use

theorem Arena.Knows.holds {arena : Arena} {link : Link} (hk : arena.Knows link) :
    arena.Holds link.handle link.id :=
  Arena.holds_iff.mpr ⟨hk.bound, hk.id_eq⟩

/-! ## Whole runs -/

variable {τ : Type} {service : Service τ} {share : Share} {root : Node} {server : τ}
  {s s' : Traffic τ}

/-- Whatever clients do with a share and whatever they are answered, ids and places are inverse to
each other, places are only added, one for each new id, and what has a handle, be it a link in hand
or a node below another, finds the right link there, now and at any later time. -/
theorem handles_stay_good (hr : root.parent = none)
    (h : Traffic.Run service share (fun _ => True) (.start (.ofRoot root) server) s)
    (h' : Traffic.Run service share (fun _ => True) s s') :
    (∀ id place, s.arena.find? id = some place ↔ s.arena.Holds place id) ∧
    (s.arena.nodes.map (·.id)).Nodup ∧
    s.arena.size ≤ s'.arena.size ∧
    (∃ log u, Use.Steps share (fun _ => True) (.start root) log u ∧ u.arena = s.arena ∧
      s.links ⊆ u.links ∧ s.arena.size = (Use.idsOf root log).toFinset.card) ∧
    (∀ link ∈ s.links, s'.arena.Holds link.handle link.id ∧
      ∀ p, link.node.parent = some p → ∃ id, link.node.record.parentLinkId = some id ∧
        s'.arena.Holds p id) ∧
    (∀ node ∈ s.arena.nodes, ∀ p, node.parent = some p →
      ∃ id, node.record.parentLinkId = some id ∧ s.arena.Holds p id) := by
  have hg : service.Gives (fun _ => True) True (Use.terms share fun _ => True) :=
    service.gives_any (Use.replies_any share)
  obtain ⟨log, u, hu, hf⟩ := (Traffic.follows_start hr trivial).run hg h
  obtain ⟨log', v, hv, hf'⟩ := hf.run hg h'
  have hsound : s.arena.Sound := hf.arena ▸ hf.proper.sound
  refine ⟨fun id place => hsound.find?_iff.trans Arena.holds_iff.symm, hsound.nodup_ids, ?_,
    ⟨log, u, hu, hf.arena, hf.links, hf.arena ▸ hu.size_eq hr⟩, fun link hm => ?_,
    fun node hm p hp => ?_⟩
  · rw [← hf.arena, ← hf'.arena]
    exact hv.size_le hf.proper
  · have hk := hf'.proper.knows link (hv.links_subset (hf.links hm))
    rw [hf'.arena] at hk
    refine ⟨hk.holds, fun p hp => ?_⟩
    obtain ⟨hbound, hid⟩ := hk.parent hp
    exact ⟨_, hid, Arena.holds_iff.mpr ⟨hbound, rfl⟩⟩
  · obtain ⟨place, hn⟩ := List.mem_iff_getElem?.mp hm
    obtain ⟨hplace, rfl⟩ := Arena.lt_size_of_getElem? hn
    obtain ⟨hbound, hid⟩ := hsound.parent hplace hp
    exact ⟨_, hid, Arena.holds_iff.mpr ⟨hbound, rfl⟩⟩

/-- When the root comes again below its own folder, it takes its old place: the link to it that was
in hand before finds its id there, though the node is another, and there are two links as before. -/
theorem handles_stay_good_ring : ∃ (root folder : Node) (s s' : Traffic Unit),
    Traffic.Run Ring.service Ring.share (fun _ => True) (.start (.ofRoot root) ()) s ∧
    Traffic.Run Ring.service Ring.share (fun _ => True) s s' ∧ ⟨0, root⟩ ∈ s.links ∧
    s'.arena.rootLink ≠ ⟨0, root⟩ ∧ s'.arena.Holds 0 root.id ∧ s.arena.Holds 0 root.id ∧
    s.arena.find? folder.id = some 1 ∧ s.arena.size = 2 ∧ s.arena.size ≤ s'.arena.size := by
  obtain ⟨root, folder, again, s, s', h⟩ := Ring.exists_closes
  have hroot : ⟨0, root⟩ ∈ s.links := by
    rw [h.links]
    exact List.mem_cons_of_mem _ List.mem_cons_self
  have hfolder : ⟨1, folder⟩ ∈ s.links := by
    rw [h.links]
    exact List.mem_cons_self
  obtain ⟨hfind, -, hle, -, hlater, -⟩ :=
    handles_stay_good h.rootOpens.parent_eq h.before h.after
  obtain ⟨-, -, -, -, hnow, -⟩ := handles_stay_good h.rootOpens.parent_eq h.before .refl
  refine ⟨root, folder, s, s', h.before, h.after, hroot, ?_, (hlater _ hroot).1,
    (hnow _ hroot).1, (hfind _ 1).mpr (hnow _ hfolder).1, ?_, hle⟩
  · intro he
    have hparent : (s'.arena.rootLink).node.parent = root.parent := by rw [he]
    rw [h.closed, h.rootOpens.parent_eq] at hparent
    exact absurd (h.againOpens.parent_eq.symm.trans hparent) (Option.some_ne_none 1)
  · rw [h.arena_eq]
    rfl

end SealedDrive
