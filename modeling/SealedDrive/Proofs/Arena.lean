import SealedDrive.Drive.Link

/-!
What the arena of a share knows. Handles and link ids are inverse to each other, every parent
handle is in use, and putting a node in changes nothing but the place of that node.
-/

namespace SealedDrive.Arena

/-! ## Handles -/

theorem size_eq (arena : Arena) : arena.size = arena.rest.length + 1 := rfl

@[simp]
theorem size_pos (arena : Arena) : 0 < arena.size := by rw [size_eq]; omega

theorem nodeAt_zero (arena : Arena) : arena.nodeAt 0 = arena.root := rfl

theorem nodeAt_succ (arena : Arena) (i : Nat) :
    arena.nodeAt (i + 1) = arena.rest.getD i arena.root := rfl

@[simp]
theorem size_replace (arena : Arena) (h : Nat) (node : Node) :
    (arena.replace h node).size = arena.size := by
  cases h <;> simp [replace, size_eq]

@[simp]
theorem find?_replace (arena : Arena) (h : Nat) (node : Node) (id : String) :
    (arena.replace h node).find? id = arena.find? id := by
  cases h <;> rfl

theorem nodeAt_replace {arena : Arena} {h k : Nat} (node : Node) (hk : k < arena.size) :
    (arena.replace h node).nodeAt k = if k = h then node else arena.nodeAt k := by
  rw [size_eq] at hk
  cases h with
  | zero =>
    cases k with
    | zero => rfl
    | succ k =>
      have hk' : k < arena.rest.length := by omega
      simp [replace, nodeAt_succ, hk']
  | succ h =>
    cases k with
    | zero => rfl
    | succ k =>
      have hk' : k < arena.rest.length := by omega
      simp only [replace, nodeAt_succ, List.getD_eq_getElem?_getD, List.getElem?_set,
        Nat.add_right_cancel_iff]
      by_cases he : k = h
      · subst he; simp [hk']
      · simp [he, Ne.symm he]

/-! ## Putting a node in -/

theorem insert_of_known {arena : Arena} {node : Node} {h : Nat}
    (hf : arena.find? node.id = some h) : arena.insert node = (h, arena.replace h node) := by
  simp [insert, hf]

theorem insert_of_new {arena : Arena} {node : Node} (hf : arena.find? node.id = none) :
    arena.insert node = (arena.size, { arena with
      rest := arena.rest ++ [node], byId := arena.byId ++ [(node.id, arena.size)] }) := by
  simp [insert, hf]

/-- Handles and ids are inverse to each other, and the parent handle of a node stands for the link
that its record names as the parent. -/
structure Sound (arena : Arena) : Prop where
  find?_iff : ∀ {id h}, arena.find? id = some h ↔ h < arena.size ∧ (arena.nodeAt h).id = id
  parent : ∀ {h p}, h < arena.size → (arena.nodeAt h).parent = some p →
    p < arena.size ∧ (arena.nodeAt h).record.parentLinkId = some (arena.nodeAt p).id

theorem Sound.find?_id {arena : Arena} (hs : arena.Sound) {h : Nat} (hh : h < arena.size) :
    arena.find? (arena.nodeAt h).id = some h := hs.find?_iff.mpr ⟨hh, rfl⟩

/-- No two handles stand for one link. -/
theorem Sound.handle_inj {arena : Arena} (hs : arena.Sound) {h k : Nat} (hh : h < arena.size)
    (hk : k < arena.size) (he : (arena.nodeAt h).id = (arena.nodeAt k).id) : h = k := by
  have hf := hs.find?_id hh
  rw [he, hs.find?_id hk] at hf
  exact (Option.some.inj hf).symm

/-- What has become of an arena into which a node was put under a handle. -/
structure Takes (arena : Arena) (node : Node) (h : Nat) (after : Arena) : Prop where
  bound : h < after.size
  at_handle : after.nodeAt h = node
  elsewhere : ∀ {k}, k < arena.size → k ≠ h → after.nodeAt k = arena.nodeAt k
  size : after.size = if h < arena.size then arena.size else arena.size + 1
  handle_le : h ≤ arena.size
  id_iff : ∀ {k}, k < arena.size → ((arena.nodeAt k).id = node.id ↔ k = h)
  find? : ∀ id, after.find? id = if id = node.id then some h else arena.find? id

theorem lookup_single {α : Type} (key id : String) (a : α) :
    List.lookup id [(key, a)] = if id = key then some a else none := by
  by_cases h : id = key
  · simp [h]
  · rw [if_neg h, List.lookup_cons, beq_false_of_ne h]; rfl

theorem takes_insert {arena : Arena} (hs : arena.Sound) (node : Node) :
    arena.Takes node (arena.insert node).1 (arena.insert node).2 := by
  cases hf : arena.find? node.id with
  | some h =>
    obtain ⟨hh, hid⟩ := hs.find?_iff.mp hf
    rw [insert_of_known hf]
    refine ⟨by rwa [size_replace], by rw [nodeAt_replace node hh, if_pos rfl],
      fun hk hne => by rw [nodeAt_replace node hk, if_neg hne],
      by rw [if_pos hh, size_replace], Nat.le_of_lt hh, fun {k} hk => ?_, fun id => ?_⟩
    · exact ⟨fun he => hs.handle_inj hk hh (he.trans hid.symm), fun he => he ▸ hid⟩
    · rw [find?_replace]
      split
      · next he => rw [he, hf]
      · rfl
  | none =>
    rw [insert_of_new hf]
    refine ⟨by simp [size_eq], ?_, ?_, by simp [size_eq], Nat.le_refl _, fun {k} hk => ?_,
      fun id => ?_⟩
    · simp [size_eq, nodeAt_succ]
    · intro k hk hne
      rw [size_eq] at hk
      cases k with
      | zero => rfl
      | succ k =>
        have hk' : k < arena.rest.length := by omega
        simp [nodeAt_succ, List.getElem?_append_left hk']
    · refine ⟨fun he => ?_, fun he => absurd hk (by omega)⟩
      rw [hs.find?_iff.mpr ⟨hk, he⟩] at hf
      cases hf
    · simp only [Arena.find?, List.lookup_append, lookup_single]
      by_cases he : id = node.id
      · have hn : List.lookup node.id arena.byId = none := hf
        simp [he, hn]
      · simp [he]

namespace Takes

variable {arena after : Arena} {node : Node} {h : Nat}

theorem size_le (ht : arena.Takes node h after) : arena.size ≤ after.size := by
  rw [ht.size]; split <;> omega

theorem lt_or_eq (ht : arena.Takes node h after) {k : Nat} (hk : k < after.size) :
    k < arena.size ∨ k = h := by
  have := ht.handle_le
  rw [ht.size] at hk
  split at hk <;> omega

/-- The link under a handle never changes, only what is known of it. -/
theorem id_eq (ht : arena.Takes node h after) {k : Nat} (hk : k < arena.size) :
    (after.nodeAt k).id = (arena.nodeAt k).id := by
  by_cases he : k = h
  · rw [(ht.id_iff hk).mpr he, he, ht.at_handle]
  · rw [ht.elsewhere hk he]

/-- Handles and ids stay inverse when the parent of what is put in is known. -/
theorem sound (ht : arena.Takes node h after) (hs : arena.Sound)
    (hp : ∀ p, node.parent = some p →
      p < arena.size ∧ node.record.parentLinkId = some (arena.nodeAt p).id) : after.Sound := by
  refine ⟨fun {id k} => ?_, fun {k p} hk hkp => ?_⟩
  · rw [ht.find?]
    split
    · next he =>
      constructor
      · intro hh
        cases hh
        exact ⟨ht.bound, by rw [ht.at_handle, he]⟩
      · rintro ⟨hk, hid⟩
        rcases ht.lt_or_eq hk with hk' | rfl
        · rw [ht.id_eq hk', he] at hid
          rw [(ht.id_iff hk').mp hid]
        · rfl
    · next he =>
      rw [hs.find?_iff]
      constructor
      · rintro ⟨hk, hid⟩
        exact ⟨Nat.lt_of_lt_of_le hk ht.size_le, by rw [ht.id_eq hk, hid]⟩
      · rintro ⟨hk, hid⟩
        rcases ht.lt_or_eq hk with hk' | rfl
        · exact ⟨hk', by rw [← ht.id_eq hk', hid]⟩
        · rw [ht.at_handle] at hid
          exact absurd hid.symm he
  · by_cases he : k = h
    · rw [he, ht.at_handle] at hkp ⊢
      obtain ⟨hp, hid⟩ := hp p hkp
      exact ⟨Nat.lt_of_lt_of_le hp ht.size_le, by rw [ht.id_eq hp, hid]⟩
    · have hk' := (ht.lt_or_eq hk).resolve_right he
      rw [ht.elsewhere hk' he] at hkp ⊢
      obtain ⟨hp, hid⟩ := hs.parent hk' hkp
      exact ⟨Nat.lt_of_lt_of_le hp ht.size_le, by rw [ht.id_eq hp, hid]⟩

end Takes

theorem sound_ofRoot {root : Node} (hr : root.parent = none) : (ofRoot root).Sound := by
  have hz : ∀ {h}, h < (ofRoot root).size → h = 0 := by
    intro h hh
    simp [size_eq, ofRoot] at hh
    exact hh
  refine ⟨fun {id h} => ?_, fun {h p} hh hp => ?_⟩
  · simp only [Arena.find?, ofRoot, lookup_single]
    constructor
    · intro hf
      split at hf
      · next he => cases hf; exact ⟨size_pos _, he.symm⟩
      · cases hf
    · rintro ⟨hh, hid⟩
      rw [hz hh] at hid ⊢
      exact if_pos hid.symm
  · rw [hz hh] at hp
    have hp : root.parent = some p := hp
    rw [hr] at hp
    cases hp

end SealedDrive.Arena
