import Mathlib.Data.List.Nodup

/-!
The first and the last of a list that have a property, and the one that is preferred.
-/

namespace SealedDrive

variable {α β : Type} {p : α → Prop} {items : List α} {a b : α}

/-- The first of a list with a property. -/
inductive IsFirst (p : α → Prop) : List α → α → Prop
  | here {a : α} {rest : List α} : p a → IsFirst p (a :: rest) a
  | later {a b : α} {rest : List α} : ¬p b → IsFirst p rest a → IsFirst p (b :: rest) a

/-- The last of a list with a property. -/
def IsLast (p : α → Prop) (items : List α) (a : α) : Prop := IsFirst p items.reverse a

/-- The first flagged one of those that qualify, or else the first that qualifies. -/
def Prefers (qualifies flagged : α → Prop) (items : List α) (a : α) : Prop :=
  IsFirst (fun b => qualifies b ∧ flagged b) items a ∨
    (∀ b ∈ items, ¬(qualifies b ∧ flagged b)) ∧ IsFirst qualifies items a

namespace IsFirst

theorem mem (h : IsFirst p items a) : a ∈ items := by
  induction h with
  | here => exact List.mem_cons_self
  | later _ _ ih => exact List.mem_cons_of_mem _ ih

theorem holds (h : IsFirst p items a) : p a := by
  induction h with
  | here ha => exact ha
  | later _ _ ih => exact ih

theorem unique (h : IsFirst p items a) (h' : IsFirst p items b) : a = b := by
  induction h with
  | here ha =>
    cases h' with
    | here => rfl
    | later hn _ => exact absurd ha hn
  | later hn _ ih =>
    cases h' with
    | here hb => exact absurd hb hn
    | later _ h' => exact ih h'

/-- What comes after does not matter. -/
theorem append (h : IsFirst p items a) (more : List α) : IsFirst p (items ++ more) a := by
  induction h with
  | here ha => exact .here ha
  | later hn _ ih => exact .later hn ih

/-- What comes before does not either, unless it has the property. -/
theorem after {before : List α} (hn : ∀ b ∈ before, ¬p b) (h : IsFirst p items a) :
    IsFirst p (before ++ items) a := by
  induction before with
  | nil => exact h
  | cons c rest ih =>
    obtain ⟨hc, hrest⟩ := List.forall_mem_cons.mp hn
    exact .later hc (ih hrest)

end IsFirst

theorem isFirst_cons : IsFirst p (b :: items) a ↔ p b ∧ a = b ∨ ¬p b ∧ IsFirst p items a := by
  constructor
  · intro h
    cases h with
    | here ha => exact .inl ⟨ha, rfl⟩
    | later hn h => exact .inr ⟨hn, h⟩
  · rintro (⟨hb, rfl⟩ | ⟨hn, h⟩)
    · exact .here hb
    · exact .later hn h

theorem exists_isFirst (h : ∃ a ∈ items, p a) : ∃ a, IsFirst p items a := by
  induction items with
  | nil =>
    obtain ⟨_, hm, -⟩ := h
    cases hm
  | cons b rest ih =>
    by_cases hb : p b
    · exact ⟨b, .here hb⟩
    obtain ⟨a, hm, ha⟩ := h
    rcases List.mem_cons.mp hm with rfl | hm
    · exact absurd ha hb
    obtain ⟨first, hfirst⟩ := ih ⟨a, hm, ha⟩
    exact ⟨first, .later hb hfirst⟩

theorem find?_eq_some_iff_isFirst {q : α → Bool} :
    items.find? q = some a ↔ IsFirst (q · = true) items a := by
  induction items with
  | nil => exact ⟨nofun, nofun⟩
  | cons b rest ih =>
    rw [isFirst_cons, ← ih, List.find?_cons]
    cases hb : q b <;> simp [eq_comm]

/-! ## The last -/

theorem IsLast.mem (h : IsLast p items a) : a ∈ items := List.mem_reverse.mp (IsFirst.mem h)

theorem exists_isLast (h : ∃ a ∈ items, p a) : ∃ a, IsLast p items a := by
  obtain ⟨a, hm, ha⟩ := h
  exact exists_isFirst ⟨a, List.mem_reverse.mpr hm, ha⟩

theorem isLast_concat : IsLast p (items ++ [b]) a ↔ p b ∧ a = b ∨ ¬p b ∧ IsLast p items a := by
  rw [IsLast, List.reverse_append]
  exact isFirst_cons

/-- When a key tells all of a list apart and the property settles the key, only one has it. -/
theorem isLast_iff_mem {key : α → β} {k : β} (hkey : ∀ a, p a → key a = k)
    (hn : (items.map key).Nodup) : IsLast p items a ↔ a ∈ items ∧ p a := by
  refine ⟨fun h => ⟨h.mem, h.holds⟩, fun ⟨hm, ha⟩ => ?_⟩
  obtain ⟨last, hlast⟩ := exists_isLast ⟨a, hm, ha⟩
  have hsame : last = a := List.inj_on_of_nodup_map hn hlast.mem hm
    ((hkey last hlast.holds).trans (hkey a ha).symm)
  exact hsame ▸ hlast

/-! ## The preferred one -/

theorem prefers_iff {qualifies flagged : α → Bool} :
    ((items.filter qualifies).find? flagged <|> (items.filter qualifies).head?) = some a ↔
      Prefers (qualifies · = true) (flagged · = true) items a := by
  rw [List.find?_filter, List.head?_filter]
  cases hfind : items.find? fun b => decide (qualifies b = true ∧ flagged b = true) with
  | some first =>
    have hfirst := find?_eq_some_iff_isFirst.mp hfind
    simp only [decide_eq_true_eq] at hfirst
    constructor
    · intro h
      cases h
      exact .inl hfirst
    · rintro (h | ⟨hnone, -⟩)
      · exact congrArg some (hfirst.unique h)
      · exact absurd hfirst.holds (hnone first hfirst.mem)
  | none =>
    have hnone := List.find?_eq_none.mp hfind
    simp only [decide_eq_true_eq] at hnone
    constructor
    · exact fun h => .inr ⟨hnone, find?_eq_some_iff_isFirst.mp h⟩
    · rintro (h | ⟨-, h⟩)
      · exact absurd h.holds (hnone a h.mem)
      · exact find?_eq_some_iff_isFirst.mpr h

end SealedDrive
