import SealedDrive.Proofs.Scanning

/-!
JSON that is written reads back. The two ways of writing differ in their blanks only, so both are
one spelling with a layout, and whatever the layout, reading the text gives the value that was
written. Left out is what no text can hold: strings that are no texts, and numbers of more than 64
bits, whose last digits a reader drops.

A reader needs no more fuel than there are characters: each of its calls for what lies inside a
value, or behind it, starts after at least one more character.
-/

namespace SealedDrive.Json

/-- Induction on the items and on the values of the members. -/
@[elab_as_elim]
theorem induction {motive : Json → Prop} (null : motive .null)
    (bool : ∀ value, motive (.bool value)) (integer : ∀ value, motive (.integer value))
    (decimal : ∀ mantissa exponent, motive (.decimal mantissa exponent))
    (string : ∀ text, motive (.string text))
    (array : ∀ items, (∀ item ∈ items, motive item) → motive (.array items))
    (object : ∀ members, (∀ name value, (name, value) ∈ members → motive value) →
      motive (.object members)) (j : Json) : motive j :=
  match j with
  | .null => null
  | .bool value => bool value
  | .integer value => integer value
  | .decimal mantissa exponent => decimal mantissa exponent
  | .string text => string text
  | .array items =>
    array items fun item _ => induction null bool integer decimal string array object item
  | .object members =>
    object members fun _ value h => by
      have : sizeOf value < 1 + sizeOf members := by
        have := List.sizeOf_lt_of_mem h
        simp only [Prod.mk.sizeOf_spec] at this
        omega
      exact induction null bool integer decimal string array object value

/-! ## Blanks -/

theorem skipBlanks_append {blanks : List Char} (h : ∀ c ∈ blanks, isBlank c = true)
    (s : List Char) : skipBlanks (blanks ++ s) = skipBlanks s :=
  List.dropWhile_append_of_pos h

theorem skipBlanks_cons {c : Char} (h : isBlank c = false) (s : List Char) :
    skipBlanks (c :: s) = c :: s :=
  List.dropWhile_cons_of_neg (by simp [h])

/-- The blanks of a text: where something inside `level` arrays and objects starts or such an array
or object is closed, and behind a colon. -/
structure Layout where
  gap : (level : Nat) → List Char
  colonGap : List Char
  gap_blank : ∀ level, ∀ c ∈ gap level, isBlank c = true
  colonGap_blank : ∀ c ∈ colonGap, isBlank c = true

namespace Layout

def oneLine : Layout := ⟨fun _ => [], [], by simp, by simp⟩

def lines : Layout where
  gap := newLine
  colonGap := [' ']
  gap_blank level c h := by
    rcases List.mem_cons.1 h with rfl | h
    · rfl
    · rw [(List.mem_replicate.1 h).2]; rfl
  colonGap_blank := List.forall_mem_singleton.2 rfl

mutual
/-- A value inside `level` arrays and objects. -/
def spell (layout : Layout) (level : Nat) : Json → List Char
  | .array [] => ['[', ']']
  | .array (item :: rest) =>
    '[' :: (layout.gap (level + 1) ++
      (spell layout (level + 1) item ++ spellItems layout level rest))
  | .object [] => ['\x7b', '\x7d']
  | .object ((name, value) :: rest) =>
    '\x7b' :: (layout.gap (level + 1) ++ (writeString name ++ ':' :: (layout.colonGap ++
      (spell layout (level + 1) value ++ spellMembers layout level rest))))
  | .null => write .null
  | .bool value => write (.bool value)
  | .integer value => write (.integer value)
  | .decimal mantissa exponent => write (.decimal mantissa exponent)
  | .string text => write (.string text)

/-- The items after the first one, and the closing bracket. -/
def spellItems (layout : Layout) (level : Nat) : List Json → List Char
  | [] => layout.gap level ++ [']']
  | item :: rest =>
    ',' :: (layout.gap (level + 1) ++
      (spell layout (level + 1) item ++ spellItems layout level rest))

/-- The members after the first one, and the closing brace. -/
def spellMembers (layout : Layout) (level : Nat) : List (Option String × Json) → List Char
  | [] => layout.gap level ++ ['\x7d']
  | (name, value) :: rest =>
    ',' :: (layout.gap (level + 1) ++ (writeString name ++ ':' :: (layout.colonGap ++
      (spell layout (level + 1) value ++ spellMembers layout level rest))))
end

@[simp] theorem oneLine_gap (level : Nat) : oneLine.gap level = [] := rfl

@[simp] theorem oneLine_colonGap : oneLine.colonGap = [] := rfl

@[simp] theorem lines_gap (level : Nat) : lines.gap level = newLine level := rfl

@[simp] theorem lines_colonGap : lines.colonGap = [' '] := rfl

theorem spell_lines (level : Nat) (j : Json) : lines.spell level j = writeLines level j := by
  induction j using induction generalizing level with
  | array items ih =>
    have hitems (rest : List Json) (item : Json) (h : ∀ j ∈ item :: rest, j ∈ items) :
        newLine (level + 1) ++ (lines.spell (level + 1) item ++ lines.spellItems level rest) =
          writeItemLines (level + 1) (item :: rest) ++ newLine level ++ [']'] := by
      induction rest generalizing item with
      | nil => simp [spellItems, writeItemLines, ih item (h item List.mem_cons_self)]
      | cons next rest ihrest =>
        have hrest := ihrest next fun j hj => h j (List.mem_cons_of_mem _ hj)
        simp only [spellItems, writeItemLines, ih item (h item List.mem_cons_self), lines_gap,
          hrest, List.append_assoc, List.cons_append]
    cases items with
    | nil => rfl
    | cons item rest =>
      simp only [spell, writeLines, lines_gap, hitems rest item fun _ h => h]
  | object members ih =>
    have hmembers (rest : List (Option String × Json)) (name : Option String) (value : Json)
        (h : ∀ member ∈ (name, value) :: rest, member ∈ members) :
        newLine (level + 1) ++ (writeString name ++ ':' :: ' ' ::
            (lines.spell (level + 1) value ++ lines.spellMembers level rest)) =
          writeMemberLines (level + 1) ((name, value) :: rest) ++ newLine level ++ ['\x7d'] := by
      have hvalue := ih name value (h _ List.mem_cons_self) (level + 1)
      induction rest generalizing name value with
      | nil => simp [spellMembers, writeMemberLines, hvalue]
      | cons next rest ihrest =>
        have hnext := ih next.1 next.2 (h _ (by simp)) (level + 1)
        have hrest := ihrest next.1 next.2 (fun j hj => h j (List.mem_cons_of_mem _ hj)) hnext
        simp only [spellMembers, writeMemberLines, hvalue, lines_gap, lines_colonGap, hrest,
          List.append_assoc, List.cons_append, List.nil_append]
    cases members with
    | nil => rfl
    | cons member rest =>
      simp only [spell, writeLines, lines_gap, lines_colonGap, List.cons_append, List.nil_append,
        hmembers rest member.1 member.2 fun _ h => h]
  | _ => simp only [spell, writeLines]

theorem spell_oneLine (level : Nat) (j : Json) : oneLine.spell level j = write j := by
  induction j using induction generalizing level with
  | array items ih =>
    have hitems (rest : List Json) (item : Json) (h : ∀ j ∈ item :: rest, j ∈ items) :
        oneLine.spell (level + 1) item ++ oneLine.spellItems level rest =
          writeItems (item :: rest) ++ [']'] := by
      have hitem := ih item (h item List.mem_cons_self) (level + 1)
      induction rest generalizing item with
      | nil => simp [spellItems, writeItems, hitem]
      | cons next rest ihrest =>
        have hnext := ih next (h _ (by simp)) (level + 1)
        have hrest := ihrest next (fun j hj => h j (List.mem_cons_of_mem _ hj)) hnext
        simp only [spellItems, writeItems, hitem, oneLine_gap, hrest, List.append_assoc,
          List.cons_append, List.nil_append]
    cases items with
    | nil => rfl
    | cons item rest =>
      simp only [spell, write, oneLine_gap, List.nil_append, hitems rest item fun _ h => h]
  | object members ih =>
    have hmembers (rest : List (Option String × Json)) (name : Option String) (value : Json)
        (h : ∀ member ∈ (name, value) :: rest, member ∈ members) :
        writeString name ++ ':' ::
            (oneLine.spell (level + 1) value ++ oneLine.spellMembers level rest) =
          writeMembers ((name, value) :: rest) ++ ['\x7d'] := by
      have hvalue := ih name value (h _ List.mem_cons_self) (level + 1)
      induction rest generalizing name value with
      | nil => simp [spellMembers, writeMembers, hvalue]
      | cons next rest ihrest =>
        have hnext := ih next.1 next.2 (h _ (by simp)) (level + 1)
        have hrest := ihrest next.1 next.2 (fun j hj => h j (List.mem_cons_of_mem _ hj)) hnext
        simp only [spellMembers, writeMembers, hvalue, oneLine_gap, oneLine_colonGap, hrest,
          List.append_assoc, List.cons_append, List.nil_append]
    cases members with
    | nil => rfl
    | cons member rest =>
      simp only [spell, write, oneLine_gap, oneLine_colonGap, List.nil_append,
        hmembers rest member.1 member.2 fun _ h => h]
  | _ => simp only [spell]

end Layout

/-! ## Reading back -/

mutual
/-- Whether a text can hold the whole value: every string is a text, and every number has at most
64 bits. -/
def isLegible : Json → Bool
  | .integer value => value.natAbs < 2 ^ 64
  | .decimal mantissa _ => mantissa.natAbs < 2 ^ 64
  | .string text => text.isSome
  | .array items => isLegibleItems items
  | .object members => isLegibleMembers members
  | _ => true

def isLegibleItems : List Json → Bool
  | [] => true
  | item :: rest => isLegible item && isLegibleItems rest

def isLegibleMembers : List (Option String × Json) → Bool
  | [] => true
  | (name, value) :: rest => name.isSome && isLegible value && isLegibleMembers rest
end

theorem isLegible_of_mem {items : List Json} (h : isLegibleItems items = true) {item : Json}
    (hmem : item ∈ items) : isLegible item = true := by
  induction items with
  | nil => cases hmem
  | cons first rest ih =>
    obtain ⟨hfirst, hrest⟩ := Bool.and_eq_true_iff.1 h
    rcases List.mem_cons.1 hmem with rfl | hmem
    · exact hfirst
    · exact ih hrest hmem

theorem isLegible_of_mem_members {members : List (Option String × Json)}
    (h : isLegibleMembers members = true) {name : Option String} {value : Json}
    (hmem : (name, value) ∈ members) :
    (∃ text, name = some text) ∧ isLegible value = true := by
  induction members with
  | nil => cases hmem
  | cons first rest ih =>
    obtain ⟨hfirst, hrest⟩ := Bool.and_eq_true_iff.1 h
    rcases List.mem_cons.1 hmem with rfl | hmem
    · exact (Bool.and_eq_true_iff.1 hfirst).imp Option.isSome_iff_exists.1 id
    · exact ih hrest hmem

theorem readValue_skipBlanks (fuel : Nat) {blanks : List Char}
    (h : ∀ c ∈ blanks, isBlank c = true) (s : List Char) :
    readValue fuel (blanks ++ s) = readValue fuel s := by
  cases fuel with
  | zero => simp only [readValue]
  | succ fuel => unfold readValue; rw [skipBlanks_append h]

theorem readItems_skipBlanks (fuel : Nat) {blanks : List Char}
    (h : ∀ c ∈ blanks, isBlank c = true) (s : List Char) :
    readItems fuel (blanks ++ s) = readItems fuel s := by
  cases fuel with
  | zero => simp only [readItems]
  | succ fuel => simp only [readItems, readValue_skipBlanks fuel h]

theorem readMembers_skipBlanks (fuel : Nat) {blanks : List Char}
    (h : ∀ c ∈ blanks, isBlank c = true) (s : List Char) :
    readMembers fuel (blanks ++ s) = readMembers fuel s := by
  cases fuel with
  | zero => simp only [readMembers]
  | succ fuel => simp only [readMembers, skipBlanks_append h]

theorem readValue_bracket (fuel : Nat) {c : Char} {s : List Char} (hc : isBlank c = false)
    (hclose : c ≠ ']') {blanks : List Char} (h : ∀ c ∈ blanks, isBlank c = true) :
    readValue (fuel + 1) ('[' :: (blanks ++ c :: s)) =
      (readItems fuel (c :: s)).map fun (items, rest) => (.array items, rest) := by
  have hinside : skipBlanks (blanks ++ c :: s) = c :: s :=
    (skipBlanks_append h _).trans (skipBlanks_cons hc s)
  rw [readValue, skipBlanks_cons (by decide)]
  simp only [hinside]
  split
  · next heq => exact absurd (List.cons.inj heq).1 hclose
  · rfl

theorem readValue_brace (fuel : Nat) {blanks : List Char} (h : ∀ c ∈ blanks, isBlank c = true)
    (s : List Char) :
    readValue (fuel + 1) ('\x7b' :: (blanks ++ '"' :: s)) =
      (readMembers fuel ('"' :: s)).map fun (members, rest) => (.object members, rest) := by
  have hinside : skipBlanks (blanks ++ '"' :: s) = '"' :: s :=
    (skipBlanks_append h _).trans (skipBlanks_cons (by decide) s)
  rw [readValue, skipBlanks_cons (by decide)]
  simp only [hinside]
  rfl

theorem readItems_last {fuel : Nat} {s blanks rest : List Char} {item : Json}
    (h : ∀ c ∈ blanks, isBlank c = true)
    (hitem : readValue fuel s = some (item, blanks ++ ']' :: rest)) :
    readItems (fuel + 1) s = some ([item], rest) := by
  rw [readItems, hitem]
  dsimp only
  rw [skipBlanks_append h, skipBlanks_cons (by decide)]
  rfl

theorem readItems_more {fuel : Nat} {s rest : List Char} {item : Json}
    (hitem : readValue fuel s = some (item, ',' :: rest)) :
    readItems (fuel + 1) s =
      (readItems fuel rest).map fun (items, rest) => (item :: items, rest) := by
  rw [readItems, hitem]
  rfl

theorem readMembers_name (fuel : Nat) (name : String) (s : List Char) :
    readMembers (fuel + 1) (writeString (some name) ++ ':' :: s) =
      match readValue fuel s with
      | none => none
      | some (value, rest) =>
        match skipBlanks rest with
        | '\x7d' :: rest => some ([(some name, value)], rest)
        | ',' :: rest =>
          (readMembers fuel rest).map fun (members, rest) => ((some name, value) :: members, rest)
        | _ => none := by
  have hname := readString_write name (':' :: s)
  rw [writeString, List.cons_append, List.append_assoc, readMembers, skipBlanks_cons (by decide)]
  simp only [Option.getD_some, List.singleton_append, hname]
  rw [skipBlanks_cons (by decide)]
  rfl

theorem readMembers_last {fuel : Nat} {s blanks rest : List Char} {value : Json}
    (h : ∀ c ∈ blanks, isBlank c = true) (name : String)
    (hvalue : readValue fuel s = some (value, blanks ++ '\x7d' :: rest)) :
    readMembers (fuel + 1) (writeString (some name) ++ ':' :: s) =
      some ([(some name, value)], rest) := by
  rw [readMembers_name, hvalue]
  dsimp only
  rw [skipBlanks_append h, skipBlanks_cons (by decide)]
  rfl

theorem readMembers_more {fuel : Nat} {s rest : List Char} {value : Json} (name : String)
    (hvalue : readValue fuel s = some (value, ',' :: rest)) :
    readMembers (fuel + 1) (writeString (some name) ++ ':' :: s) =
      (readMembers fuel rest).map fun (members, rest) =>
        ((some name, value) :: members, rest) := by
  rw [readMembers_name, hvalue]
  rfl

namespace Layout

variable {layout : Layout}

/-- A value reads back from its spelling. -/
def ReadsBack (layout : Layout) (level : Nat) (j : Json) : Prop :=
  ∀ fuel rest, (layout.spell level j).length < fuel → EndsNumber rest →
    readValue fuel (layout.spell level j ++ rest) = some (j, rest)

theorem ReadsBack.of_succ {level : Nat} {j : Json}
    (h : ∀ fuel rest, (layout.spell level j).length ≤ fuel → EndsNumber rest →
      readValue (fuel + 1) (layout.spell level j ++ rest) = some (j, rest)) :
    layout.ReadsBack level j := by
  intro fuel rest hf hrest
  obtain ⟨fuel, rfl⟩ : ∃ n, fuel = n + 1 := ⟨fuel - 1, by omega⟩
  exact h fuel rest (Nat.le_of_lt_succ hf) hrest

theorem endsNumber_of {c : Char} (s : List Char)
    (h : isBlank c = true ∨ c ∈ [',', ']', '\x7d']) : EndsNumber (c :: s) := by
  rintro _ ⟨⟩
  simp only [isBlank, Bool.or_eq_true, decide_eq_true_eq, List.mem_cons, List.not_mem_nil,
    or_false] at h
  rcases h with (((rfl | rfl) | rfl) | rfl) | rfl | rfl | rfl <;> decide

theorem endsNumber_gap (layout : Layout) (level : Nat) {c : Char} (s : List Char)
    (h : c ∈ [',', ']', '\x7d']) : EndsNumber (layout.gap level ++ c :: s) := by
  cases hgap : layout.gap level with
  | nil => exact endsNumber_of s (.inr h)
  | cons d gap => exact endsNumber_of _ (.inl (layout.gap_blank level d (by simp [hgap])))

theorem endsNumber_spellItems (layout : Layout) (level : Nat) (items : List Json) (s : List Char) :
    EndsNumber (layout.spellItems level items ++ s) := by
  cases items with
  | nil =>
    rw [spellItems, List.append_assoc]
    exact layout.endsNumber_gap level s (by decide)
  | cons item rest =>
    rw [spellItems]
    exact endsNumber_of _ (.inr (by decide))

theorem endsNumber_spellMembers (layout : Layout) (level : Nat)
    (members : List (Option String × Json)) (s : List Char) :
    EndsNumber (layout.spellMembers level members ++ s) := by
  cases members with
  | nil =>
    rw [spellMembers, List.append_assoc]
    exact layout.endsNumber_gap level s (by decide)
  | cons member rest =>
    rw [spellMembers]
    exact endsNumber_of _ (.inr (by decide))

/-- No spelling starts with a blank or a closing bracket. -/
theorem head_spell (layout : Layout) (level : Nat) (j : Json) :
    ∃ c s, layout.spell level j = c :: s ∧ isBlank c = false ∧ c ≠ ']' := by
  have hinteger (value : Int) :
      ∃ c s, writeInteger value = c :: s ∧ isBlank c = false ∧ c ≠ ']' := by
    rw [writeInteger_eq]
    split
    · exact ⟨_, _, rfl, rfl, by decide⟩
    · obtain ⟨c, s, hc, hdigit⟩ := head_toDigits value.natAbs
      exact ⟨c, s, hc, isBlank_of_digit hdigit, by rintro rfl; cases hdigit⟩
  cases j with
  | null => exact ⟨_, _, rfl, rfl, by decide⟩
  | bool value => cases value <;> exact ⟨_, _, rfl, rfl, by decide⟩
  | integer value => exact hinteger value
  | decimal mantissa exponent =>
    obtain ⟨c, s, hc, h⟩ := hinteger mantissa
    exact ⟨c, s ++ 'e' :: writeInteger exponent, by rw [spell, write, hc]; rfl, h⟩
  | string text => exact ⟨_, _, rfl, rfl, by decide⟩
  | array items => cases items <;> exact ⟨_, _, rfl, rfl, by decide⟩
  | object members => cases members <;> exact ⟨_, _, rfl, rfl, by decide⟩

theorem readItems_spell {level : Nat} {item : Json} {rest : List Json}
    (h : ∀ j ∈ item :: rest, layout.ReadsBack (level + 1) j) {fuel : Nat}
    (hf : (layout.spell (level + 1) item).length + (layout.spellItems level rest).length < fuel)
    (after : List Char) :
    readItems fuel (layout.spell (level + 1) item ++ (layout.spellItems level rest ++ after)) =
      some (item :: rest, after) := by
  have hends := layout.endsNumber_spellItems level rest after
  -- Each item takes one unit of fuel, and a comma or the closing bracket comes with it.
  obtain ⟨fuel, rfl⟩ : ∃ n, fuel = n + 1 := ⟨fuel - 1, by omega⟩
  induction rest generalizing item fuel with
  | nil =>
    have hlength : (layout.spell (level + 1) item).length < fuel := by
      simp [spellItems] at hf; omega
    have hitem := h item List.mem_cons_self fuel _ hlength hends
    rw [spellItems, List.append_assoc] at hitem ⊢
    exact readItems_last (layout.gap_blank level) hitem
  | cons next rest ih =>
    simp only [spellItems, List.length_cons, List.length_append] at hf
    obtain ⟨fuel, rfl⟩ : ∃ n, fuel = n + 1 := ⟨fuel - 1, by omega⟩
    have hitem := h item List.mem_cons_self (fuel + 1) _ (by omega) hends
    rw [spellItems, List.cons_append] at hitem ⊢
    have hrest := ih (fun j hj => h j (List.mem_cons_of_mem _ hj))
      (layout.endsNumber_spellItems level rest after) fuel (by omega)
    rw [readItems_more hitem, List.append_assoc, List.append_assoc,
      readItems_skipBlanks _ (layout.gap_blank _), hrest]
    rfl

theorem readMembers_spell {level : Nat} {name : Option String} {value : Json}
    {rest : List (Option String × Json)}
    (h : ∀ name' value', (name', value') ∈ (name, value) :: rest →
      (∃ text, name' = some text) ∧ layout.ReadsBack (level + 1) value') {fuel : Nat}
    (hf : (layout.spell (level + 1) value).length + (layout.spellMembers level rest).length < fuel)
    (after : List Char) :
    readMembers fuel (writeString name ++ ':' :: (layout.colonGap ++
        (layout.spell (level + 1) value ++ (layout.spellMembers level rest ++ after)))) =
      some ((name, value) :: rest, after) := by
  have hends := layout.endsNumber_spellMembers level rest after
  obtain ⟨fuel, rfl⟩ : ∃ n, fuel = n + 1 := ⟨fuel - 1, by omega⟩
  induction rest generalizing name value fuel with
  | nil =>
    obtain ⟨⟨text, rfl⟩, hvalue⟩ := h name value List.mem_cons_self
    have hlength : (layout.spell (level + 1) value).length < fuel := by
      simp [spellMembers] at hf; omega
    have hvalue := hvalue fuel _ hlength hends
    rw [← readValue_skipBlanks fuel layout.colonGap_blank] at hvalue
    rw [spellMembers, List.append_assoc] at hvalue ⊢
    exact readMembers_last (layout.gap_blank level) text hvalue
  | cons next rest ih =>
    obtain ⟨⟨text, rfl⟩, hvalue⟩ := h name value List.mem_cons_self
    simp only [spellMembers, List.length_cons, List.length_append] at hf
    obtain ⟨fuel, rfl⟩ : ∃ n, fuel = n + 1 := ⟨fuel - 1, by omega⟩
    have hvalue := hvalue (fuel + 1) _ (by omega) hends
    rw [← readValue_skipBlanks _ layout.colonGap_blank] at hvalue
    rw [spellMembers, List.cons_append] at hvalue ⊢
    have hrest := ih (fun _ _ hj => h _ _ (List.mem_cons_of_mem _ hj))
      (layout.endsNumber_spellMembers level rest after) fuel (by omega)
    rw [readMembers_more text hvalue]
    simp only [List.append_assoc, List.cons_append]
    rw [readMembers_skipBlanks _ (layout.gap_blank _), hrest]
    rfl

/-- What a text can hold reads back, whatever the layout. -/
theorem readsBack (layout : Layout) {j : Json} (h : j.isLegible = true) (level : Nat) :
    layout.ReadsBack level j := by
  -- Over all levels at once: what is inside an array or an object stands one level deeper.
  induction j using induction generalizing level with
  | null =>
    refine .of_succ fun fuel rest hf hrest => ?_
    rfl
  | bool value =>
    refine .of_succ fun fuel rest hf hrest => ?_
    cases value <;> rfl
  | integer value =>
    refine .of_succ fun fuel rest hf hrest => ?_
    exact readValue_integer (of_decide_eq_true h) fuel hrest
  | decimal mantissa exponent =>
    refine .of_succ fun fuel rest hf hrest => ?_
    have hread := readValue_decimal (of_decide_eq_true h) exponent fuel hrest
    simpa [spell, write] using hread
  | string text =>
    refine .of_succ fun fuel rest hf hrest => ?_
    obtain ⟨text, rfl⟩ := Option.isSome_iff_exists.1 h
    have hread := readString_write text rest
    show (readString ((text.toList.flatMap writeChar ++ ['"']) ++ rest)).map _ = _
    rw [List.append_assoc, List.singleton_append, hread]
    rfl
  | array items ih =>
    refine .of_succ fun fuel rest hf hrest => ?_
    cases items with
    | nil => rfl
    | cons item items =>
      obtain ⟨c, s, hc, hblank, hclose⟩ := layout.head_spell (level + 1) item
      have hback : ∀ j ∈ item :: items, layout.ReadsBack (level + 1) j :=
        fun j hj => ih j hj (isLegible_of_mem h hj) (level + 1)
      simp only [spell, List.length_cons, List.length_append] at hf
      have hread : readItems fuel _ = _ := readItems_spell hback (by omega) rest
      simp only [spell, List.cons_append, List.append_assoc]
      rw [hc, List.cons_append] at hread ⊢
      rw [readValue_bracket fuel hblank hclose (layout.gap_blank _), hread]
      rfl
  | object members ih =>
    refine .of_succ fun fuel rest hf hrest => ?_
    cases members with
    | nil => rfl
    | cons member members =>
      have hback : ∀ name value, (name, value) ∈ member :: members →
          (∃ text, name = some text) ∧ layout.ReadsBack (level + 1) value := by
        intro name value hmem
        obtain ⟨hname, hvalue⟩ := isLegible_of_mem_members h hmem
        exact ⟨hname, ih name value hmem hvalue (level + 1)⟩
      simp only [spell, List.length_cons, List.length_append] at hf
      have hread : readMembers fuel _ = _ := readMembers_spell hback (by omega) rest
      simp only [spell, List.cons_append, List.append_assoc]
      rw [writeString, List.cons_append, readValue_brace fuel (layout.gap_blank _)]
      rw [writeString, List.cons_append] at hread
      rw [hread]
      rfl

end Layout

theorem readList_spell (layout : Layout) {j : Json} (h : j.isLegible = true) {blanks : List Char}
    (hblank : ∀ c ∈ blanks, isBlank c = true) :
    readList (layout.spell 0 j ++ blanks) = some j := by
  have hends : EndsNumber blanks := by
    cases blanks with
    | nil => rintro _ ⟨⟩
    | cons c s => exact Layout.endsNumber_of s (.inl (hblank c List.mem_cons_self))
  have hread := layout.readsBack h 0 ((layout.spell 0 j ++ blanks).length + 1) blanks
    (by rw [List.length_append]; omega) hends
  have hskip : skipBlanks blanks = [] := by
    rw [← List.append_nil blanks, skipBlanks_append hblank]
    rfl
  rw [readList, hread]
  simp only [Option.bind_eq_bind, Option.bind_some, hskip, List.isEmpty_nil, if_true]

/-- A value on one line reads back. -/
theorem read?_compact {j : Json} (h : j.isLegible = true) : read? j.compact = some j := by
  rw [read?, compact, String.toList_ofList, ← Layout.spell_oneLine 0]
  exact List.append_nil (Layout.oneLine.spell 0 j) ▸ readList_spell .oneLine h (by simp)

/-- A value over several lines reads back, and so it does with a new line behind it. -/
theorem read?_pretty {j : Json} (h : j.isLegible = true) :
    read? (j.pretty ++ "\n") = some j := by
  rw [read?, pretty, String.toList_append, String.toList_ofList, ← Layout.spell_lines 0]
  exact readList_spell .lines h (List.forall_mem_singleton.2 rfl)

end SealedDrive.Json
