import Mathlib.Algebra.Group.Nat.Defs
import Mathlib.Data.List.Basic
import SealedDrive.Json.Reader
import SealedDrive.Json.Writer

/-!
The tokens of JSON read back. A text is read from its escapes character by character, and since no
character is half of a surrogate pair the code points join to the same text. A number is read up to
what follows it, so what follows must not go on with a number; its digits give its value as long as
that has at most 64 bits.
-/

namespace SealedDrive.Json

/-! ## Strings -/

theorem unit?_control {c : Char} (h : c < ' ') :
    unit? '0' '0' (Hex.digit (c.toNat / 16)) (Hex.digit (c.toNat % 16)) = some c.toNat := by
  have hlt : c.toNat < 32 := h
  have hzero : Hex.value? '0' = some 0 := by decide
  have hhigh := Hex.value?_digit (show c.toNat / 16 < 16 by omega)
  have hlow := Hex.value?_digit (show c.toNat % 16 < 16 by omega)
  simp only [unit?, hzero, hhigh, hlow, Option.bind_eq_bind, Option.bind_some, Option.pure_def,
    Option.some.injEq]
  omega

theorem readUnits_letter {c : Char} (hquote : c ≠ '"') (hback : c ≠ '\\') (hc : ¬c < ' ')
    (s : List Char) :
    readUnits (c :: s) = (readUnits s).map fun (units, rest) => (c.toNat :: units, rest) := by
  rw [readUnits.eq_5 _ _ hquote (fun _ _ _ _ _ h => absurd h hback) (fun _ _ h => absurd h hback),
    if_neg hc]
  cases readUnits s <;> rfl

theorem readUnits_escape {letter c : Char} (hu : letter ≠ 'u') (hc : escaped? letter = some c)
    (s : List Char) :
    readUnits ('\\' :: letter :: s) = (readUnits s).map fun (units, rest) =>
      (c.toNat :: units, rest) := by
  rw [readUnits.eq_4 _ _ (fun _ _ _ _ _ h => absurd h hu), hc]
  cases readUnits s <;> rfl

theorem readUnits_writeChar (c : Char) (s : List Char) :
    readUnits (writeChar c ++ s) = (readUnits s).map fun (units, rest) =>
      (c.toNat :: units, rest) := by
  unfold writeChar
  split
  case h_8 hquote hback _ _ _ _ _ =>
    split
    · next hc =>
      simp only [List.cons_append, List.nil_append, readUnits, unit?_control hc,
        Option.bind_eq_bind, Option.bind_some]
      cases readUnits s <;> rfl
    · next hc => exact readUnits_letter hquote hback hc s
  all_goals exact readUnits_escape (by decide) rfl s

/-- A character is no half of a surrogate pair. -/
theorem joinUnits_toNat (s : List Char) : joinUnits (s.map Char.toNat) = some s := by
  have hwhole (c : Char) : isHighHalf c.toNat = false ∧ isLowHalf c.toNat = false := by
    have hvalid : c.toNat < 0xD800 ∨ 0xDFFF < c.toNat ∧ c.toNat < 0x110000 := c.valid
    simp only [isHighHalf, isLowHalf, Bool.and_eq_false_iff, decide_eq_false_iff_not]
    omega
  induction s with
  | nil => rfl
  | cons c s ih =>
    obtain ⟨hhigh, hlow⟩ := hwhole c
    cases s with
    | nil => simp [joinUnits, hhigh, hlow]
    | cons d s =>
      have ih : joinUnits (d.toNat :: s.map Char.toNat) = some (d :: s) := ih
      simp [joinUnits, hhigh, hlow, ih]

/-- A text reads back from behind its opening quote. -/
theorem readString_write (text : String) (rest : List Char) :
    readString (text.toList.flatMap writeChar ++ '"' :: rest) = some (some text, rest) := by
  have hunits (s : List Char) :
      readUnits (s.flatMap writeChar ++ '"' :: rest) = some (s.map Char.toNat, rest) := by
    induction s with
    | nil => rfl
    | cons c s ih =>
      rw [List.flatMap_cons, List.append_assoc, readUnits_writeChar, ih]
      rfl
  simp only [readString, hunits, joinUnits_toNat, Option.bind_eq_bind, Option.bind_some,
    Option.map_some, String.ofList_toList, Option.pure_def]

/-! ## Numbers -/

/-- Nothing that comes next goes on with a number. -/
def EndsNumber (rest : List Char) : Prop :=
  ∀ c ∈ rest.head?, isDigit c = false ∧ c ≠ '.' ∧ c ≠ 'e' ∧ c ≠ 'E'

theorem isDigit_of_mem {n : Nat} {c : Char} (h : c ∈ Nat.toDigits 10 n) : isDigit c = true := by
  have h := Nat.isDigit_of_mem_toDigits (by decide) (by decide) h
  simp only [Char.isDigit, Bool.and_eq_true, decide_eq_true_eq] at h
  have hrange : '0' ≤ c ∧ c ≤ '9' := h
  simpa only [isDigit, Bool.and_eq_true, decide_eq_true_eq] using hrange

theorem readDigits_append (n : Nat) {rest : List Char}
    (h : ∀ c ∈ rest.head?, isDigit c = false) :
    readDigits (Nat.toDigits 10 n ++ rest) = (Nat.toDigits 10 n, rest) := by
  have hnone : rest.takeWhile isDigit = [] ∧ rest.dropWhile isDigit = rest := by
    cases rest with
    | nil => exact ⟨rfl, rfl⟩
    | cons c rest => simp [h c rfl]
  unfold readDigits
  rw [List.takeWhile_append_of_pos fun _ => isDigit_of_mem,
    List.dropWhile_append_of_pos fun _ => isDigit_of_mem, hnone.1, hnone.2, List.append_nil]

theorem digitsValue_toDigits (n : Nat) : digitsValue (Nat.toDigits 10 n) = n := by
  have h := Nat.ofDigitChars_toDigits (b := 10) (n := n) (by decide) (by decide)
  rw [Nat.ofDigitChars_eq_foldl] at h
  simp only [Nat.mul_comm 10] at h
  exact h

theorem appendDigits_nil (n : Nat) : appendDigits n [] = (n, 0) := rfl

theorem appendDigits_eq {digits : List Char} {n : Nat}
    (h : digits.foldl (fun n c => n * 10 + (c.toNat - 48)) n < 2 ^ 64) :
    appendDigits n digits = (digits.foldl (fun n c => n * 10 + (c.toNat - 48)) n, 0) := by
  have hle (digits : List Char) (n : Nat) :
      n ≤ digits.foldl (fun n c => n * 10 + (c.toNat - 48)) n := by
    induction digits generalizing n with
    | nil => exact Nat.le_refl n
    | cons c digits ih =>
      have hstep : n ≤ n * 10 + (c.toNat - 48) := by omega
      exact Nat.le_trans hstep (ih _)
  induction digits generalizing n with
  | nil => rfl
  | cons c digits ih =>
    rw [List.foldl_cons] at h ⊢
    exact (if_pos (Nat.lt_of_le_of_lt (hle digits _) h)).trans (ih h)

theorem appendDigits_toDigits {n : Nat} (h : n < 2 ^ 64) :
    appendDigits 0 (Nat.toDigits 10 n) = (n, 0) := by
  have hvalue := digitsValue_toDigits n
  unfold digitsValue at hvalue
  rw [appendDigits_eq (by rw [hvalue]; exact h), hvalue]

theorem head?_toDigits_ne {n : Nat} (h : n ≠ 0) : (Nat.toDigits 10 n).head? ≠ some '0' := by
  induction n using Nat.strongRecOn with
  | ind n ih =>
    by_cases hn : n < 10
    · rw [Nat.toDigits_of_lt_base hn]
      have all : ∀ d : Fin 10, d.val ≠ 0 → [d.val.digitChar].head? ≠ some '0' := by decide
      exact all ⟨n, hn⟩ h
    · rw [Nat.toDigits_of_base_le (by decide) (by omega),
        List.head?_append_of_ne_nil _ Nat.toDigits_ne_nil]
      exact ih (n / 10) (by omega) (by omega)

/-- There are digits, and the first one is no zero that could be left out. -/
theorem wellFormed_toDigits (n : Nat) :
    ((Nat.toDigits 10 n).isEmpty ||
      ((Nat.toDigits 10 n).head? = some '0' && 1 < (Nat.toDigits 10 n).length)) = false := by
  by_cases hn : n = 0
  · subst hn; decide
  · simp [Nat.toDigits_ne_nil, head?_toDigits_ne hn]

theorem readFraction_none {rest : List Char} (h : ∀ c ∈ rest.head?, c ≠ '.') :
    readFraction rest = some (none, rest) := by
  unfold readFraction
  split
  · exact absurd rfl (h _ rfl)
  · rfl

theorem readMagnitude_integer {n : Nat} (hn : n < 2 ^ 64) (negative : Bool)
    (hsign : negative = true → n ≠ 0) {rest : List Char} (hrest : EndsNumber rest) :
    readMagnitude negative (Nat.toDigits 10 n ++ rest) =
      some (.integer (if negative then -n else n), rest) := by
  have hexponent : readExponent rest = some (none, rest) := by
    unfold readExponent
    split
    · simp [(hrest _ rfl).2.2]
    · rfl
  have hzero : (negative && n = 0) = false := by
    cases negative with
    | false => rfl
    | true => simpa using hsign rfl
  simp only [readMagnitude, readDigits_append n fun c hc => (hrest c hc).1, wellFormed_toDigits,
    readFraction_none fun c hc => (hrest c hc).2.1, hexponent, appendDigits_toDigits hn, hzero,
    Bool.false_eq_true, if_false, Option.bind_eq_bind, Option.bind_some, Option.isNone_none,
    decide_true, Bool.and_self, Bool.not_false, if_true, Option.pure_def]

theorem writeInteger_eq (value : Int) :
    writeInteger value =
      if value < 0 then '-' :: Nat.toDigits 10 value.natAbs
      else Nat.toDigits 10 value.natAbs := by
  unfold writeInteger
  rw [Int.toString_eq_repr, Int.repr_eq_if]
  by_cases h : 0 ≤ value
  · rw [if_pos h, if_neg (by omega), Nat.toList_repr, show value.toNat = value.natAbs by omega]
  · rw [if_neg h, if_pos (by omega), String.toList_append, Nat.toList_repr,
      show (-value).toNat = value.natAbs by omega]
    rfl

theorem head_toDigits (n : Nat) : ∃ c s, Nat.toDigits 10 n = c :: s ∧ isDigit c = true := by
  cases h : Nat.toDigits 10 n with
  | nil => exact absurd h Nat.toDigits_ne_nil
  | cons c s => exact ⟨c, s, rfl, isDigit_of_mem (n := n) (by simp [h])⟩

theorem readExponent_write (power : Int) {rest : List Char} (hrest : EndsNumber rest) :
    readExponent ('e' :: (writeInteger power ++ rest)) = some (some power, rest) := by
  have hdigits := readDigits_append power.natAbs fun c hc => (hrest c hc).1
  rw [writeInteger_eq]
  by_cases h : power < 0
  · obtain ⟨n, hn, hvalue⟩ : ∃ n, power.natAbs = n ∧ -(n : Int) = power := ⟨_, rfl, by omega⟩
    rw [hn] at hdigits ⊢
    simp [readExponent, h, hdigits, digitsValue_toDigits, hvalue]
  · obtain ⟨c, s, hc, hdigit⟩ := head_toDigits power.natAbs
    have hsign : c ≠ '-' ∧ c ≠ '+' := by
      constructor <;> (rintro rfl; exact absurd hdigit (by decide))
    have hvalue : (digitsValue (c :: s) : Int) = power := by
      rw [← hc, digitsValue_toDigits]
      omega
    rw [hc, List.cons_append] at hdigits
    simp [readExponent, h, hc, hsign.1, hsign.2, hdigits, hvalue]

theorem readMagnitude_decimal {n : Nat} (hn : n < 2 ^ 64) (negative : Bool) (power : Int)
    {rest : List Char} (hrest : EndsNumber rest) :
    readMagnitude negative (Nat.toDigits 10 n ++ 'e' :: (writeInteger power ++ rest)) =
      some (.decimal (if negative then -n else n) power, rest) := by
  have hdigits : readDigits (Nat.toDigits 10 n ++ 'e' :: (writeInteger power ++ rest)) = (_, _) :=
    readDigits_append n (by simp; decide)
  have hfraction : readFraction ('e' :: (writeInteger power ++ rest)) = some (none, _) :=
    readFraction_none (by simp)
  have hexponent := readExponent_write power hrest
  simp [readMagnitude, hdigits, wellFormed_toDigits, hfraction, hexponent,
    appendDigits_toDigits hn, appendDigits_nil]

theorem isBlank_of_digit {c : Char} (hc : isDigit c = true) : isBlank c = false := by
  cases h : isBlank c with
  | false => rfl
  | true =>
    simp only [isBlank, Bool.or_eq_true, decide_eq_true_eq] at h
    rcases h with ((rfl | rfl) | rfl) | rfl <;> cases hc

theorem readValue_digit {c : Char} (hc : isDigit c = true) (fuel : Nat) (s : List Char) :
    readValue (fuel + 1) (c :: s) = readMagnitude false (c :: s) := by
  have hne {d : Char} {t : List Char} (hd : isDigit d = false) (h : c :: s = d :: t) : False := by
    rw [(List.cons.inj h).1, hd] at hc
    cases hc
  unfold readValue
  rw [skipBlanks, List.dropWhile_cons_of_neg (by simp [isBlank_of_digit hc])]
  split
  case h_8 => rfl
  all_goals
    rename_i h
    exact (hne (by decide) h).elim

theorem readValue_minus (fuel : Nat) (s : List Char) :
    readValue (fuel + 1) ('-' :: s) = readMagnitude true s := rfl
theorem readValue_integer {value : Int} (h : value.natAbs < 2 ^ 64) (fuel : Nat) {rest : List Char}
    (hrest : EndsNumber rest) :
    readValue (fuel + 1) (writeInteger value ++ rest) = some (.integer value, rest) := by
  rw [writeInteger_eq]
  by_cases hneg : value < 0
  · rw [if_pos hneg, List.cons_append, readValue_minus,
      readMagnitude_integer h true (fun _ => by omega) hrest, if_pos rfl,
      show -(value.natAbs : Int) = value by omega]
  · rw [if_neg hneg]
    obtain ⟨c, s, hc, hdigit⟩ := head_toDigits value.natAbs
    have hread := readMagnitude_integer h false nofun hrest
    rw [hc, List.cons_append] at hread ⊢
    rw [readValue_digit hdigit, hread, if_neg (by decide),
      show (value.natAbs : Int) = value by omega]

theorem readValue_decimal {mantissa : Int} (h : mantissa.natAbs < 2 ^ 64) (exponent : Int)
    (fuel : Nat) {rest : List Char} (hrest : EndsNumber rest) :
    readValue (fuel + 1) (writeInteger mantissa ++ 'e' :: (writeInteger exponent ++ rest)) =
      some (.decimal mantissa exponent, rest) := by
  rw [writeInteger_eq mantissa]
  by_cases hneg : mantissa < 0
  · rw [if_pos hneg, List.cons_append, readValue_minus,
      readMagnitude_decimal h true exponent hrest, if_pos rfl,
      show -(mantissa.natAbs : Int) = mantissa by omega]
  · rw [if_neg hneg]
    obtain ⟨c, s, hc, hdigit⟩ := head_toDigits mantissa.natAbs
    have hread := readMagnitude_decimal h false exponent hrest
    rw [hc, List.cons_append] at hread ⊢
    rw [readValue_digit hdigit, hread, if_neg (by decide),
      show (mantissa.natAbs : Int) = mantissa by omega]

end SealedDrive.Json
