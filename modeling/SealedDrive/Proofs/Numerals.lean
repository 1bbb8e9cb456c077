import SealedDrive.Proofs.Scanning
import SealedDrive.Toml.Reader

/-!
An integer that was written reads back up to the end of its line. Dates, decimal numbers and special
values are tried before it, and each of their readers stops where only digits are left.
-/

namespace SealedDrive.Toml

/-! ## Digits -/

variable {c : Char} {digits rest : List Char}

theorem isDigit_of_mem {n : Nat} {c : Char} (h : c ∈ Nat.toDigits 10 n) : isDigit c = true :=
  Json.isDigit_of_mem h

theorem ne_of_isDigit (hc : isDigit c = true) {d : Char} (hd : isDigit d = false) : c ≠ d :=
  ne_of_apply_ne isDigit (by rw [hc, hd]; decide)

theorem grouped_cons (hc : isDigit c = true) {s : List Char} (hs : s.head? ≠ some '_') :
    grouped isDigit (c :: s) = (c :: (grouped isDigit s).1, (grouped isDigit s).2) := by
  cases s with
  | nil =>
    unfold grouped
    rw [if_pos hc]
  | cons d s =>
    have hd : d ≠ '_' := fun h => hs (congrArg some h)
    conv_lhs => unfold grouped
    rw [if_pos hc, if_neg hd]

theorem grouped_digits (hdigits : ∀ c ∈ digits, isDigit c = true) (rest : List Char) :
    grouped isDigit (digits ++ '\n' :: rest) = (digits, '\n' :: rest) := by
  induction digits with
  | nil => cases rest <;> rfl
  | cons c digits ih =>
    have hnext : (digits ++ '\n' :: rest).head? ≠ some '_' := by
      cases digits with
      | nil => simp
      | cons d digits =>
        have hd := ne_of_isDigit (hdigits d (by simp)) (show isDigit '_' = false by decide)
        simpa using hd
    rw [List.cons_append, grouped_cons (hdigits c List.mem_cons_self) hnext,
      ih fun d hd => hdigits d (List.mem_cons_of_mem c hd)]

theorem value?_of_isDigit (hc : isDigit c = true) : Hex.value? c = some (c.toNat - 48) := by
  unfold Hex.value?
  rw [if_pos (by simpa [isDigit] using hc)]

theorem valueOf_toDigits (n : Nat) : valueOf 10 (Nat.toDigits 10 n) = n := by
  have hvalue := Nat.ofDigitChars_toDigits (b := 10) (n := n) (by decide) (by decide)
  rw [Nat.ofDigitChars_eq_foldl] at hvalue
  refine Eq.trans ?_ hvalue
  refine List.foldl_ext _ _ 0 fun n c hc => ?_
  rw [value?_of_isDigit (isDigit_of_mem hc)]
  rfl

theorem readWhole_toDigits (n : Nat) (rest : List Char) :
    readWhole (Nat.toDigits 10 n ++ '\n' :: rest) = some (Nat.toDigits 10 n, '\n' :: rest) := by
  by_cases hn : n = 0
  · subst hn
    rfl
  · obtain ⟨c, digits, hc, -⟩ := Json.head_toDigits n
    have hzero : c ≠ '0' := fun he => Json.head?_toDigits_ne hn (by rw [hc, he]; rfl)
    have hgroup := grouped_digits (fun _ => isDigit_of_mem (n := n)) rest
    rw [hc] at hgroup ⊢
    rw [List.cons_append] at hgroup ⊢
    rw [readWhole.eq_2 _ fun _ h => hzero (List.cons.inj h).1, grouped?, hgroup]

theorem readField_digits {width low high n : Nat} {s : List Char}
    (hdigits : ∀ c ∈ digits, isDigit c = true)
    (h : readField width low high (digits ++ '\n' :: rest) = some (n, s)) :
    ∃ others, (∀ c ∈ others, isDigit c = true) ∧ s = others ++ '\n' :: rest := by
  unfold readField at h
  dsimp only at h
  split at h
  · next hfield =>
    cases h
    simp only [Bool.and_eq_true, decide_eq_true_eq] at hfield
    obtain ⟨⟨⟨hlength, hall⟩, -⟩, -⟩ := hfield
    have hwidth : width ≤ digits.length := by
      by_contra hlt
      have hbreak : '\n' ∈ (digits ++ '\n' :: rest).take width := by
        rw [List.take_append, List.mem_append]
        right
        rw [show width - digits.length = width - digits.length - 1 + 1 by omega,
          List.take_succ_cons]
        exact List.mem_cons_self
      have hd := List.all_eq_true.1 hall _ hbreak
      exact absurd hd (by decide)
    exact ⟨digits.drop width, fun c hc => hdigits c (List.mem_of_mem_drop hc),
      List.drop_append_of_le_length hwidth⟩
  · cases h

theorem expect_digits (hdigits : ∀ c ∈ digits, isDigit c = true) (mark : Char)
    (hmark : isDigit mark = false) (hbreak : mark ≠ '\n') :
    expect mark (digits ++ '\n' :: rest) = none := by
  cases digits with
  | nil => exact if_neg hbreak.symm
  | cons c digits => exact if_neg (ne_of_isDigit (hdigits c List.mem_cons_self) hmark)

/-- Digits alone are no date and no time. -/
theorem readDateTime_digits (hdigits : ∀ c ∈ digits, isDigit c = true) (rest : List Char) :
    readDateTime (digits ++ '\n' :: rest) = none := by
  have hdate : readDate (digits ++ '\n' :: rest) = none := by
    unfold readDate
    cases hfield : readField 4 0 9999 (digits ++ '\n' :: rest) with
    | none => rfl
    | some found =>
      obtain ⟨others, hothers, hs⟩ := readField_digits hdigits hfield
      simp only [Option.bind_eq_bind, Option.bind_some, hs,
        expect_digits hothers '-' (by decide) (by decide), Option.bind_none]
  have htime : readTime (digits ++ '\n' :: rest) = none := by
    unfold readTime readMinutes
    cases hfield : readField 2 0 23 (digits ++ '\n' :: rest) with
    | none => rfl
    | some found =>
      obtain ⟨others, hothers, hs⟩ := readField_digits hdigits hfield
      simp only [Option.bind_eq_bind, Option.bind_some, hs,
        expect_digits hothers ':' (by decide) (by decide), Option.bind_none]
  simp only [readDateTime, hdate, htime, Option.bind_eq_bind, Option.bind_none]

/-! ## Integers -/

variable {n : Nat} {value : Int}

theorem readSign_digits (hc : isDigit c = true) (s : List Char) :
    readSign (c :: s) = (false, c :: s) :=
  readSign.eq_3 _ (fun _ h => ne_of_isDigit hc (by decide) (List.cons.inj h).1)
    fun _ h => ne_of_isDigit hc (by decide) (List.cons.inj h).1

theorem writeInteger_cases (value : Int) :
    (value < 0 ∧ (toString value).toList = '-' :: Nat.toDigits 10 value.natAbs) ∨
      (¬value < 0 ∧ (toString value).toList = Nat.toDigits 10 value.natAbs) := by
  have hwrite : (toString value).toList = _ := Json.writeInteger_eq value
  rw [hwrite]
  by_cases h : value < 0
  · exact .inl ⟨h, if_pos h⟩
  · exact .inr ⟨h, if_neg h⟩

theorem writeInteger_eq_cons (value : Int) :
    ∃ c s, (toString value).toList = c :: s ∧ (c = '-' ∨ isDigit c = true) := by
  rcases writeInteger_cases value with ⟨-, h⟩ | ⟨-, h⟩
  · exact ⟨'-', _, h, .inl rfl⟩
  · obtain ⟨c, digits, hc, hdigit⟩ := Json.head_toDigits value.natAbs
    exact ⟨c, digits, h.trans hc, .inr hdigit⟩

theorem readSign_write (value : Int) (rest : List Char) :
    readSign ((toString value).toList ++ rest) =
      (decide (value < 0), Nat.toDigits 10 value.natAbs ++ rest) := by
  rcases writeInteger_cases value with ⟨h, hwrite⟩ | ⟨h, hwrite⟩
  · rw [hwrite, decide_eq_true h]
    rfl
  · obtain ⟨c, digits, hc, hdigit⟩ := Json.head_toDigits value.natAbs
    rw [hwrite, hc, decide_eq_false h, List.cons_append, readSign_digits hdigit]

theorem readDateTime_integer (value : Int) (rest : List Char) :
    readDateTime ((toString value).toList ++ '\n' :: rest) = none := by
  rcases writeInteger_cases value with ⟨h, hwrite⟩ | ⟨h, hwrite⟩
  · have hfield (width low high : Nat) (s : List Char) :
        readField (width + 1) low high ('-' :: s) = none := by
      simp [readField, show isDigit '-' = false by decide]
    rw [hwrite, List.cons_append]
    simp only [readDateTime, readDate, readTime, readMinutes, hfield, Option.bind_eq_bind,
      Option.bind_none]
  · rw [hwrite]
    exact readDateTime_digits (fun _ => isDigit_of_mem) rest

theorem readDecimal_integer (value : Int) (rest : List Char) :
    readDecimal ((toString value).toList ++ '\n' :: rest) = none := by
  simp only [readDecimal, readSign_write, readWhole_toDigits, Option.bind_eq_bind,
    Option.bind_some]
  exact if_pos rfl

theorem readSpecial_integer (value : Int) (rest : List Char) :
    readSpecial ((toString value).toList ++ rest) = none := by
  obtain ⟨c, digits, hc, hdigit⟩ := Json.head_toDigits value.natAbs
  unfold readSpecial
  rw [readSign_write, hc]
  split
  · next h => exact absurd (List.cons.inj h).1 (ne_of_isDigit hdigit (by decide))
  · next h => exact absurd (List.cons.inj h).1 (ne_of_isDigit hdigit (by decide))
  · rfl

/-- No letter tells the base of a number that is written. -/
theorem based_ne (value : Int) (rest : List Char) {letter : Char} (hletter : isDigit letter = false)
    (hbreak : letter ≠ '\n') (more : List Char) :
    (toString value).toList ++ '\n' :: rest ≠ '0' :: letter :: more := by
  intro h
  rcases writeInteger_cases value with ⟨-, hwrite⟩ | ⟨-, hwrite⟩
  · rw [hwrite] at h
    exact absurd (List.cons.inj h).1 (by decide)
  · rw [hwrite] at h
    obtain ⟨c, digits, hc, -⟩ := Json.head_toDigits value.natAbs
    rw [hc, List.cons_append] at h
    have h := (List.cons.inj h).2
    cases digits with
    | nil => exact hbreak (List.cons.inj h).1.symm
    | cons d digits =>
      have hd : isDigit d = true := isDigit_of_mem (n := value.natAbs) (by simp [hc])
      exact ne_of_isDigit hd hletter (List.cons.inj h).1

theorem readInteger_write {value : Int} (h : isInRange value = true) (rest : List Char) :
    readInteger ((toString value).toList ++ '\n' :: rest) =
      some (.integer value, '\n' :: rest) := by
  have hvalue : (if value < 0 then -(value.natAbs : Int) else value.natAbs) = value := by
    split <;> omega
  rw [readInteger.eq_4 _ (based_ne value rest (by decide) (by decide))
    (based_ne value rest (by decide) (by decide)) (based_ne value rest (by decide) (by decide))]
  simp only [readSign_write, readWhole_toDigits, valueOf_toDigits, decide_eq_true_eq, hvalue,
    inRange?, Option.bind_eq_bind, Option.bind_some]
  exact if_pos h

/-- An integer reads back up to the end of its line. -/
theorem readNumber_write {value : Int} (h : isInRange value = true) (rest : List Char) :
    readNumber ((toString value).toList ++ '\n' :: rest) =
      some (.integer value, '\n' :: rest) := by
  simp only [readNumber, readDateTime_integer, readDecimal_integer, readSpecial_integer,
    readInteger_write h]
  rfl

end SealedDrive.Toml
