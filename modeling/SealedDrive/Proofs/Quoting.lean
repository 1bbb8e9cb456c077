import Mathlib.Data.List.Basic
import SealedDrive.Toml.Text

/-!
A string that was written reads back. Between quotes, what may not stand there is escaped; between
apostrophes stands only what needs no escape. Between triple marks a text may have such marks of its
own. As three in a row would close it, at most two of them stand before the closing ones, and those
are read as its own.
-/

namespace SealedDrive.Toml

/-! ## Escapes -/

theorem scalar?_digits {c : Char} (h : isPlain c = false) :
    scalar? ['0', '0', upperDigit (c.toNat / 16), upperDigit (c.toNat % 16)] = some c := by
  have all : ∀ n : Fin 128, scalar? ['0', '0', upperDigit (n.val / 16), upperDigit (n.val % 16)] =
      some (Char.ofNat n.val) := by decide
  have hn : c.toNat < 128 := by
    simp only [isPlain, Bool.or_eq_false_iff, Bool.and_eq_false_iff, decide_eq_false_iff_not,
      ne_eq, not_not] at h
    rcases h.2 with hlow | rfl
    · have : ¬ 32 ≤ c.toNat := hlow
      omega
    · decide
  have hc := all ⟨c.toNat, hn⟩
  rwa [Char.ofNat_toNat] at hc

/-- What stands for a character between quotes: itself, a backslash with a letter, or a backslash
with the digits of its number. -/
theorem escape_cases (c : Char) :
    (escape c = [c] ∧ isPlain c = true ∧ c ≠ '"' ∧ c ≠ '\\') ∨
      (∃ letter, escape c = ['\\', letter] ∧ letter ≠ 'u' ∧ letter ≠ 'U' ∧
        escaped? letter = some c) ∨
      ∃ high low, escape c = ['\\', 'u', '0', '0', high, low] ∧
        scalar? ['0', '0', high, low] = some c := by
  unfold escape
  split
  case h_8 hquote hback =>
    by_cases h : isPlain c = true
    · exact .inl ⟨if_pos h, h, hquote, hback⟩
    · exact .inr (.inr ⟨_, _, if_neg h, scalar?_digits (by simpa using h)⟩)
  all_goals exact .inr (.inl ⟨_, rfl, by decide, by decide, rfl⟩)

theorem ne_of_isPlain {c : Char} (h : isPlain c = true) : c ≠ '\n' ∧ c ≠ '\r' := by
  constructor <;> (rintro rfl; revert h; decide)

/-- Neither a quote nor a line break stands where a character begins. -/
theorem escape_eq_cons (c : Char) :
    ∃ d s, escape c = d :: s ∧ d ≠ '"' ∧ d ≠ '\n' ∧ d ≠ '\r' := by
  rcases escape_cases c with ⟨h, hplain, hquote, -⟩ | ⟨letter, h, -⟩ | ⟨high, low, h, -⟩
  · exact ⟨c, [], h, hquote, ne_of_isPlain hplain⟩
  · exact ⟨'\\', _, h, by decide⟩
  · exact ⟨'\\', _, h, by decide⟩

/-! ## Between quotes -/

theorem readBasic_escape (c : Char) (s : List Char) :
    readBasic (escape c ++ s) = (readBasic s).map fun (cs, rest) => (c :: cs, rest) := by
  rcases escape_cases c with ⟨h, hplain, hquote, hback⟩ | ⟨letter, h, hu, hU, hletter⟩ |
    ⟨high, low, h, hscalar⟩
  · rw [h, List.singleton_append, readBasic.eq_6 c s hquote (fun _ _ _ _ _ hc => absurd hc hback)
      (fun _ _ _ _ _ _ _ _ _ hc => absurd hc hback) (fun _ _ hc => absurd hc hback), if_pos hplain]
    cases readBasic s <;> rfl
  · rw [h, List.cons_append, List.singleton_append,
      readBasic.eq_5 letter s (fun _ _ _ _ _ hc => absurd hc hu)
        (fun _ _ _ _ _ _ _ _ _ hc => absurd hc hU), hletter]
    cases readBasic s <;> rfl
  · rw [h]
    simp only [List.cons_append, List.nil_append, readBasic.eq_3, hscalar]
    cases readBasic s <;> rfl

/-- A text reads back from behind its opening quote. -/
theorem readBasic_write (cs rest : List Char) :
    readBasic (cs.flatMap escape ++ '"' :: rest) = some (cs, rest) := by
  induction cs with
  | nil => rfl
  | cons c cs ih =>
    rw [List.flatMap_cons, List.append_assoc, readBasic_escape, ih]
    rfl

/-! ## Three marks in a row -/

/-- Up to two marks before the closing three belong to the text. -/
theorem closing_replicate {mark : Char} {marks : Nat} (h : marks ≤ 2) {rest : List Char}
    (hrest : rest.head? ≠ some mark) :
    closing mark (List.replicate marks mark ++ rest) = (List.replicate marks mark, rest) := by
  have hmarks : marks = 0 ∨ marks = 1 ∨ marks = 2 := by omega
  rcases hmarks with rfl | rfl | rfl
  · cases rest with
    | nil => rfl
    | cons a rest =>
      have ha : a ≠ mark := fun he => hrest (congrArg some he)
      cases rest <;> simp [closing, ha]
  · cases rest with
    | nil => simp [closing]
    | cons a rest =>
      have ha : a ≠ mark := fun he => hrest (congrArg some he)
      simp [closing, ha]
  · simp [closing]

/-! ## Between triple quotes -/

/-- A character that stands for itself between triple quotes, when they do not end here. -/
theorem readLongBasic_letter {c : Char} {s : List Char} (hplain : c = '\n' ∨ isPlain c = true)
    (hback : c ≠ '\\') (hopen : ∀ more, c :: s ≠ '"' :: '"' :: '"' :: more) :
    readLongBasic false (c :: s) =
      (readLongBasic false s).map fun (cs, rest) => (c :: cs, rest) := by
  have hbreak : c ≠ '\r' := by
    rcases hplain with rfl | h
    · decide
    · exact (ne_of_isPlain h).2
  have hquote : ∀ more, c = '"' → s ≠ '"' :: '"' :: more :=
    fun more hc hs => hopen more (by rw [hc, hs])
  rw [readLongBasic.eq_11 false c s hquote (fun _ _ _ _ _ h => absurd h hback)
    (fun _ _ _ _ _ _ _ _ _ h => absurd h hback) (fun _ _ h => absurd h hback)
    (fun _ h => absurd h hbreak) nofun nofun nofun nofun,
    if_pos (by simpa using hplain)]
  cases readLongBasic false s <;> rfl

theorem readLongBasic_escape (c : Char) (s : List Char) :
    readLongBasic false (escape c ++ s) =
      (readLongBasic false s).map fun (cs, rest) => (c :: cs, rest) := by
  rcases escape_cases c with ⟨h, hplain, hquote, hback⟩ | ⟨letter, h, hu, hU, hletter⟩ |
    ⟨high, low, h, hscalar⟩
  · rw [h, List.singleton_append]
    exact readLongBasic_letter (.inr hplain) hback fun _ he => hquote (List.cons.inj he).1
  · rw [h, List.cons_append, List.singleton_append,
      readLongBasic.eq_9 false letter s (fun _ _ _ _ _ hc => absurd hc hu)
        (fun _ _ _ _ _ _ _ _ _ hc => absurd hc hU), hletter]
    cases readLongBasic false s <;> rfl
  · rw [h]
    simp only [List.cons_append, List.nil_append, readLongBasic.eq_7, hscalar]
    cases readLongBasic false s <;> rfl

/-- A quote is written as such only while it is one of the first two in a row. -/
theorem escapeLong_eq_cons {quotes : Nat} {c : Char} (h : ¬(c = '"' ∧ quotes < 2))
    (cs : List Char) : ∃ d s, escapeLong quotes (c :: cs) = d :: s ∧ d ≠ '"' := by
  rw [escapeLong, if_neg h]
  split
  · exact ⟨'\n', _, rfl, by decide⟩
  · obtain ⟨d, s, hd, hquote, -⟩ := escape_eq_cons c
    exact ⟨d, s ++ escapeLong 0 cs, by rw [hd, List.cons_append], hquote⟩

/-- Where two more quotes follow a quote, the text goes on with quotes only, at most one. -/
theorem eq_replicate_of_escapeLong {quotes : Nat} (hquotes : 1 ≤ quotes) {cs rest more : List Char}
    (h : escapeLong quotes cs ++ '"' :: '"' :: '"' :: rest = '"' :: '"' :: more) :
    ∃ marks, marks < 2 ∧ cs = List.replicate marks '"' ∧
      more = List.replicate (marks + 1) '"' ++ rest := by
  have hstop {quotes : Nat} {c : Char} {cs more : List Char} (hc : ¬(c = '"' ∧ quotes < 2))
      (h : escapeLong quotes (c :: cs) ++ '"' :: '"' :: '"' :: rest = '"' :: more) : False := by
    obtain ⟨d, s, hd, hquote⟩ := escapeLong_eq_cons hc cs
    rw [hd] at h
    exact hquote (List.cons.inj h).1
  cases cs with
  | nil =>
    obtain rfl : '"' :: rest = more := by simpa [escapeLong] using h
    exact ⟨0, by decide, rfl, rfl⟩
  | cons c cs =>
    by_cases hc : c = '"' ∧ quotes < 2
    · obtain ⟨rfl, hlt⟩ := hc
      rw [escapeLong, if_neg (by decide), if_pos ⟨rfl, hlt⟩, List.cons_append] at h
      have h := (List.cons.inj h).2
      cases cs with
      | nil =>
        obtain rfl : '"' :: '"' :: rest = more := by simpa [escapeLong] using h
        exact ⟨1, by decide, rfl, rfl⟩
      | cons d cs => exact (hstop (fun hd => by omega) h).elim
    · exact (hstop hc h).elim

/-- A text reads back from behind its opening quotes, and from behind quotes of its own. -/
theorem readLongBasic_write (quotes : Nat) (cs : List Char) {rest : List Char}
    (hrest : rest.head? ≠ some '"') :
    readLongBasic false (escapeLong quotes cs ++ '"' :: '"' :: '"' :: rest) = some (cs, rest) := by
  induction cs generalizing quotes with
  | nil => exact congrArg some (closing_replicate (Nat.zero_le 2) hrest)
  | cons c cs ih =>
    by_cases hc : c = '"' ∧ quotes < 2
    · obtain ⟨rfl, hquotes⟩ := hc
      rw [escapeLong, if_neg (by decide), if_pos ⟨rfl, hquotes⟩, List.cons_append]
      by_cases hclose : ∃ more, escapeLong (quotes + 1) cs ++ '"' :: '"' :: '"' :: rest =
          '"' :: '"' :: more
      · obtain ⟨more, hmore⟩ := hclose
        obtain ⟨marks, hmarks, rfl, rfl⟩ := eq_replicate_of_escapeLong (by omega) hmore
        rw [hmore, readLongBasic.eq_6, closing_replicate (by omega) hrest]
        rfl
      · rw [readLongBasic_letter (.inr (by decide)) (by decide)
          (fun more he => hclose ⟨more, (List.cons.inj he).2⟩), ih]
        rfl
    · rw [escapeLong, if_neg hc]
      split
      · next hbreak =>
        subst hbreak
        rw [List.cons_append, readLongBasic_letter (.inl rfl) (by decide) (by simp), ih]
        rfl
      · rw [List.append_assoc, readLongBasic_escape, ih]
        rfl

/-! ## Between apostrophes -/

/-- A text reads back from behind its opening apostrophe. -/
theorem readLiteral_append {cs : List Char}
    (h : ∀ c ∈ cs, isPlain c = true ∧ c ≠ '\x27') (rest : List Char) :
    readLiteral (cs ++ '\x27' :: rest) = some (cs, rest) := by
  induction cs with
  | nil => rfl
  | cons c cs ih =>
    obtain ⟨hplain, hmark⟩ := h c List.mem_cons_self
    rw [List.cons_append, readLiteral.eq_3 c _ hmark, if_pos hplain,
      ih fun d hd => h d (List.mem_cons_of_mem c hd)]
    rfl

theorem le_longestRun (mark : Char) (run : Nat) (cs : List Char) :
    run ≤ longestRun mark run cs := by
  induction cs generalizing run with
  | nil => exact Nat.le_refl run
  | cons c cs ih =>
    unfold longestRun
    split
    · exact Nat.le_of_succ_le (ih (run + 1))
    · exact Nat.le_max_left _ _

theorem notMem_of_longestRun {mark : Char} {run : Nat} {cs : List Char}
    (h : longestRun mark run cs = 0) : mark ∉ cs := by
  induction cs generalizing run with
  | nil => exact List.not_mem_nil
  | cons c cs ih =>
    unfold longestRun at h
    split at h
    · have := le_longestRun mark (run + 1) cs
      omega
    · next hc =>
      obtain ⟨-, h⟩ := Nat.max_eq_zero_iff.1 h
      exact List.not_mem_cons_of_ne_of_not_mem (Ne.symm hc) (ih h)

/-- Where two more apostrophes follow an apostrophe, the text goes on with apostrophes only, at most
one. -/
theorem eq_replicate_of_append {mark : Char} {run : Nat} {cs rest more : List Char}
    (hrun : longestRun mark (run + 1) cs ≤ 2)
    (h : cs ++ mark :: mark :: mark :: rest = mark :: mark :: more) :
    ∃ marks, marks < 2 ∧ cs = List.replicate marks mark ∧
      more = List.replicate (marks + 1) mark ++ rest := by
  match cs, h with
  | [], h => exact ⟨0, by decide, rfl, by simpa using h.symm⟩
  | [c], h =>
    obtain ⟨rfl, h⟩ := List.cons.inj h
    exact ⟨1, by decide, rfl, by simpa using h.symm⟩
  | c :: d :: cs, h =>
    obtain ⟨rfl, h⟩ := List.cons.inj h
    obtain ⟨rfl, -⟩ := List.cons.inj h
    have hthree := le_longestRun d (run + 1 + 1 + 1) cs
    simp only [longestRun, if_true] at hrun
    omega

/-- A text with at most two apostrophes in a row reads back from behind its opening ones. -/
theorem readLongLiteral_append {run : Nat} {cs : List Char}
    (hplain : ∀ c ∈ cs, c = '\n' ∨ isPlain c = true) (hrun : longestRun '\x27' run cs ≤ 2)
    {rest : List Char} (hrest : rest.head? ≠ some '\x27') :
    readLongLiteral (cs ++ '\x27' :: '\x27' :: '\x27' :: rest) = some (cs, rest) := by
  induction cs generalizing run with
  | nil => exact congrArg some (closing_replicate (Nat.zero_le 2) hrest)
  | cons c cs ih =>
    have hletter := hplain c List.mem_cons_self
    have hbreak : c ≠ '\r' := by
      rcases hletter with rfl | h
      · decide
      · exact (ne_of_isPlain h).2
    obtain ⟨others, hothers⟩ : ∃ run, longestRun '\x27' run cs ≤ 2 := by
      unfold longestRun at hrun
      split at hrun
      · exact ⟨_, hrun⟩
      · exact ⟨0, Nat.le_trans (Nat.le_max_right _ _) hrun⟩
    have ih := ih (fun d hd => hplain d (List.mem_cons_of_mem c hd)) hothers
    rw [List.cons_append]
    by_cases hclose : ∃ more, c :: (cs ++ '\x27' :: '\x27' :: '\x27' :: rest) =
        '\x27' :: '\x27' :: '\x27' :: more
    · obtain ⟨more, hmore⟩ := hclose
      obtain ⟨rfl, hmarks⟩ := List.cons.inj hmore
      rw [longestRun, if_pos rfl] at hrun
      obtain ⟨marks, hlt, rfl, rfl⟩ := eq_replicate_of_append hrun hmarks
      rw [hmore, readLongLiteral.eq_2, closing_replicate (by omega) hrest]
      rfl
    · rw [readLongLiteral.eq_4 c _ (fun more hc hs => hclose ⟨more, by rw [hc, hs]⟩)
        (fun _ h => absurd h hbreak), if_pos (by simpa using hletter), ih]
      rfl

/-! ## The four forms -/

theorem plain_of_any_needsEscape {cs : List Char} (h : (!cs.any needsEscape) = true) :
    ∀ c ∈ cs, c = '\n' ∨ isPlain c = true := by
  intro c hc
  rw [Bool.not_eq_true', List.any_eq_false] at h
  have hescape : ¬(!isPlain c && c ≠ '\n') = true := h c hc
  by_cases hbreak : c = '\n'
  · exact .inl hbreak
  · exact .inr (by simpa [hbreak] using hescape)

/-- A text between apostrophes is of one line and has none of its own. -/
theorem formOf_literal {cs : List Char} (h : formOf cs = .literal) :
    ∀ c ∈ cs, isPlain c = true ∧ c ≠ '\x27' := by
  unfold formOf at h
  dsimp only at h
  split at h
  · cases h
  · split at h
    · next hform =>
      simp only [Bool.and_eq_true, decide_eq_true_eq] at hform
      obtain ⟨⟨hplain, hrun⟩, hbreak⟩ := hform
      intro c hc
      have hmark : c ≠ '\x27' := fun he => notMem_of_longestRun hrun (he ▸ hc)
      have hline : c ≠ '\n' := fun he => by simp [he ▸ hc] at hbreak
      exact ⟨(plain_of_any_needsEscape hplain c hc).resolve_left hline, hmark⟩
    · repeat' split at h
      all_goals cases h

/-- A text between triple apostrophes has at most two of its own in a row. -/
theorem formOf_longLiteral {cs : List Char} (h : formOf cs = .longLiteral) :
    (∀ c ∈ cs, c = '\n' ∨ isPlain c = true) ∧ longestRun '\x27' 0 cs ≤ 2 := by
  unfold formOf at h
  dsimp only at h
  split at h
  · cases h
  split at h
  · cases h
  split at h
  · cases h
  split at h
  · next hform =>
    simp only [Bool.and_eq_true, decide_eq_true_eq] at hform
    exact ⟨plain_of_any_needsEscape hform.1, hform.2⟩
  · split at h <;> cases h

/-- The line break that a text of several lines begins behind is not read as its own. -/
theorem dropLineBreak_ownLine {cs written : List Char}
    (h : '\n' ∉ cs → ∀ c ∈ written.head?, c ≠ '\n' ∧ c ≠ '\r') :
    dropLineBreak (ownLine cs ++ written) = written := by
  unfold ownLine
  split
  · rfl
  · next hline =>
    have hhead := h (by simpa using hline)
    rw [List.nil_append]
    unfold dropLineBreak
    split
    · exact absurd rfl (hhead '\n' rfl).1
    · exact absurd rfl (hhead '\r' rfl).2
    · rfl

theorem head?_escapeLong {cs : List Char} (hline : '\n' ∉ cs) (rest : List Char) :
    ∀ c ∈ (escapeLong 0 cs ++ '"' :: rest).head?, c ≠ '\n' ∧ c ≠ '\r' := by
  intro d hd
  cases cs with
  | nil =>
    obtain rfl : '"' = d := by simpa [escapeLong] using hd
    decide
  | cons c cs =>
    have hc : c ≠ '\n' := fun he => hline (he ▸ List.mem_cons_self)
    rw [escapeLong, if_neg hc] at hd
    split at hd
    · obtain rfl : '"' = d := by simpa using hd
      decide
    · obtain ⟨e, s, he, -, hbreaks⟩ := escape_eq_cons c
      obtain rfl : e = d := by simpa [he] using hd
      exact hbreaks

/-- Whatever its form, a text reads back up to what follows it. -/
theorem readText_write (cs : List Char) {rest : List Char} (hquote : rest.head? ≠ some '"')
    (hapostrophe : rest.head? ≠ some '\x27') :
    readText (writeText cs ++ rest) = some (cs, rest) := by
  unfold writeText
  split
  case h_1 =>
    have hshort (more : List Char) : cs.flatMap escape ++ '"' :: rest ≠ '"' :: '"' :: more := by
      intro h
      cases cs with
      | nil => exact hquote (by rw [(List.cons.inj h).2]; rfl)
      | cons c cs =>
        obtain ⟨d, s, hd, hne, -⟩ := escape_eq_cons c
        rw [List.flatMap_cons, hd] at h
        exact hne (List.cons.inj h).1
    rw [List.cons_append, List.append_assoc, List.singleton_append,
      readText.eq_3 _ (fun more h => hshort more (List.cons.inj h).2) (by simp)]
    exact readBasic_write cs rest
  case h_2 hform =>
    have hplain := formOf_literal hform
    have hshort (more : List Char) : cs ++ '\x27' :: rest ≠ '\x27' :: '\x27' :: more := by
      intro h
      cases cs with
      | nil => exact hapostrophe (by rw [(List.cons.inj h).2]; rfl)
      | cons c cs => exact (hplain c List.mem_cons_self).2 (List.cons.inj h).1
    rw [List.cons_append, List.append_assoc, List.singleton_append,
      readText.eq_3 _ (by simp) (fun more h => hshort more (List.cons.inj h).2)]
    exact readLiteral_append hplain rest
  case h_3 =>
    have hline : dropLineBreak (ownLine cs ++ (escapeLong 0 cs ++ '"' :: '"' :: '"' :: rest)) = _ :=
      dropLineBreak_ownLine fun h => head?_escapeLong h ('"' :: '"' :: rest)
    simp only [List.append_assoc, List.cons_append, List.nil_append, readText.eq_1, hline]
    exact readLongBasic_write 0 cs hquote
  case h_4 hform =>
    obtain ⟨hplain, hrun⟩ := formOf_longLiteral hform
    have hline : dropLineBreak (ownLine cs ++ (cs ++ '\x27' :: '\x27' :: '\x27' :: rest)) = _ :=
      dropLineBreak_ownLine fun hline c hc => by
        cases cs with
        | nil =>
          obtain rfl : '\x27' = c := by simpa using hc
          decide
        | cons d cs =>
          obtain rfl : d = c := by simpa using hc
          have hd := hplain d List.mem_cons_self
          exact ne_of_isPlain (hd.resolve_left fun he => hline (he ▸ List.mem_cons_self))
    simp only [List.append_assoc, List.cons_append, List.nil_append, readText.eq_2, hline]
    exact readLongLiteral_append hplain hrun hapostrophe

end SealedDrive.Toml
