import Mathlib.Data.Nat.Digits.Lemmas
import SealedDrive.Proofs.Canonical
import SealedDrive.Store.Credentials

/-!
Which texts stand for a key pass. Padded base64 is said here apart from the writer and the reader:
the octets and the letters are the digits of one number, in base 256 and in base 64. Digits are
unique, so octets have one such text; the writer gives it and the reader takes nothing else.
-/

namespace SealedDrive

namespace Base64

/-! ## One number in two bases -/

/-- The letters of base64, in the order of what they stand for. -/
def alphabet : String := "ABCDEFGHIJKLMNOPQRSTUVWXYZabcdefghijklmnopqrstuvwxyz0123456789+/"

/-- Six bits each of a number that has the octets as its digits. Zero bits come after the last
octet, two for every fill that completes a group of four. -/
structure Regrouped (bytes : Bytes) (digits : List Nat) (fills : Nat) : Prop where
  digit_lt : ∀ digit ∈ digits, digit < 64
  fills_lt : fills < 3
  length : 3 * (digits.length + fills) = 4 * (bytes.length + fills)
  value : Nat.ofDigits 64 digits.reverse =
    Nat.ofDigits 256 (bytes.map UInt8.toNat).reverse * 4 ^ fills

/-- A text is the letters of the regrouped octets, filled up with `=`. -/
def IsCanonical (bytes : Bytes) (text : String) : Prop :=
  ∃ digits fills, Regrouped bytes digits fills ∧
    text.toList = (digits.map fun digit => alphabet.toList.getD digit '=') ++
      List.replicate fills '='

theorem getD_alphabet {digit : Nat} (h : digit < 64) :
    alphabet.toList.getD digit '=' = letter digit := by
  have all : ∀ d : Fin 64, alphabet.toList.getD d '=' = letter d := by decide +kernel
  exact all ⟨digit, h⟩

variable {bytes : Bytes} {digits others : List Nat} {fills more : Nat} {text : String}

theorem Regrouped.pow_length (h : Regrouped bytes digits fills) :
    64 ^ digits.length = 256 ^ bytes.length * 4 ^ fills := by
  have hbits : 6 * digits.length = 8 * bytes.length + 2 * fills := by
    have := h.length
    omega
  calc 64 ^ digits.length = 2 ^ (6 * digits.length) := by rw [Nat.pow_mul]
    _ = 2 ^ (8 * bytes.length) * 2 ^ (2 * fills) := by rw [hbits, Nat.pow_add]
    _ = 256 ^ bytes.length * 4 ^ fills := by rw [Nat.pow_mul, Nat.pow_mul]

/-- Three more octets at the front are four more digits. -/
theorem Regrouped.cons (h : Regrouped bytes digits fills) (a b c : UInt8) :
    Regrouped (a :: b :: c :: bytes)
      (a.toNat / 4 :: (a.toNat % 4 * 16 + b.toNat / 16) :: (b.toNat % 16 * 4 + c.toNat / 64) ::
        c.toNat % 64 :: digits) fills where
  digit_lt := by
    have ha := a.toNat_lt
    have hb := b.toNat_lt
    have hc := c.toNat_lt
    simp only [List.forall_mem_cons]
    exact ⟨by omega, by omega, by omega, by omega, h.digit_lt⟩
  fills_lt := h.fills_lt
  length := by
    have := h.length
    simp only [List.length_cons]
    omega
  value := by
    have hgroup : c.toNat % 64 + 64 * (b.toNat % 16 * 4 + c.toNat / 64) +
        64 ^ 2 * (a.toNat % 4 * 16 + b.toNat / 16) + 64 ^ 3 * (a.toNat / 4) =
          c.toNat + 256 * b.toNat + 256 ^ 2 * a.toNat := by omega
    have hdigits (w x y z : Nat) : Nat.ofDigits 64 (w :: x :: y :: z :: digits).reverse =
        Nat.ofDigits 64 digits.reverse +
          64 ^ digits.length * (z + 64 * y + 64 ^ 2 * x + 64 ^ 3 * w) := by
      simp only [Nat.ofDigits_reverse_cons, List.length_cons]
      ring
    have hoctets : Nat.ofDigits 256 ((a :: b :: c :: bytes).map UInt8.toNat).reverse =
        Nat.ofDigits 256 (bytes.map UInt8.toNat).reverse +
          256 ^ bytes.length * (c.toNat + 256 * b.toNat + 256 ^ 2 * a.toNat) := by
      simp only [List.map_cons, Nat.ofDigits_reverse_cons, List.length_cons, List.length_map]
      ring
    rw [hdigits, hgroup, h.value, h.pow_length, hoctets]
    ring

theorem regrouped_pair (a b : UInt8) :
    Regrouped [a, b]
      [a.toNat / 4, a.toNat % 4 * 16 + b.toNat / 16, b.toNat % 16 * 4] 1 where
  digit_lt := by
    have ha := a.toNat_lt
    have hb := b.toNat_lt
    simp only [List.forall_mem_cons]
    exact ⟨by omega, by omega, by omega, List.forall_mem_nil _⟩
  fills_lt := by decide
  length := rfl
  value := by
    simp only [List.map_cons, List.map_nil, Nat.ofDigits_reverse_cons, List.reverse_nil,
      Nat.ofDigits_nil, List.length_cons, List.length_nil]
    omega

theorem regrouped_single (a : UInt8) :
    Regrouped [a] [a.toNat / 4, a.toNat % 4 * 16] 2 where
  digit_lt := by
    have ha := a.toNat_lt
    simp only [List.forall_mem_cons]
    exact ⟨by omega, by omega, List.forall_mem_nil _⟩
  fills_lt := by decide
  length := rfl
  value := by
    simp only [List.map_cons, List.map_nil, Nat.ofDigits_reverse_cons, List.reverse_nil,
      Nat.ofDigits_nil, List.length_cons, List.length_nil]
    omega

theorem regrouped_nil : Regrouped [] [] 0 where
  digit_lt := List.forall_mem_nil _
  fills_lt := by decide
  length := rfl
  value := rfl

/-- The letters that are written are those of the regrouped octets. -/
theorem exists_regrouped (bytes : Bytes) :
    ∃ digits fills, Regrouped bytes digits fills ∧
      encodeChars bytes = digits.map letter ++ List.replicate fills '=' := by
  induction bytes using encodeChars.induct with
  | case1 => exact ⟨[], 0, regrouped_nil, rfl⟩
  | case2 a => exact ⟨_, 2, regrouped_single a, rfl⟩
  | case3 a b => exact ⟨_, 1, regrouped_pair a b, rfl⟩
  | case4 a b c rest ih =>
    obtain ⟨digits, fills, hrest, htext⟩ := ih
    refine ⟨_, fills, hrest.cons a b c, ?_⟩
    rw [encodeChars, htext]
    rfl

/-- Octets are regrouped in one way. -/
theorem Regrouped.unique (h : Regrouped bytes digits fills) (h' : Regrouped bytes others more) :
    digits = others ∧ fills = more := by
  have hfills : fills = more := by
    have := h.length
    have := h.fills_lt
    have := h'.length
    have := h'.fills_lt
    omega
  subst hfills
  have hlength : digits.reverse.length = others.reverse.length := by
    have := h.length
    have := h'.length
    simp only [List.length_reverse]
    omega
  have hsame : digits.reverse = others.reverse :=
    Nat.ofDigits_inj_of_len_eq (by decide : 1 < 64) hlength
      (fun digit hd => h.digit_lt digit (List.mem_reverse.1 hd))
      (fun digit hd => h'.digit_lt digit (List.mem_reverse.1 hd)) (h.value.trans h'.value.symm)
  exact ⟨List.reverse_inj.1 hsame, rfl⟩

/-- Padded base64 is what is written, and nothing else. -/
theorem isCanonical_iff : IsCanonical bytes text ↔ text = encode bytes := by
  obtain ⟨digits, fills, hwritten, hchars⟩ := exists_regrouped bytes
  have hletters : (digits.map fun digit => alphabet.toList.getD digit '=') = digits.map letter :=
    List.map_congr_left fun digit hd => getD_alphabet (hwritten.digit_lt digit hd)
  rw [encode, ← String.toList_inj, String.toList_ofList, hchars, ← hletters]
  constructor
  · rintro ⟨others, more, hother, htext⟩
    obtain ⟨rfl, rfl⟩ := hother.unique hwritten
    exact htext
  · exact fun htext => ⟨digits, fills, hwritten, htext⟩

end Base64

/-! ## Key passes -/

namespace KeyPass

variable {keyPass : KeyPass} {text : String}

theorem ofBase64_eq_ok_iff : ofBase64 text = .ok keyPass ↔ text = keyPass.toBase64 := by
  rw [toBase64, ← Base64.decode_eq_ok_iff, ofBase64]
  obtain ⟨bytes⟩ := keyPass
  cases Base64.decode text <;> simp

theorem ofBase64_toBase64 (keyPass : KeyPass) : ofBase64 keyPass.toBase64 = .ok keyPass :=
  ofBase64_eq_ok_iff.2 rfl

/-- A text that is no key pass is told to be badly encoded. -/
theorem ofBase64_eq_error_iff :
    (∃ fault, ofBase64 text = .error (.encoding fault)) ↔
      ∀ keyPass, ofBase64 text ≠ .ok keyPass := by
  rw [ofBase64]
  cases Base64.decode text with
  | ok bytes => simp
  | error fault => simp

/-- The texts that are read as key passes are exactly those that key passes are written as. A text
is padded base64 of the octets of the key pass that it is read as, which is one key pass only, and
any other text is refused for its encoding. -/
theorem base64_exact (keyPass : KeyPass) (text other : String) (stored : Credentials) :
    ofBase64 keyPass.toBase64 = .ok keyPass ∧
    (ofBase64 text = .ok keyPass ↔ keyPass.toBase64 = text) ∧
    (ofBase64 text = .ok keyPass ↔ Base64.IsCanonical keyPass.bytes text) ∧
    (ofBase64 text = .ok keyPass → ofBase64 other = .ok keyPass → text = other) ∧
    ((∃ fault, ofBase64 text = .error (.encoding fault)) ↔
      ∀ bytes, ¬Base64.IsCanonical bytes text) ∧
    (stored.keyPass = .ok keyPass ↔ stored = .ofKeyPass stored.tokens keyPass) := by
  refine ⟨ofBase64_toBase64 keyPass, ofBase64_eq_ok_iff.trans eq_comm,
    ofBase64_eq_ok_iff.trans Base64.isCanonical_iff.symm, fun htext hother => ?_, ?_, ?_⟩
  · exact (ofBase64_eq_ok_iff.1 htext).trans (ofBase64_eq_ok_iff.1 hother).symm
  · rw [ofBase64_eq_error_iff]
    constructor
    · intro h bytes hbytes
      exact h ⟨bytes⟩ (ofBase64_eq_ok_iff.2 (Base64.isCanonical_iff.1 hbytes))
    · intro h keyPass hread
      exact h keyPass.bytes (Base64.isCanonical_iff.2 (ofBase64_eq_ok_iff.1 hread))
  · obtain ⟨tokens, saved⟩ := stored
    simp only [Credentials.keyPass, Credentials.ofKeyPass, ofBase64_eq_ok_iff,
      Credentials.mk.injEq, true_and]

/-- Of two texts that differ in bits that no octet has, one is a key pass. -/
theorem base64_exact_short :
    Base64.IsCanonical [115] "cw==" ∧ "cw==" = toBase64 ⟨[115]⟩ ∧
      ∀ bytes, ¬Base64.IsCanonical bytes "cx==" := by
  have hread : ofBase64 "cw==" = .ok ⟨[115]⟩ := by decide
  have hrefused : ofBase64 "cx==" = .error (.encoding (.lastLetter 1 120)) := by decide
  have hread_exact := base64_exact ⟨[115]⟩ "cw==" (toBase64 ⟨[115]⟩) ⟨⟨"", "", ""⟩, "cw=="⟩
  have hrefused_exact := base64_exact ⟨[115]⟩ "cx==" "cx==" ⟨⟨"", "", ""⟩, "cx=="⟩
  exact ⟨hread_exact.2.2.1.1 hread, hread_exact.2.2.2.1 hread hread_exact.1,
    hrefused_exact.2.2.2.2.1.1 ⟨_, hrefused⟩⟩

end KeyPass
end SealedDrive
