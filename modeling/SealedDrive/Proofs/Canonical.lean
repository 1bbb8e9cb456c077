import SealedDrive.Proofs.Sealing

/-!
Reading turned round. A text that reads as octets is the text those octets are written as: exactly
so in base64, up to the case of the letters in hexadecimal. A ciphertext that decrypts is the one
its plaintext is encrypted to. So each reader accepts what its writer produces and nothing else.
-/

namespace SealedDrive

/-! ## Letters -/

namespace Base64

/-- A letter stands for six bits, and no other letter stands for the same. -/
theorem letter_of_bits? {c : Char} {bits : Nat} (h : bits? c = some bits) :
    bits < 64 ∧ letter bits = c := by
  -- Letters lie among the first 123 characters, and those can be gone through.
  have all : ∀ n : Fin 123, ((bits? (Char.ofNat n.val)).all fun bits =>
      bits < 64 && letter bits = Char.ofNat n.val) = true := by decide
  have hn : c.toNat < 123 := by
    refine Decidable.byContradiction fun far => ?_
    have hplus : c ≠ '+' := fun hc => far (hc ▸ by decide)
    have hslash : c ≠ '/' := fun hc => far (hc ▸ by decide)
    simp only [bits?, Char.le_def, UInt32.le_iff_toNat_le] at h
    change (if 65 ≤ c.toNat ∧ c.toNat ≤ 90 then _ else if 97 ≤ c.toNat ∧ c.toNat ≤ 122 then _
      else if 48 ≤ c.toNat ∧ c.toNat ≤ 57 then _ else _) = _ at h
    rw [if_neg (by omega), if_neg (by omega), if_neg (by omega), if_neg hplus, if_neg hslash] at h
    cases h
  have hc := all ⟨c.toNat, hn⟩
  rw [Char.ofNat_toNat, h] at hc
  simpa using hc

theorem toNat_firstOctet {i j : Nat} (hi : i < 64) (hj : j < 64) :
    (UInt8.ofNat (i * 4 + j / 16)).toNat = i * 4 + j / 16 :=
  UInt8.toNat_ofNat_of_lt' (by show _ < 256; omega)

theorem toNat_secondOctet {j k : Nat} (hk : k < 64) :
    (UInt8.ofNat (j % 16 * 16 + k / 4)).toNat = j % 16 * 16 + k / 4 :=
  UInt8.toNat_ofNat_of_lt' (by show _ < 256; omega)

theorem lastOctet?_eq_some {w x : Char} {bytes : Bytes} (h : lastOctet? w x = some bytes) :
    [w, x, '=', '='] = encodeChars bytes := by
  simp only [lastOctet?, Option.bind_eq_bind, Option.bind_eq_some_iff] at h
  obtain ⟨i, hi, j, hj, h⟩ := h
  obtain ⟨i_lt, rfl⟩ := letter_of_bits? hi
  obtain ⟨j_lt, rfl⟩ := letter_of_bits? hj
  split at h
  case isFalse => cases h
  case isTrue unused =>
    cases h
    rw [encodeChars, toNat_firstOctet i_lt j_lt, show (i * 4 + j / 16) / 4 = i by omega,
      show (i * 4 + j / 16) % 4 * 16 = j by omega]

theorem lastOctets?_eq_some {w x y : Char} {bytes : Bytes}
    (h : lastOctets? w x y = some bytes) : [w, x, y, '='] = encodeChars bytes := by
  simp only [lastOctets?, Option.bind_eq_bind, Option.bind_eq_some_iff] at h
  obtain ⟨i, hi, j, hj, k, hk, h⟩ := h
  obtain ⟨i_lt, rfl⟩ := letter_of_bits? hi
  obtain ⟨j_lt, rfl⟩ := letter_of_bits? hj
  obtain ⟨k_lt, rfl⟩ := letter_of_bits? hk
  split at h
  case isFalse => cases h
  case isTrue unused =>
    cases h
    rw [encodeChars, toNat_firstOctet i_lt j_lt, toNat_secondOctet k_lt,
      show (i * 4 + j / 16) / 4 = i by omega,
      show (i * 4 + j / 16) % 4 * 16 + (j % 16 * 16 + k / 4) / 16 = j by omega,
      show (j % 16 * 16 + k / 4) % 16 * 4 = k by omega]

theorem group?_eq_some {w x y z : Char} {bytes : Bytes} (h : group? w x y z = some bytes)
    (rest : Bytes) : w :: x :: y :: z :: encodeChars rest = encodeChars (bytes ++ rest) := by
  simp only [group?, Option.bind_eq_bind, Option.bind_eq_some_iff, Option.pure_def] at h
  obtain ⟨i, hi, j, hj, k, hk, l, hl, h⟩ := h
  obtain ⟨i_lt, rfl⟩ := letter_of_bits? hi
  obtain ⟨j_lt, rfl⟩ := letter_of_bits? hj
  obtain ⟨k_lt, rfl⟩ := letter_of_bits? hk
  obtain ⟨l_lt, rfl⟩ := letter_of_bits? hl
  cases h
  have hc : (UInt8.ofNat (k % 4 * 64 + l)).toNat = k % 4 * 64 + l :=
    UInt8.toNat_ofNat_of_lt' (by show _ < 256; omega)
  simp only [List.cons_append, List.nil_append]
  rw [encodeChars, toNat_firstOctet i_lt j_lt, toNat_secondOctet k_lt, hc,
    show (i * 4 + j / 16) / 4 = i by omega,
    show (i * 4 + j / 16) % 4 * 16 + (j % 16 * 16 + k / 4) / 16 = j by omega,
    show (j % 16 * 16 + k / 4) % 16 * 4 + (k % 4 * 64 + l) / 64 = k by omega,
    show (k % 4 * 64 + l) % 64 = l by omega]

theorem eq_encodeChars_of_decodeChars {chars : List Char} {bytes : Bytes}
    (h : decodeChars chars = some bytes) : chars = encodeChars bytes := by
  induction chars using decodeChars.induct generalizing bytes with
  | case1 => cases h; rfl
  | case2 w x => exact lastOctet?_eq_some h
  | case3 w x y hy => exact lastOctets?_eq_some (decodeChars_short hy ▸ h)
  | case4 w x y z rest hz hw ih =>
    rw [decodeChars.eq_4 w x y z rest hz hw, Option.bind_eq_bind, Option.bind_eq_some_iff] at h
    obtain ⟨first, hfirst, h⟩ := h
    obtain ⟨others, hothers, h⟩ := Option.bind_eq_some_iff.1 h
    cases h
    rw [ih hothers, group?_eq_some hfirst]
  | case5 chars h1 h2 h3 h4 => rw [decodeChars.eq_5 chars h1 h2 h3 h4] at h; cases h

/-- A text reads as octets exactly when it is the text they are written as. -/
theorem decodeChars_eq_some_iff {chars : List Char} {bytes : Bytes} :
    decodeChars chars = some bytes ↔ chars = encodeChars bytes :=
  ⟨eq_encodeChars_of_decodeChars, fun h => h ▸ decodeChars_encodeChars bytes⟩

theorem decode_eq_ok_iff {text : String} {bytes : Bytes} :
    decode text = .ok bytes ↔ text = encode bytes := by
  rw [encode, ← String.toList_inj, String.toList_ofList, ← decodeChars_eq_some_iff, decode, decode?]
  cases decodeChars text.toList <;> simp

theorem encode_inj {bytes other : Bytes} (h : encode bytes = encode other) : bytes = other := by
  have hd := decode_encode bytes
  rw [h, decode_encode] at hd
  exact (Except.ok.inj hd).symm

end Base64

namespace Hex

theorem value?_toLower (c : Char) : value? c.toLower = value? c := by
  have capital : ∀ n : Fin 91, value? (Char.ofNat n.val).toLower = value? (Char.ofNat n.val) := by
    decide
  by_cases h : c.val ≥ 'A'.val ∧ c.val ≤ 'Z'.val
  · have hn : c.toNat < 91 := Nat.lt_succ_of_le (UInt32.le_iff_toNat_le.1 h.2)
    have hc := capital ⟨c.toNat, hn⟩
    rwa [Char.ofNat_toNat] at hc
  · have hsame : c.toLower = c := dif_neg h
    rw [hsame]

/-- A digit of either case stands for a value below sixteen, and is in lower case the digit for
that value. -/
theorem digit_of_value? {c : Char} {value : Nat} (h : value? c = some value) :
    value < 16 ∧ digit value = c.toLower := by
  have all : ∀ n : Fin 103, ((value? (Char.ofNat n.val)).all fun value =>
      value < 16 && digit value = (Char.ofNat n.val).toLower) = true := by decide
  have hn : c.toNat < 103 := by
    refine Decidable.byContradiction fun far => ?_
    simp only [value?, Char.le_def, UInt32.le_iff_toNat_le] at h
    change (if 48 ≤ c.toNat ∧ c.toNat ≤ 57 then _ else if 97 ≤ c.toNat ∧ c.toNat ≤ 102 then _
      else if 65 ≤ c.toNat ∧ c.toNat ≤ 70 then _ else _) = _ at h
    rw [if_neg (by omega), if_neg (by omega), if_neg (by omega)] at h
    cases h
  have hc := all ⟨c.toNat, hn⟩
  rw [Char.ofNat_toNat, h] at hc
  simpa using hc

theorem decodeChars_map_toLower (digits : List Char) :
    decodeChars (digits.map Char.toLower) = decodeChars digits := by
  induction digits using decodeChars.induct with
  | case1 => rfl
  | case2 high low rest ih =>
    simp only [List.map_cons, decodeChars, value?_toLower, ih]
  | case3 => rfl

theorem map_toLower_of_decodeChars {digits : List Char} {bytes : Bytes}
    (h : decodeChars digits = some bytes) : digits.map Char.toLower = encodeChars bytes := by
  induction digits using decodeChars.induct generalizing bytes with
  | case1 => cases h; rfl
  | case2 high low rest ih =>
    simp only [decodeChars, Option.bind_eq_bind, Option.bind_eq_some_iff, Option.pure_def] at h
    obtain ⟨i, hi, j, hj, others, hothers, h⟩ := h
    cases h
    obtain ⟨hi, hhigh⟩ := digit_of_value? hi
    obtain ⟨hj, hlow⟩ := digit_of_value? hj
    have ha : (UInt8.ofNat (16 * i + j)).toNat = 16 * i + j :=
      UInt8.toNat_ofNat_of_lt' (by show _ < 256; omega)
    rw [List.map_cons, List.map_cons, ih hothers, ← hhigh, ← hlow, encodeChars, encodeChars,
      List.flatMap_cons, ha, show (16 * i + j) / 16 = i by omega,
      show (16 * i + j) % 16 = j by omega]
    rfl
  | case3 => cases h

/-- Digits of either case read as octets exactly when, in lower case, they are the digits the
octets are written with. -/
theorem decodeChars_eq_some_iff {digits : List Char} {bytes : Bytes} :
    decodeChars digits = some bytes ↔ digits.map Char.toLower = encodeChars bytes := by
  refine ⟨map_toLower_of_decodeChars, fun h => ?_⟩
  rw [← decodeChars_map_toLower, h, decodeChars_encodeChars]

theorem digit_ne_point {value : Nat} (h : value < 16) : digit value ≠ '.' := by
  have all : ∀ v : Fin 16, digit v ≠ '.' := by decide
  exact all ⟨value, h⟩

/-- No point stands among the digits. -/
theorem point_notMem_encodeChars (bytes : Bytes) : '.' ∉ encodeChars bytes := by
  intro h
  obtain ⟨b, -, hb⟩ := List.mem_flatMap.1 h
  have := b.toNat_lt
  have hhigh := digit_ne_point (show b.toNat / 16 < 16 by omega)
  have hlow := digit_ne_point (show b.toNat % 16 < 16 by omega)
  simp [hhigh.symm, hlow.symm] at hb

end Hex

/-! ## The cipher -/

namespace Aead

/-- A message decrypts to a plaintext exactly when it is what the plaintext is encrypted to. -/
theorem decrypt?_eq_some_iff {key nonce message plaintext : Bytes} :
    decrypt? key nonce message = some plaintext ↔ encrypt? key nonce plaintext = some message := by
  constructor
  · intro h
    unfold decrypt? at h
    split at h
    case isTrue => cases h
    dsimp only at h
    split at h
    case isFalse => cases h
    case isTrue fit =>
      obtain ⟨fit, same⟩ := fit
      cases h
      have hf : Fits (ChaCha20.apply key nonce 1 (message.take (message.length - tagSize))) := by
        rwa [Fits, ChaCha20.length_apply]
      simp only [encrypt?, if_pos hf, ChaCha20.apply_apply, ← same, List.take_append_drop]
  · intro h
    have hf : Fits plaintext := by
      refine Decidable.byContradiction fun hf => ?_
      simp [encrypt?, hf] at h
    obtain ⟨sealed, he, hd⟩ := decrypt?_encrypt? key nonce hf
    obtain rfl : sealed = message := Option.some.inj (he.symm.trans h)
    exact hd

end Aead
end SealedDrive
