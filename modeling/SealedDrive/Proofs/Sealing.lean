import SealedDrive.Keyring

/-!
What is sealed opens. A message within the cipher's limit comes back from the keyring that it was
sealed to, when whoever signed it is asked for; a wrapped keyring comes back whole.
-/

namespace SealedDrive

/-! ## Letters -/

namespace Base64

theorem bits?_letter {bits : Nat} (h : bits < 64) : bits? (letter bits) = some bits := by
  have all : ∀ b : Fin 64, bits? (letter b) = some b.val := by decide
  exact all ⟨bits, h⟩

theorem letter_ne_fill {bits : Nat} (h : bits < 64) : letter bits ≠ '=' := by
  have all : ∀ b : Fin 64, letter b ≠ '=' := by decide
  exact all ⟨bits, h⟩

theorem letter_ne_point {bits : Nat} (h : bits < 64) : letter bits ≠ '.' := by
  have all : ∀ b : Fin 64, letter b ≠ '.' := by decide
  exact all ⟨bits, h⟩

/-- A full group is read as such, whatever follows. -/
theorem decodeChars_group {w x y z : Char} (hz : z ≠ '=') (rest : List Char) :
    decodeChars (w :: x :: y :: z :: rest) = do
      let group ← group? w x y z
      let bytes ← decodeChars rest
      return group ++ bytes := by
  rw [decodeChars]
  · intro _ h
    exact absurd h hz
  · intro h
    exact absurd h hz

/-- A last group with one fill is read as such. -/
theorem decodeChars_short {w x y : Char} (hy : y ≠ '=') :
    decodeChars [w, x, y, '='] = lastOctets? w x y := by
  rw [decodeChars]
  intro h
  exact absurd h hy

theorem group?_letters (a b c : UInt8) :
    group? (letter (a.toNat / 4)) (letter (a.toNat % 4 * 16 + b.toNat / 16))
      (letter (b.toNat % 16 * 4 + c.toNat / 64)) (letter (c.toNat % 64)) = some [a, b, c] := by
  have ha := a.toNat_lt
  have hb := b.toNat_lt
  have hc := c.toNat_lt
  simp only [group?, bits?_letter (show a.toNat / 4 < 64 by omega),
    bits?_letter (show a.toNat % 4 * 16 + b.toNat / 16 < 64 by omega),
    bits?_letter (show b.toNat % 16 * 4 + c.toNat / 64 < 64 by omega),
    bits?_letter (show c.toNat % 64 < 64 by omega), Option.bind_eq_bind, Option.bind_some,
    Option.pure_def,
    show a.toNat / 4 * 4 + (a.toNat % 4 * 16 + b.toNat / 16) / 16 = a.toNat by omega,
    show (a.toNat % 4 * 16 + b.toNat / 16) % 16 * 16 + (b.toNat % 16 * 4 + c.toNat / 64) / 4 =
      b.toNat by omega,
    show (b.toNat % 16 * 4 + c.toNat / 64) % 4 * 64 + c.toNat % 64 = c.toNat by omega,
    UInt8.ofNat_toNat]

theorem decodeChars_encodeChars (bytes : Bytes) :
    decodeChars (encodeChars bytes) = some bytes := by
  induction bytes using encodeChars.induct with
  | case1 => rfl
  | case2 a =>
    have ha := a.toNat_lt
    simp only [encodeChars, decodeChars, lastOctet?, bits?_letter (show a.toNat / 4 < 64 by omega),
      bits?_letter (show a.toNat % 4 * 16 < 64 by omega), Option.bind_eq_bind, Option.bind_some,
      show a.toNat % 4 * 16 % 16 = 0 by omega, if_true,
      show a.toNat / 4 * 4 + a.toNat % 4 * 16 / 16 = a.toNat by omega, UInt8.ofNat_toNat]
  | case3 a b =>
    have ha := a.toNat_lt
    have hb := b.toNat_lt
    rw [encodeChars, decodeChars_short (letter_ne_fill (by omega))]
    simp only [lastOctets?, bits?_letter (show a.toNat / 4 < 64 by omega),
      bits?_letter (show a.toNat % 4 * 16 + b.toNat / 16 < 64 by omega),
      bits?_letter (show b.toNat % 16 * 4 < 64 by omega), Option.bind_eq_bind, Option.bind_some,
      show b.toNat % 16 * 4 % 4 = 0 by omega, if_true,
      show a.toNat / 4 * 4 + (a.toNat % 4 * 16 + b.toNat / 16) / 16 = a.toNat by omega,
      show (a.toNat % 4 * 16 + b.toNat / 16) % 16 * 16 + b.toNat % 16 * 4 / 4 = b.toNat by omega,
      UInt8.ofNat_toNat]
  | case4 a b c rest ih =>
    rw [encodeChars, decodeChars_group (letter_ne_fill (Nat.mod_lt _ (by decide))),
      group?_letters, ih]
    rfl

theorem decode_encode (bytes : Bytes) : decode (encode bytes) = .ok bytes := by
  simp [decode, decode?, encode, decodeChars_encodeChars]

/-- No point stands among the letters. -/
theorem point_notMem_encodeChars (bytes : Bytes) : '.' ∉ encodeChars bytes := by
  induction bytes using encodeChars.induct with
  | case1 => exact List.not_mem_nil
  | case2 a =>
    have ha := a.toNat_lt
    simp [encodeChars, (letter_ne_point (show a.toNat / 4 < 64 by omega)).symm,
      (letter_ne_point (show a.toNat % 4 * 16 < 64 by omega)).symm]
  | case3 a b =>
    have ha := a.toNat_lt
    have hb := b.toNat_lt
    simp [encodeChars, (letter_ne_point (show a.toNat / 4 < 64 by omega)).symm,
      (letter_ne_point (show a.toNat % 4 * 16 + b.toNat / 16 < 64 by omega)).symm,
      (letter_ne_point (show b.toNat % 16 * 4 < 64 by omega)).symm]
  | case4 a b c rest ih =>
    have ha := a.toNat_lt
    have hb := b.toNat_lt
    have hc := c.toNat_lt
    simp [encodeChars, ih, (letter_ne_point (show a.toNat / 4 < 64 by omega)).symm,
      (letter_ne_point (show a.toNat % 4 * 16 + b.toNat / 16 < 64 by omega)).symm,
      (letter_ne_point (show b.toNat % 16 * 4 + c.toNat / 64 < 64 by omega)).symm,
      (letter_ne_point (show c.toNat % 64 < 64 by omega)).symm]

end Base64

/-! ## The cipher -/

namespace ChaCha20

theorem length_keystreamBlock (key nonce : Bytes) (counter : UInt32) :
    (keystreamBlock key nonce counter).length = 64 := by
  simp only [keystreamBlock, List.length_flatMap, List.length_cons, List.length_nil,
    List.map_const', List.sum_replicate_nat, Vector.length_toList]

theorem length_keystream (key nonce : Bytes) (blocks : Nat) (counter : UInt32) :
    (keystream key nonce blocks counter).length = 64 * blocks := by
  induction blocks generalizing counter with
  | zero => rfl
  | succ blocks ih =>
    rw [keystream, List.length_append, length_keystreamBlock, ih]
    omega

theorem length_apply (key nonce : Bytes) (counter : UInt32) (data : Bytes) :
    (apply key nonce counter data).length = data.length := by
  simp only [apply, List.length_zipWith, length_keystream]
  omega

theorem zipWith_xor_cancel {data stream : Bytes} (h : data.length ≤ stream.length) :
    List.zipWith (· ^^^ ·) (List.zipWith (· ^^^ ·) data stream) stream = data := by
  induction data generalizing stream with
  | nil => simp
  | cons a data ih =>
    cases stream with
    | nil => simp at h
    | cons b stream =>
      have hl : data.length ≤ stream.length := by simpa using h
      simp only [List.zipWith_cons_cons, ih hl, UInt8.xor_assoc, UInt8.xor_self, UInt8.xor_zero]

/-- The keystream cancels itself. -/
theorem apply_apply (key nonce : Bytes) (counter : UInt32) (data : Bytes) :
    apply key nonce counter (apply key nonce counter data) = data := by
  unfold apply
  rw [show (List.zipWith (· ^^^ ·) data
      (keystream key nonce ((data.length + 63) / 64) counter)).length = data.length from
    length_apply key nonce counter data]
  refine zipWith_xor_cancel ?_
  rw [length_keystream]
  omega

end ChaCha20

namespace Aead

theorem length_tag (key nonce ciphertext : Bytes) : (tag key nonce ciphertext).length = tagSize :=
  Poly1305.length_octets _ _

theorem decrypt?_encrypt? (key nonce : Bytes) {plaintext : Bytes} (h : Fits plaintext) :
    ∃ message, encrypt? key nonce plaintext = some message ∧
      decrypt? key nonce message = some plaintext := by
  refine ⟨_, if_pos h, ?_⟩
  have hl : (ChaCha20.apply key nonce 1 plaintext).length = plaintext.length :=
    ChaCha20.length_apply _ _ _ _
  have hf : Fits (ChaCha20.apply key nonce 1 plaintext) := by rwa [Fits, hl]
  simp [decrypt?, length_tag, hf, ChaCha20.apply_apply]

end Aead

/-! ## Messages -/

namespace Keyring

theorem length_bytes (ring : Keyring) : ring.bytes.length = keySize := by
  simp [bytes, keySize]

theorem length_nonceFor (ring : Keyring) (plaintext : Bytes) :
    (ring.nonceFor plaintext).length = nonceSize := by
  simp [nonceFor, nonceSize]

/-- A key is well within the cipher's limit. -/
theorem fits_bytes (ring : Keyring) : Aead.Fits ring.bytes := by
  rw [Aead.Fits, length_bytes]
  decide

theorem ofBytes_bytes (ring : Keyring) : ofBytes ring.bytes = .ok ring := by
  rw [ofBytes, dif_pos ring.length_bytes]
  congr 3

theorem splitPoint_append {body rest : List Char} (h : '.' ∉ body) :
    splitPoint (body ++ '.' :: rest) = some (body, rest) := by
  have hb : ∀ c ∈ body, decide (c ≠ '.') = true :=
    fun c hc => decide_eq_true fun he => h (he ▸ hc)
  unfold splitPoint
  rw [List.dropWhile_append_of_pos hb, List.takeWhile_append_of_pos hb]
  simp

theorem readSignature_signature (digest : Blake3.Digest) :
    readSignature (Hex.encodeChars digest.toList) = some digest.toList := by
  have hl : (Hex.encodeChars digest.toList).length = 64 := by
    simp only [Hex.encodeChars, List.length_flatMap, List.length_cons, List.length_nil,
      List.map_const', List.sum_replicate_nat, Vector.length_toList]
  rw [readSignature, if_pos hl, Hex.decodeChars_encodeChars]

/-- What opening comes to once the text splits, reads and decrypts: the signature decides. -/
theorem openMessage_of_decrypt? {ring verifier : Keyring} {message : String}
    {nonce ciphertext plaintext signature : Bytes} {digits : List Char}
    (hm : message.toList = Base64.encodeChars (nonce ++ ciphertext) ++ '.' :: digits)
    (hn : nonce.length = nonceSize)
    (hd : Aead.decrypt? ring.bytes nonce ciphertext = some plaintext)
    (hs : readSignature digits = some signature) :
    ring.openMessage message verifier =
      if (verifier.sign plaintext).toList = signature then .ok plaintext
      else .error (.verification ("not signed by " ++ verifier.fingerprint)) := by
  have hdecode : Base64.decode (String.ofList (Base64.encodeChars (nonce ++ ciphertext))) =
      .ok (nonce ++ ciphertext) := Base64.decode_encode _
  rw [openMessage, hm, splitPoint_append (Base64.point_notMem_encodeChars _)]
  dsimp only
  rw [hdecode]
  dsimp only
  rw [if_neg (by rw [List.length_append, hn]; omega), List.take_left' hn, List.drop_left' hn, hd,
    hs]

theorem sealMessage_toList (ring signer : Keyring) (plaintext : Bytes) :
    (ring.sealMessage plaintext signer).toList =
      (ring.sealedBody plaintext).toList ++
        '.' :: Hex.encodeChars (signer.sign plaintext).toList := by
  simp [sealMessage, signature, Hex.encode, String.toList_append]

/-- Whoever is asked for, a message within the cipher's limit decrypts with the keyring it was
sealed to; what is left is whether the keyed hash is the signer's. -/
theorem openMessage_sealMessage_eq {ring signer : Keyring} {plaintext : Bytes}
    (h : Aead.Fits plaintext) (verifier : Keyring) :
    ring.openMessage (ring.sealMessage plaintext signer) verifier =
      if (verifier.sign plaintext).toList = (signer.sign plaintext).toList then .ok plaintext
      else .error (.verification ("not signed by " ++ verifier.fingerprint)) := by
  obtain ⟨message, he, hd⟩ := Aead.decrypt?_encrypt? ring.bytes (ring.nonceFor plaintext) h
  have hbody : (ring.sealedBody plaintext).toList =
      Base64.encodeChars (ring.nonceFor plaintext ++ message) := by
    simp [sealedBody, he, Base64.encode]
  have hm : (ring.sealMessage plaintext signer).toList =
      Base64.encodeChars (ring.nonceFor plaintext ++ message) ++
        '.' :: Hex.encodeChars (signer.sign plaintext).toList := by
    rw [sealMessage_toList, hbody]
  exact openMessage_of_decrypt? hm (ring.length_nonceFor plaintext) hd (readSignature_signature _)

/-- What is sealed to a keyring opens with it, when the one who signed it is asked for. -/
theorem openMessage_sealMessage {ring signer : Keyring} {plaintext : Bytes}
    (h : Aead.Fits plaintext) :
    ring.openMessage (ring.sealMessage plaintext signer) signer = .ok plaintext := by
  rw [openMessage_sealMessage_eq h, if_pos rfl]

/-- A keyring sealed as a message comes back whole. -/
theorem openKey_sealMessage (ring signer key : Keyring) :
    ring.openKey (ring.sealMessage key.bytes signer) signer = .ok key := by
  rw [openKey, openMessage_sealMessage key.fits_bytes]
  exact key.ofBytes_bytes

/-- A wrapped keyring unwraps under its parent, for whoever wrapped it. -/
theorem derive_wrap (ring parent signer : Keyring) :
    derive (ring.wrap parent signer) parent signer = .ok ring := by
  have h : parent.openKey ((ring.wrap parent signer).passphrase ++ "." ++
      (ring.wrap parent signer).passphraseSignature) signer = .ok ring :=
    openKey_sealMessage parent signer ring
  have hf : ring.fingerprint = (ring.wrap parent signer).key := rfl
  simp only [derive, h, bind, Except.bind, if_pos hf, pure, Except.pure]

end Keyring
end SealedDrive
