import Mathlib.Data.List.Basic
import SealedDrive.Proofs.Canonical
import SealedDrive.Proofs.Derivation

/-!
What a keyring opens. A sealed form is a message as it may be written: a nonce, the ciphertext
under it and the digits of the signature, which may stand in either case. The messages that open
to a plaintext are the forms of that plaintext and no others. A wrapped key is such a message cut
at its only point, so its two halves cannot be cut anywhere else.
-/

namespace SealedDrive.Keyring

/-- A sealed message of a plaintext: its nonce, its ciphertext and the digits of its signature. -/
structure SealedForm (ring : Keyring) (plaintext : Bytes) (signer : Keyring) where
  nonce : Bytes
  ciphertext : Bytes
  digits : String
  length_nonce : nonce.length = nonceSize
  encrypted : Aead.encrypt? ring.bytes nonce plaintext = some ciphertext
  length_digits : digits.length = 64
  signed : digits.toLower = Hex.encode (signer.sign plaintext).toList

namespace SealedForm

variable {ring signer : Keyring} {plaintext : Bytes}

def body (form : SealedForm ring plaintext signer) : String :=
  Base64.encode (form.nonce ++ form.ciphertext)

def message (form : SealedForm ring plaintext signer) : String := form.body ++ "." ++ form.digits

theorem message_toList (form : SealedForm ring plaintext signer) :
    form.message.toList =
      Base64.encodeChars (form.nonce ++ form.ciphertext) ++ '.' :: form.digits.toList := by
  simp [message, body, Base64.encode, String.toList_append]

theorem point_notMem_body (form : SealedForm ring plaintext signer) :
    '.' ∉ form.body.toList := by
  simpa [body, Base64.encode] using Base64.point_notMem_encodeChars _

end SealedForm

/-! ## Splitting and signatures -/

theorem splitPoint_eq_some_iff {chars body rest : List Char} :
    splitPoint chars = some (body, rest) ↔ chars = body ++ '.' :: rest ∧ '.' ∉ body := by
  constructor
  · intro h
    have whole := @List.takeWhile_append_dropWhile _ (fun c : Char => decide (c ≠ '.')) chars
    unfold splitPoint at h
    cases hd : chars.dropWhile (· ≠ '.') with
    | nil => rw [hd] at h; cases h
    | cons first others =>
      rw [hd] at h whole
      cases h
      have hfirst : first = '.' := by
        have stopped := List.head?_dropWhile_not (fun c : Char => decide (c ≠ '.')) chars
        rw [hd] at stopped
        simpa using stopped
      refine ⟨hfirst ▸ whole.symm, fun point => ?_⟩
      simpa using List.all_eq_true.1 List.all_takeWhile _ point
  · rintro ⟨rfl, h⟩
    exact splitPoint_append h

theorem toList_toLower (text : String) :
    text.toLower.toList = text.toList.map Char.toLower := String.toList_map

theorem readSignature_eq_some_iff {digits : List Char} {signature : Bytes} :
    readSignature digits = some signature ↔
      digits.length = 64 ∧ digits.map Char.toLower = Hex.encodeChars signature := by
  rw [readSignature, ← Hex.decodeChars_eq_some_iff]
  split <;> simp_all

/-! ## Messages -/

/-- A sealed form opens to its plaintext. -/
theorem SealedForm.opens {ring signer : Keyring} {plaintext : Bytes}
    (form : SealedForm ring plaintext signer) :
    ring.openMessage form.message signer = .ok plaintext := by
  have hd := Aead.decrypt?_eq_some_iff.2 form.encrypted
  have hs : readSignature form.digits.toList = some (signer.sign plaintext).toList := by
    refine readSignature_eq_some_iff.2 ⟨form.length_digits, ?_⟩
    rw [← toList_toLower, form.signed, Hex.encode, String.toList_ofList]
  rw [openMessage_of_decrypt? form.message_toList form.length_nonce hd hs, if_pos rfl]

/-- Whatever opens is a sealed form of what it opens to. -/
theorem exists_form {ring verifier : Keyring} {message : String} {plaintext : Bytes}
    (h : ring.openMessage message verifier = .ok plaintext) :
    ∃ form : SealedForm ring plaintext verifier, form.message = message := by
  unfold openMessage at h
  split at h
  case h_1 => cases h
  case h_2 body signature hsplit =>
  split at h
  case h_1 => cases h
  case h_2 data hdata =>
  split at h
  case isTrue => cases h
  case isFalse long =>
  split at h
  case h_1 => cases h
  case h_2 found hfound =>
  split at h
  case h_1 => cases h
  case h_2 digest hdigest =>
  split at h
  case isFalse => cases h
  case isTrue same =>
    cases h
    obtain ⟨hchars, -⟩ := splitPoint_eq_some_iff.1 hsplit
    obtain ⟨hlength, hlower⟩ := readSignature_eq_some_iff.1 hdigest
    have hbody := Base64.decode_eq_ok_iff.1 hdata
    refine ⟨⟨data.take nonceSize, data.drop nonceSize, String.ofList signature, ?_,
      Aead.decrypt?_eq_some_iff.1 hfound, ?_, ?_⟩, ?_⟩
    · rw [List.length_take]
      omega
    · rw [← String.length_toList, String.toList_ofList, hlength]
    · rw [← String.toList_inj, toList_toLower, String.toList_ofList, hlower, same, Hex.encode,
        String.toList_ofList]
    · rw [← String.toList_inj, SealedForm.message_toList, List.take_append_drop,
        String.toList_ofList, hchars]
      rw [← String.toList_inj, String.toList_ofList, Base64.encode, String.toList_ofList] at hbody
      rw [hbody]

theorem openMessage_eq_ok_iff {ring verifier : Keyring} {message : String} {plaintext : Bytes} :
    ring.openMessage message verifier = .ok plaintext ↔
      ∃ form : SealedForm ring plaintext verifier, form.message = message :=
  ⟨exists_form, fun ⟨form, h⟩ => h ▸ form.opens⟩

/-- A keyring opens exactly the sealed forms of a plaintext, so what was sealed to it by another
opens, and does not verify for whoever signs that plaintext differently. -/
theorem opens_exactly_sealed_forms (ring : Keyring) (plaintext : Bytes) :
    (∀ message verifier, ring.openMessage message verifier = .ok plaintext ↔
      ∃ form : SealedForm ring plaintext verifier, form.message = message) ∧
    (Aead.Fits plaintext → ∀ signer,
      ring.openMessage (ring.sealMessage plaintext signer) signer = .ok plaintext ∧
      ∀ verifier : Keyring, signer.sign plaintext ≠ verifier.sign plaintext →
        ring.openMessage (ring.sealMessage plaintext signer) verifier =
          .error (.verification ("not signed by " ++ verifier.fingerprint))) := by
  refine ⟨fun _ _ => openMessage_eq_ok_iff, fun fits signer => ⟨openMessage_sealMessage fits, ?_⟩⟩
  intro verifier other
  have differ : (verifier.sign plaintext).toList ≠ (signer.sign plaintext).toList :=
    fun same => other (Vector.toList_inj.1 same).symm
  rw [openMessage_sealMessage_eq fits, if_neg differ]

/-- A keyring of one octet throughout. -/
def filled (octet : UInt8) : Keyring := ⟨Vector.replicate keySize octet⟩

theorem sealed_greeting_opens :
    Aead.Fits [0x68, 0x69] ∧ (filled 2).sign [0x68, 0x69] ≠ (filled 3).sign [0x68, 0x69] ∧
    (filled 1).openMessage ((filled 1).sealMessage [0x68, 0x69] (filled 2)) (filled 2) =
      .ok [0x68, 0x69] ∧
    (filled 1).openMessage ((filled 1).sealMessage [0x68, 0x69] (filled 2)) (filled 3) =
      .error (.verification ("not signed by " ++ (filled 3).fingerprint)) := by
  have fits : Aead.Fits [0x68, 0x69] := by decide
  have differ : (filled 2).sign [0x68, 0x69] ≠ (filled 3).sign [0x68, 0x69] := by decide +kernel
  obtain ⟨-, sealing⟩ := opens_exactly_sealed_forms (filled 1) [0x68, 0x69]
  obtain ⟨hopen, hrefuse⟩ := sealing fits (filled 2)
  exact ⟨fits, differ, hopen, hrefuse (filled 3) differ⟩

/-! ## Wrapped keys -/

theorem ofBytes_eq_ok_iff {bytes : Bytes} {key : Keyring} :
    ofBytes bytes = .ok key ↔ bytes = key.bytes := by
  refine ⟨fun h => ?_, fun h => h ▸ key.ofBytes_bytes⟩
  unfold ofBytes at h
  split at h
  case isFalse => cases h
  case isTrue => cases h; rfl

theorem bytes_inj {ring other : Keyring} (h : ring.bytes = other.bytes) : ring = other := by
  have hr := ofBytes_bytes ring
  rw [h, ofBytes_bytes] at hr
  exact (Except.ok.inj hr).symm

/-- A wrapped key is accepted for the keyring whose fingerprint it names and whose octets its two
halves open to. -/
theorem derive_eq_ok_iff {key : EncryptedKey} {parent signer ring : Keyring} :
    derive key parent signer = .ok ring ↔ key.key = ring.fingerprint ∧
      parent.openMessage (key.passphrase ++ "." ++ key.passphraseSignature) signer =
        .ok ring.bytes := by
  rw [derive, openKey, bind_assoc, bind_eq_ok_iff]
  simp only [bind_eq_ok_iff, ofBytes_eq_ok_iff]
  constructor
  · rintro ⟨octets, hopen, child, rfl, h⟩
    split at h
    case isFalse => cases h
    case isTrue same => cases h; exact ⟨same.symm, hopen⟩
  · rintro ⟨same, hopen⟩
    exact ⟨_, hopen, ring, rfl, if_pos same.symm⟩

namespace SealedForm

variable {parent signer : Keyring} {plaintext : Bytes}

theorem point_notMem_digits (form : SealedForm parent plaintext signer) :
    '.' ∉ form.digits.toList := by
  intro point
  have lower : '.' ∈ form.digits.toLower.toList := by
    rw [toList_toLower]
    exact List.mem_map_of_mem (f := Char.toLower) point
  rw [form.signed, Hex.encode, String.toList_ofList] at lower
  exact Hex.point_notMem_encodeChars _ lower

/-- A sealed form has one point, so whoever cuts it at a point cuts it in body and digits. -/
theorem halves (form : SealedForm parent plaintext signer) {left right : String}
    (h : form.message = left ++ "." ++ right) : left = form.body ∧ right = form.digits := by
  have chars : form.body.toList ++ '.' :: form.digits.toList =
      left.toList ++ '.' :: right.toList := by
    simpa [message, String.toList_append] using congrArg String.toList h
  obtain ⟨hbody, -, hdigits⟩ :=
    (List.append_cons_inj_of_notMem form.point_notMem_body form.point_notMem_digits).1 chars
  exact ⟨String.toList_inj.1 hbody.symm, String.toList_inj.1 hdigits.symm⟩

/-- The body alone settles the plaintext: the nonce is its first twelve octets. -/
theorem plaintext_eq {other : Bytes} {witness : Keyring}
    (form : SealedForm parent plaintext signer) (form' : SealedForm parent other witness)
    (h : form.body = form'.body) : plaintext = other := by
  obtain ⟨hnonce, hcipher⟩ := List.append_inj (Base64.encode_inj h)
    (form.length_nonce.trans form'.length_nonce.symm)
  have hp := Aead.decrypt?_eq_some_iff.2 form.encrypted
  rw [hnonce, hcipher, Aead.decrypt?_eq_some_iff.2 form'.encrypted] at hp
  exact (Option.some.inj hp).symm

end SealedForm

/-- What an accepted key is made of: the body and the digits of a sealed form of its octets. -/
theorem form_of_derive {key : EncryptedKey} {parent signer ring : Keyring}
    (h : derive key parent signer = .ok ring) :
    key.key = ring.fingerprint ∧ ∃ form : SealedForm parent ring.bytes signer,
      form.body = key.passphrase ∧ form.digits = key.passphraseSignature := by
  obtain ⟨hkey, hopen⟩ := derive_eq_ok_iff.1 h
  obtain ⟨form, hform⟩ := exists_form hopen
  obtain ⟨hbody, hdigits⟩ := form.halves hform
  exact ⟨hkey, form, hbody.symm, hdigits.symm⟩

theorem derive_of_form {parent signer ring : Keyring} (form : SealedForm parent ring.bytes signer) :
    derive ⟨ring.fingerprint, form.body, form.digits⟩ parent signer = .ok ring :=
  derive_eq_ok_iff.2 ⟨rfl, form.opens⟩

theorem char_toLower_toUpper (c : Char) : c.toUpper.toLower = c.toLower := by
  have small : ∀ n : Fin 123, (Char.ofNat n.val).toUpper.toLower = (Char.ofNat n.val).toLower := by
    decide
  by_cases h : c.val ≥ 'a'.val ∧ c.val ≤ 'z'.val
  · have hn : c.toNat < 123 := Nat.lt_succ_of_le (UInt32.le_iff_toNat_le.1 h.2)
    have hc := small ⟨c.toNat, hn⟩
    rwa [Char.ofNat_toNat] at hc
  · have hsame : c.toUpper = c := dif_neg h
    rw [hsame]

theorem toLower_toUpper (text : String) : text.toUpper.toLower = text.toLower := by
  show (text.map Char.toUpper).map Char.toLower = text.map Char.toLower
  rw [String.map_map]
  congr 1
  exact funext char_toLower_toUpper

/-- The same form with its digits in other cases. -/
def SealedForm.recase {ring signer : Keyring} {plaintext : Bytes}
    (form : SealedForm ring plaintext signer) {digits : String}
    (h : digits.toLower = form.digits.toLower) : SealedForm ring plaintext signer where
  nonce := form.nonce
  ciphertext := form.ciphertext
  digits := digits
  length_nonce := form.length_nonce
  encrypted := form.encrypted
  length_digits := by
    have same : (digits.map Char.toLower).length = (form.digits.map Char.toLower).length :=
      congrArg String.length h
    rwa [String.length_map, String.length_map, form.length_digits] at same
  signed := h.trans form.signed

/-- A wrapped key derives. Whatever derives names the fingerprint of what it derives to, has no
point in its passphrase and opens to the octets; of the keys with that passphrase those and only
those derive that name the same fingerprint and have the same signature but for its case. -/
theorem derives_exactly_wrapped (parent signer : Keyring) :
    (∀ child : Keyring, derive (child.wrap parent signer) parent signer = .ok child) ∧
    (∀ key ring, derive key parent signer = .ok ring ↔
      key.key = ring.fingerprint ∧ '.' ∉ key.passphrase.toList ∧
      parent.openMessage (key.passphrase ++ "." ++ key.passphraseSignature) signer =
        .ok ring.bytes) ∧
    (∀ key ring, derive key parent signer = .ok ring →
      ∀ other : EncryptedKey, other.passphrase = key.passphrase →
        ((∃ found, derive other parent signer = .ok found) ↔ other.key = key.key ∧
          other.passphraseSignature.toLower = key.passphraseSignature.toLower)) := by
  refine ⟨fun child => child.derive_wrap parent signer, ?_, ?_⟩
  · intro key ring
    constructor
    · intro h
      obtain ⟨hkey, form, hbody, -⟩ := form_of_derive h
      exact ⟨hkey, hbody ▸ form.point_notMem_body, (derive_eq_ok_iff.1 h).2⟩
    · rintro ⟨hkey, -, hopen⟩
      exact derive_eq_ok_iff.2 ⟨hkey, hopen⟩
  · intro key ring h other same
    obtain ⟨hkey, form, hbody, hdigits⟩ := form_of_derive h
    constructor
    · -- One body is one plaintext, so the keyring is the same and so is what it signs.
      rintro ⟨found, hother⟩
      obtain ⟨hkey', form', hbody', hdigits'⟩ := form_of_derive hother
      obtain rfl : ring = found :=
        bytes_inj (form.plaintext_eq form' (hbody.trans (same.symm.trans hbody'.symm)))
      refine ⟨hkey'.trans hkey.symm, ?_⟩
      rw [← hdigits, ← hdigits', form.signed, form'.signed]
    · rintro ⟨hkey', hcase⟩
      have hfound := derive_of_form (form.recase (hdigits ▸ hcase))
      refine ⟨ring, ?_⟩
      obtain ⟨name, passphrase, signature⟩ := other
      obtain rfl : name = ring.fingerprint := hkey'.trans hkey
      obtain rfl : passphrase = form.body := same.trans hbody.symm
      exact hfound

theorem wrapped_in_capitals_derives :
    derive ((filled 1).wrap (filled 2) (filled 3)) (filled 2) (filled 3) = .ok (filled 1) ∧
    ∃ found, derive { (filled 1).wrap (filled 2) (filled 3) with
        passphraseSignature := ((filled 1).wrap (filled 2) (filled 3)).passphraseSignature.toUpper }
      (filled 2) (filled 3) = .ok found := by
  obtain ⟨wraps, -, recased⟩ := derives_exactly_wrapped (filled 2) (filled 3)
  have wrapped := wraps (filled 1)
  refine ⟨wrapped, ?_⟩
  generalize (filled 1).wrap (filled 2) (filled 3) = key at wrapped ⊢
  exact (recased key (filled 1) wrapped
    { key with passphraseSignature := key.passphraseSignature.toUpper } rfl).2
    ⟨rfl, toLower_toUpper _⟩

end SealedDrive.Keyring
