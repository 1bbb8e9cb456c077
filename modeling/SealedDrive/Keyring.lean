import SealedDrive.Entries
import SealedDrive.Cipher.Aead
import SealedDrive.Digest.Blake3
import SealedDrive.KeyPass
import SealedDrive.Record.Account
import SealedDrive.Record.Share
import SealedDrive.Text.Hex

/-!
Keyrings. A keyring is one key of 32 octets. A message sealed to it is the base64 text of a nonce
and the ciphertext, a point, and the signature: the keyed hash of the plaintext under the signer's
key, in hexadecimal digits. The nonce is derived from key and plaintext, so sealing the same
message twice gives the same text. A wrong keyring fails to decrypt, a wrong signer fails to
verify.
-/

namespace SealedDrive

structure Keyring where
  key : Blake3.Digest
  deriving DecidableEq, Repr

namespace Keyring

def keySize : Nat := 32

def nonceSize : Nat := 12

def seedContext : String := "pdrive testkit 2024 keyring seed"

def keyPassContext : String := "pdrive testkit 2024 salted key pass"

def nonceContext : String := "pdrive testkit 2024 nonce"

def bytes (ring : Keyring) : Bytes := ring.key.toList

/-- The keyring that belongs to a label. -/
def ofSeed (seed : String) : Keyring := ⟨Blake3.deriveKey seedContext (Bytes.ofText seed)⟩

def ofBytes (bytes : Bytes) : Except CryptoError Keyring :=
  if h : bytes.length = keySize then .ok ⟨⟨bytes.toArray, h⟩⟩
  else .error (.keySize keySize bytes.length)

/-- Sixteen digits that tell keyrings apart without giving the key away. -/
def fingerprint (ring : Keyring) : String :=
  Hex.encode ((Blake3.hash ring.bytes).toList.take 8)

def shown (ring : Keyring) : String := "SealedKeyRing(" ++ ring.fingerprint ++ ")"

/-! ## Sealing and opening -/

def sign (ring : Keyring) (data : Bytes) : Blake3.Digest := Blake3.keyedHash ring.key data

def nonceFor (ring : Keyring) (plaintext : Bytes) : Bytes :=
  (Blake3.deriveKey nonceContext (ring.bytes ++ plaintext)).toList.take nonceSize

/-- The part of a sealed message before the point. A plaintext beyond the cipher's limit leaves
the nonce alone. -/
def sealedBody (ring : Keyring) (plaintext : Bytes) : String :=
  let nonce := ring.nonceFor plaintext
  Base64.encode (nonce ++ (Aead.encrypt? ring.bytes nonce plaintext).getD [])

def signature (ring : Keyring) (plaintext : Bytes) : String :=
  Hex.encode (ring.sign plaintext).toList

/-- Encrypt to a keyring, signed by another. -/
def sealMessage (ring : Keyring) (plaintext : Bytes) (signer : Keyring) : String :=
  ring.sealedBody plaintext ++ "." ++ signer.signature plaintext

/-- Split at the first point. -/
def splitPoint (chars : List Char) : Option (List Char × List Char) :=
  match chars.dropWhile (· ≠ '.') with
  | [] => none
  | _ :: rest => some (chars.takeWhile (· ≠ '.'), rest)

/-- A signature is exactly 64 hexadecimal digits. -/
def readSignature (digits : List Char) : Option Bytes :=
  if digits.length = 64 then Hex.decodeChars digits else none

/-- Decrypt a sealed message and check who signed it. -/
def openMessage (ring : Keyring) (message : String) (verifier : Keyring) :
    Except CryptoError Bytes :=
  match splitPoint message.toList with
  | none => .error (.decrypt "malformed sealed message")
  | some (body, signature) =>
    match Base64.decode (String.ofList body) with
    | .error fault => .error (.encoding fault)
    | .ok data =>
      if data.length < nonceSize then .error (.decrypt "sealed message too short")
      else
        match Aead.decrypt? ring.bytes (data.take nonceSize) (data.drop nonceSize) with
        | none => .error (.decrypt ("not sealed to " ++ ring.fingerprint))
        | some plaintext =>
          match readSignature signature with
          | none => .error (.verification "malformed signature")
          | some signature =>
            if (verifier.sign plaintext).toList = signature then .ok plaintext
            else .error (.verification ("not signed by " ++ verifier.fingerprint))

/-- The keyring inside a sealed message. -/
def openKey (ring : Keyring) (message : String) (verifier : Keyring) :
    Except CryptoError Keyring := do
  ofBytes (← ring.openMessage message verifier)

/-! ## Wrapping keys -/

/-- Wrap a keyring for its parent, signed. -/
def wrap (ring parent signer : Keyring) : EncryptedKey where
  key := ring.fingerprint
  passphrase := parent.sealedBody ring.bytes
  passphraseSignature := signer.signature ring.bytes

/-- Unwrap a key with its parent keyring and check the signature and the fingerprint. -/
def derive (key : EncryptedKey) (parent signer : Keyring) : Except CryptoError Keyring := do
  let child ← parent.openKey (key.passphrase ++ "." ++ key.passphraseSignature) signer
  if child.fingerprint = key.key then return child
  else .error (.verification
    ("unwrapped key " ++ child.fingerprint ++ " does not match " ++ key.key))

/-! ## The key pass -/

/-- Salt a password. -/
def salt (password salt : Bytes) : KeyPass :=
  ⟨(Blake3.deriveKey keyPassContext (password ++ salt)).toList⟩

/-- The keyring that a key pass is the key of. -/
def ofKeyPass (keyPass : KeyPass) : Except CryptoError Keyring := ofBytes keyPass.bytes

/-- Salt a password for one user key, with the first salt listed for it. -/
def saltFor (password : Bytes) (salts : List Salt) (keyId : String) :
    Except CryptoError KeyPass :=
  match (salts.find? (·.id = keyId)).bind (·.keySalt) with
  | none => .error (.missingSalt keyId)
  | some text =>
    match Base64.decode text with
    | .error fault => .error (.encoding fault)
    | .ok octets => .ok (salt password octets)

/-! ## Unlocking -/

/-- The user keyring and the keyrings of the addresses that have one, by address id. -/
structure Unlocked where
  user : Keyring
  addresses : List (String × Keyring)
  deriving DecidableEq, Repr

/-- Open the chosen key of an address: by the user keyring when it has a token, else by the key
pass itself. -/
def unlockAddressKey (passKey user : Keyring) (key : AddressKey) : Except CryptoError Keyring :=
  let opened :=
    match key.token with
    | some token => user.openKey token user
    | none => passKey.openKey key.privateKey passKey
  match opened with
  | .ok ring => .ok ring
  | .error _ => .error (.locked key.id)

/-- Unlock the addresses in order; those without an active key are passed over. -/
def unlockAddresses (passKey user : Keyring) (rings : List (String × Keyring)) :
    List Address → Except CryptoError (List (String × Keyring))
  | [] => .ok rings
  | address :: rest =>
    match address.activeKey? with
    | none => unlockAddresses passKey user rings rest
    | some key => do
      let ring ← unlockAddressKey passKey user key
      unlockAddresses passKey user (setEntry address.id ring rings) rest

/-- Unlock the user key and every address, or fail at the first key that does not open. -/
def unlock (user : User) (addresses : List Address) (keyPass : KeyPass) :
    Except CryptoError Unlocked :=
  if keyPass.isEmpty then .error .emptyKeyPass
  else do
    let passKey ← ofKeyPass keyPass
    match user.primaryKey? with
    | none => .error (.locked ("user " ++ user.id ++ " has no keys"))
    | some primary =>
      match passKey.openKey primary.privateKey passKey with
      | .error _ => .error (.locked primary.id)
      | .ok ring =>
        let rings ← unlockAddresses passKey ring [] addresses
        return ⟨ring, rings⟩

end Keyring
end SealedDrive
