import SealedDrive.Cipher.ChaCha20
import SealedDrive.Cipher.Poly1305

/-!
Authenticated encryption with ChaCha20 and Poly1305, without associated data. Block zero of the
keystream is the one-time key of the authenticator; the data is encrypted from block one on.
-/

namespace SealedDrive.Aead

/-- The length of a tag in octets. -/
def tagSize : Nat := 16

/-- A message fills at most this many whole blocks, because the block counter has 32 bits. -/
def blockLimit : Nat := 0xffffffff

/-- The data of a message within the cipher's limit. -/
def Fits (data : Bytes) : Prop := data.length / 64 < blockLimit

instance (data : Bytes) : Decidable (Fits data) := inferInstanceAs (Decidable (_ < _))

def zeros (count : Nat) : Bytes := List.replicate count 0

/-- The authenticator of a ciphertext: filled up to whole groups, then both lengths. -/
def tag (key nonce ciphertext : Bytes) : Bytes :=
  let oneTime := (ChaCha20.keystreamBlock key nonce 0).take 32
  let fill := zeros ((16 - ciphertext.length % 16) % 16)
  Poly1305.tag oneTime
    (ciphertext ++ fill ++ Poly1305.octets 8 0 ++ Poly1305.octets 8 ciphertext.length)

/-- The ciphertext followed by its tag; nothing when the data is beyond the limit. -/
def encrypt? (key nonce plaintext : Bytes) : Option Bytes :=
  if Fits plaintext then
    let ciphertext := ChaCha20.apply key nonce 1 plaintext
    some (ciphertext ++ tag key nonce ciphertext)
  else none

/-- The plaintext, when the tag at the end is the one of what stands before it. -/
def decrypt? (key nonce message : Bytes) : Option Bytes :=
  if message.length < tagSize then none
  else
    let ciphertext := message.take (message.length - tagSize)
    let found := message.drop (message.length - tagSize)
    if Fits ciphertext ∧ found = tag key nonce ciphertext then
      some (ChaCha20.apply key nonce 1 ciphertext)
    else none

end SealedDrive.Aead
