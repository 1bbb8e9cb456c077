import SealedDrive.Text.Bytes
import SealedDrive.Words

/-!
The ChaCha20 stream cipher with a 96-bit nonce and a 32-bit block counter. Encryption and
decryption are the same: the octets of the keystream are added without carry.
-/

namespace SealedDrive.ChaCha20

/-- The state of one block: constants, key, counter and nonce. -/
abbrev Block := Words

def rotateLeft (word : UInt32) (count : UInt32) : UInt32 :=
  (word <<< count) ||| (word >>> (32 - count))

/-- A column round, then a diagonal round; nothing is mixed in. -/
def doubleRound (v : Block) : Block := v.round rotateLeft (Vector.replicate 16 0)

/-- Word `i` of an octet string, the least significant octet first. -/
def word (bytes : Array UInt8) (i : Nat) : UInt32 :=
  (bytes.getD (4 * i) 0).toUInt32 ||| (bytes.getD (4 * i + 1) 0).toUInt32 <<< 8
    ||| (bytes.getD (4 * i + 2) 0).toUInt32 <<< 16 ||| (bytes.getD (4 * i + 3) 0).toUInt32 <<< 24

/-- The state a block starts from. -/
def start (key nonce : Bytes) (counter : UInt32) : Block :=
  let k := key.toArray
  let n := nonce.toArray
  #v[0x61707865, 0x3320646e, 0x79622d32, 0x6b206574, word k 0, word k 1, word k 2, word k 3,
    word k 4, word k 5, word k 6, word k 7, counter, word n 0, word n 1, word n 2]

/-- The 64 octets of the keystream for one counter value. -/
def keystreamBlock (key nonce : Bytes) (counter : UInt32) : Bytes :=
  let v := start key nonce counter
  let w := Nat.repeat doubleRound 10 v
  (v.zipWith (· + ·) w).toList.flatMap fun (x : UInt32) =>
    [x.toUInt8, (x >>> 8).toUInt8, (x >>> 16).toUInt8, (x >>> 24).toUInt8]

/-- As many octets of the keystream as the data has, from a block counter on. -/
def keystream (key nonce : Bytes) : Nat → UInt32 → Bytes
  | 0, _ => []
  | blocks + 1, counter =>
    keystreamBlock key nonce counter ++ keystream key nonce blocks (counter + 1)

/-- Encrypt or decrypt, beginning with the given block. -/
def apply (key nonce : Bytes) (counter : UInt32) (data : Bytes) : Bytes :=
  List.zipWith (· ^^^ ·) data (keystream key nonce ((data.length + 63) / 64) counter)

end SealedDrive.ChaCha20
