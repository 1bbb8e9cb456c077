import SealedDrive.Text.Bytes

/-!
The Poly1305 one-time authenticator: the message, cut into groups of sixteen octets, is a
polynomial over the integers modulo 2¹³⁰ - 5, evaluated at the first half of the key.
-/

namespace SealedDrive.Poly1305

/-- The number an octet string stands for, the least significant octet first. -/
def number : Bytes → Nat
  | [] => 0
  | b :: rest => b.toNat + 256 * number rest

/-- The lowest `count` octets of a number, the least significant first. -/
def octets : Nat → Nat → Bytes
  | 0, _ => []
  | count + 1, n => UInt8.ofNat n :: octets count (n / 256)

theorem length_octets (count n : Nat) : (octets count n).length = count := by
  induction count generalizing n with
  | zero => rfl
  | succ count ih => simp [octets, ih]

def modulus : Nat := 1 <<< 130 - 5

/-- The point of evaluation; some bits of the key are cleared. -/
def point (key : Bytes) : Nat :=
  number (key.take 16) &&& 0x0ffffffc0ffffffc0ffffffc0fffffff

/-- Take in one group of at most sixteen octets, marked with a bit above its last octet. -/
def absorb (point acc : Nat) (group : Bytes) : Nat :=
  (acc + number group + 1 <<< (8 * group.length)) * point % modulus

def absorbAll (point : Nat) : Nat → Nat → Bytes → Nat
  | 0, acc, _ => acc
  | _, acc, [] => acc
  | fuel + 1, acc, message =>
    absorbAll point fuel (absorb point acc (message.take 16)) (message.drop 16)

/-- The tag of a message under a key of 32 octets. -/
def tag (key message : Bytes) : Bytes :=
  octets 16 (absorbAll (point key) message.length 0 message + number (key.drop 16))

end SealedDrive.Poly1305
