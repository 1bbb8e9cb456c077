import SealedDrive.Text.Bytes

/-!
Octets as pairs of hexadecimal digits, written in lower case and read in either case.
-/

namespace SealedDrive.Hex

/-- The digit for a value below sixteen. -/
def digit (value : Nat) : Char :=
  if value < 10 then Char.ofNat (48 + value) else Char.ofNat (87 + value)

/-- The value of a digit of either case. -/
def value? (c : Char) : Option Nat :=
  if '0' ≤ c ∧ c ≤ '9' then some (c.toNat - 48)
  else if 'a' ≤ c ∧ c ≤ 'f' then some (c.toNat - 87)
  else if 'A' ≤ c ∧ c ≤ 'F' then some (c.toNat - 55)
  else none

/-- Two digits for every octet, the high half first. -/
def encodeChars (bytes : Bytes) : List Char :=
  bytes.flatMap fun b => [digit (b.toNat / 16), digit (b.toNat % 16)]

/-- The octets that pairs of digits stand for. -/
def decodeChars : List Char → Option Bytes
  | [] => some []
  | high :: low :: rest => do
    let h ← value? high
    let l ← value? low
    let bytes ← decodeChars rest
    return UInt8.ofNat (16 * h + l) :: bytes
  | [_] => none

def encode (bytes : Bytes) : String := String.ofList (encodeChars bytes)

def decode? (text : String) : Option Bytes := decodeChars text.toList

theorem value?_digit {value : Nat} (h : value < 16) : value? (digit value) = some value := by
  have all : ∀ v : Fin 16, value? (digit v) = some v.val := by decide
  exact all ⟨value, h⟩

/-- What is written reads back. -/
theorem decodeChars_encodeChars (bytes : Bytes) :
    decodeChars (encodeChars bytes) = some bytes := by
  induction bytes with
  | nil => rfl
  | cons b rest ih =>
    have hb : b.toNat < 256 := b.toNat_lt
    have ih' : decodeChars (List.flatMap
        (fun b => [digit (b.toNat / 16), digit (b.toNat % 16)]) rest) = some rest := ih
    have whole : UInt8.ofNat (16 * (b.toNat / 16) + b.toNat % 16) = b := by
      rw [show 16 * (b.toNat / 16) + b.toNat % 16 = b.toNat by omega]
      simp
    simp only [encodeChars, List.flatMap_cons, List.cons_append, List.nil_append, decodeChars,
      value?_digit (show b.toNat / 16 < 16 by omega),
      value?_digit (show b.toNat % 16 < 16 by omega), ih', Option.bind_eq_bind,
      Option.bind_some, Option.pure_def, whole]

end SealedDrive.Hex
