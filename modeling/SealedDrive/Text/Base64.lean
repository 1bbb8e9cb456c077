import SealedDrive.Text.Bytes

/-!
Standard base64. Every group of three octets is four letters, a shorter last group is filled up
with `=`. Reading is strict: padding is required, the bits that a short group leaves unused are
zero, and nothing else may stand in the text. So each octet string has one written form.
-/

namespace SealedDrive.Base64

/-- The letter for six bits. -/
def letter (bits : Nat) : Char :=
  if bits < 26 then Char.ofNat (65 + bits)
  else if bits < 52 then Char.ofNat (71 + bits)
  else if bits < 62 then Char.ofNat (bits - 4)
  else if bits = 62 then '+'
  else '/'

/-- The six bits a letter stands for. -/
def bits? (c : Char) : Option Nat :=
  if 'A' ≤ c ∧ c ≤ 'Z' then some (c.toNat - 65)
  else if 'a' ≤ c ∧ c ≤ 'z' then some (c.toNat - 71)
  else if '0' ≤ c ∧ c ≤ '9' then some (c.toNat + 4)
  else if c = '+' then some 62
  else if c = '/' then some 63
  else none

def encodeChars : Bytes → List Char
  | [] => []
  | [a] => [letter (a.toNat / 4), letter (a.toNat % 4 * 16), '=', '=']
  | [a, b] =>
    [letter (a.toNat / 4), letter (a.toNat % 4 * 16 + b.toNat / 16), letter (b.toNat % 16 * 4), '=']
  | a :: b :: c :: rest =>
    letter (a.toNat / 4) :: letter (a.toNat % 4 * 16 + b.toNat / 16)
      :: letter (b.toNat % 16 * 4 + c.toNat / 64) :: letter (c.toNat % 64) :: encodeChars rest

/-- The octets of a last group with two fills: the second letter uses two bits only. -/
def lastOctet? (w x : Char) : Option Bytes := do
  let w ← bits? w
  let x ← bits? x
  if x % 16 = 0 then some [UInt8.ofNat (w * 4 + x / 16)] else none

/-- The octets of a last group with one fill: the third letter uses four bits only. -/
def lastOctets? (w x y : Char) : Option Bytes := do
  let w ← bits? w
  let x ← bits? x
  let y ← bits? y
  if y % 4 = 0 then
    some [UInt8.ofNat (w * 4 + x / 16), UInt8.ofNat (x % 16 * 16 + y / 4)]
  else none

/-- The three octets of a full group. -/
def group? (w x y z : Char) : Option Bytes := do
  let w ← bits? w
  let x ← bits? x
  let y ← bits? y
  let z ← bits? z
  return [UInt8.ofNat (w * 4 + x / 16), UInt8.ofNat (x % 16 * 16 + y / 4),
    UInt8.ofNat (y % 4 * 64 + z)]

def decodeChars : List Char → Option Bytes
  | [] => some []
  | [w, x, '=', '='] => lastOctet? w x
  | [w, x, y, '='] => lastOctets? w x y
  | w :: x :: y :: z :: rest => do
    let group ← group? w x y z
    let bytes ← decodeChars rest
    return group ++ bytes
  | _ => none

def encode (bytes : Bytes) : String := String.ofList (encodeChars bytes)

def decode? (text : String) : Option Bytes := decodeChars text.toList

/-! ## Faults -/

/-- Why a text does not read. Places are counted in octets. -/
inductive Fault where
  /-- An octet that may not stand at its place. -/
  | octet (place : Nat) (found : UInt8)
  /-- A text of so many octets whose last group is one letter. -/
  | length (octets : Nat)
  /-- A last letter with bits that its group leaves unused. -/
  | lastLetter (place : Nat) (found : UInt8)
  /-- A last group that is not filled up to four. -/
  | padding
  deriving DecidableEq, Repr

def Fault.shown : Fault → String
  | .octet place found => "InvalidByte(" ++ toString place ++ ", " ++ toString found ++ ")"
  | .length octets => "InvalidLength(" ++ toString octets ++ ")"
  | .lastLetter place found =>
    "InvalidLastSymbol(" ++ toString place ++ ", " ++ toString found ++ ")"
  | .padding => "InvalidPadding"

/-- The octet that fills up a group. -/
def fill : UInt8 := 61

def isLetter (octet : UInt8) : Bool := (bits? (Char.ofNat octet.toNat)).isSome

/-- The fault of a last group that starts at a place. -/
def lastGroupFault (start : Nat) (group : Bytes) : Fault :=
  let letters := group.takeWhile isLetter
  let stop := start + letters.length
  match group.dropWhile isLetter with
  | [] => if letters.length < 2 then .length stop else .padding
  | found :: rest =>
    if found ≠ fill || letters.length < 2 || rest.any (· ≠ fill) then .octet stop found
    else if group.length < 4 then .padding
    else .lastLetter (stop - 1) (letters.getLastD found)

/-- The fault of octets that do not read. A last octet that is alone in its group and no letter
comes first, then the first octet that is no letter before the last group. -/
def faultOf (octets : Bytes) : Fault :=
  let start := (octets.length - 1) / 4 * 4
  let group := octets.drop start
  match group with
  | [found] =>
    if found ≠ fill && !isLetter found then .octet start found else firstFault start group
  | _ => firstFault start group
where
  firstFault (start : Nat) (group : Bytes) : Fault :=
    match octets.zipIdx.find? fun (octet, place) => place < start && !isLetter octet with
    | some (found, place) => .octet place found
    | none => lastGroupFault start group

/-- Read a text, or tell why it does not read. -/
def decode (text : String) : Except Fault Bytes :=
  match decode? text with
  | some bytes => .ok bytes
  | none => .error (faultOf (Bytes.ofText text))

end SealedDrive.Base64
