import SealedDrive.Json.Basic
import SealedDrive.Text.Hex

/-!
Reading JSON text. The grammar is the strict one: no comments, no trailing commas, no control
characters inside strings, nothing but blanks after the value.
-/

namespace SealedDrive.Json

/-- The blanks of the grammar. -/
def isBlank (c : Char) : Bool := c = ' ' || c = '\t' || c = '\n' || c = '\r'

def skipBlanks (s : List Char) : List Char := s.dropWhile isBlank

/-! ## Strings -/

/-- The code unit that four hexadecimal digits stand for. -/
def unit? (a b c d : Char) : Option Nat := do
  let a ← Hex.value? a
  let b ← Hex.value? b
  let c ← Hex.value? c
  let d ← Hex.value? d
  return ((a * 16 + b) * 16 + c) * 16 + d

def isHighHalf (unit : Nat) : Bool := 0xD800 ≤ unit && unit < 0xDC00

def isLowHalf (unit : Nat) : Bool := 0xDC00 ≤ unit && unit < 0xE000

/-- The character of a surrogate pair. -/
def joinHalves (high low : Nat) : Char :=
  Char.ofNat (0x10000 + (high - 0xD800) * 0x400 + (low - 0xDC00))

/-- The character a one-letter escape stands for. -/
def escaped? : Char → Option Char
  | '"' => some '"'
  | '\\' => some '\\'
  | '/' => some '/'
  | 'b' => some '\x08'
  | 'f' => some '\x0c'
  | 'n' => some '\n'
  | 'r' => some '\r'
  | 't' => some '\t'
  | _ => none

/-- Read a string after its opening quote as code points and halves of surrogate pairs, which only
escapes can write. -/
def readUnits : List Char → Option (List Nat × List Char)
  | [] => none
  | '"' :: rest => some ([], rest)
  | '\\' :: 'u' :: a :: b :: c :: d :: rest => do
    let unit ← unit? a b c d
    let (units, rest) ← readUnits rest
    return (unit :: units, rest)
  | '\\' :: c :: rest => do
    let e ← escaped? c
    let (units, rest) ← readUnits rest
    return (e.toNat :: units, rest)
  | c :: rest =>
    if c < ' ' then none
    else do
      let (units, rest) ← readUnits rest
      return (c.toNat :: units, rest)

/-- Join the surrogate pairs; a half on its own makes the whole string unreadable. -/
def joinUnits : List Nat → Option (List Char)
  | [] => some []
  | high :: low :: rest =>
    if isHighHalf high then
      if isLowHalf low then (joinUnits rest).map (joinHalves high low :: ·) else none
    else if isLowHalf high then none
    else (joinUnits (low :: rest)).map (Char.ofNat high :: ·)
  | [unit] => if isHighHalf unit || isLowHalf unit then none else some [Char.ofNat unit]

/-- Read a string after its opening quote, as a text. -/
def readString (s : List Char) : Option (Option String × List Char) := do
  let (units, rest) ← readUnits s
  return ((joinUnits units).map String.ofList, rest)

/-! ## Numbers -/

def isDigit (c : Char) : Bool := '0' ≤ c && c ≤ '9'

/-- The digits at the front, and the text after them. -/
def readDigits (s : List Char) : List Char × List Char := (s.takeWhile isDigit, s.dropWhile isDigit)

def digitsValue (digits : List Char) : Nat :=
  digits.foldl (fun n c => n * 10 + (c.toNat - 48)) 0

/-- Append digits to a number as long as it has at most 64 bits; the number, and how many digits
are left out. -/
def appendDigits (n : Nat) : List Char → Nat × Nat
  | [] => (n, 0)
  | c :: rest =>
    let longer := n * 10 + (c.toNat - 48)
    if longer < 2 ^ 64 then appendDigits longer rest else (n, rest.length + 1)

/-- The digits after a decimal point; none when there is no point. -/
def readFraction : List Char → Option (Option (List Char) × List Char)
  | '.' :: s =>
    let (digits, rest) := readDigits s
    if digits.isEmpty then none else some (some digits, rest)
  | s => some (none, s)

/-- The power of ten after a number; none when there is no exponent. -/
def readExponent : List Char → Option (Option Int × List Char)
  | c :: s =>
    if c = 'e' || c = 'E' then
      let (negative, s) :=
        match s with
        | '-' :: s => (true, s)
        | '+' :: s => (false, s)
        | s => (false, s)
      let (digits, rest) := readDigits s
      if digits.isEmpty then none
      else
        let power : Int := digitsValue digits
        some (some (if negative then -power else power), rest)
    else some (none, c :: s)
  | [] => some (none, [])

/-- Read a number without its sign. Digits of the whole part that are left out still count as
places, digits of the fraction do not. -/
def readMagnitude (negative : Bool) (s : List Char) : Option (Json × List Char) := do
  let (whole, s) := readDigits s
  if whole.isEmpty || (whole.head? = some '0' && 1 < whole.length) then none
  else
    let (fraction, s) ← readFraction s
    let (power, s) ← readExponent s
    let signed (magnitude : Nat) : Int := if negative then -magnitude else magnitude
    let (number, dropped) := appendDigits 0 whole
    if fraction.isNone && power.isNone && dropped = 0 && !(negative && number = 0) then
      return (.integer (signed number), s)
    else
      let places := fraction.getD []
      let (number, ignored) := appendDigits number places
      return (.decimal (signed number) (power.getD 0 + dropped - (places.length - ignored)), s)

/-! ## Values -/

mutual
/-- Read one value; `fuel` bounds the nesting. -/
def readValue : Nat → List Char → Option (Json × List Char)
  | 0, _ => none
  | fuel + 1, s =>
    match skipBlanks s with
    | 'n' :: 'u' :: 'l' :: 'l' :: rest => some (.null, rest)
    | 't' :: 'r' :: 'u' :: 'e' :: rest => some (.bool true, rest)
    | 'f' :: 'a' :: 'l' :: 's' :: 'e' :: rest => some (.bool false, rest)
    | '"' :: rest => (readString rest).map fun (text, rest) => (.string text, rest)
    | '[' :: rest =>
      match skipBlanks rest with
      | ']' :: rest => some (.array [], rest)
      | rest => (readItems fuel rest).map fun (items, rest) => (.array items, rest)
    | '\x7b' :: rest =>
      match skipBlanks rest with
      | '\x7d' :: rest => some (.object [], rest)
      | rest => (readMembers fuel rest).map fun (members, rest) => (.object members, rest)
    | '-' :: rest => readMagnitude true rest
    | rest => readMagnitude false rest

/-- Read the items of an array up to its closing bracket. -/
def readItems : Nat → List Char → Option (List Json × List Char)
  | 0, _ => none
  | fuel + 1, s =>
    match readValue fuel s with
    | none => none
    | some (item, rest) =>
      match skipBlanks rest with
      | ']' :: rest => some ([item], rest)
      | ',' :: rest => (readItems fuel rest).map fun (items, rest) => (item :: items, rest)
      | _ => none

/-- Read the members of an object up to its closing brace. -/
def readMembers : Nat → List Char → Option (List (Option String × Json) × List Char)
  | 0, _ => none
  | fuel + 1, s =>
    match skipBlanks s with
    | '"' :: rest =>
      match readString rest with
      | none => none
      | some (name, rest) =>
        match skipBlanks rest with
        | ':' :: rest =>
          match readValue fuel rest with
          | none => none
          | some (value, rest) =>
            match skipBlanks rest with
            | '\x7d' :: rest => some ([(name, value)], rest)
            | ',' :: rest =>
              (readMembers fuel rest).map fun (members, rest) => ((name, value) :: members, rest)
            | _ => none
        | _ => none
    | _ => none
end

/-- Read a whole text as one value. -/
def readList (s : List Char) : Option Json := do
  let (value, rest) ← readValue (s.length + 1) s
  if (skipBlanks rest).isEmpty then some value else none

def read? (s : String) : Option Json := readList s.toList

end SealedDrive.Json
