import SealedDrive.Double
import SealedDrive.Toml.Basic
import SealedDrive.Text.Hex

/-!
Reading TOML numbers, dates and times. Digits may be grouped by single underscores. A date names a
day that exists; a time may have a leap second and any number of decimals.
-/

namespace SealedDrive.Toml

def isDigit (c : Char) : Bool := '0' ≤ c && c ≤ '9'

/-! ## Numbers -/

/-- Digits with single underscores between them, and the text after them. -/
def grouped (isDigit : Char → Bool) : List Char → List Char × List Char
  | [] => ([], [])
  | [c] => if isDigit c then ([c], []) else ([], [c])
  | c :: d :: rest =>
    if isDigit c then
      let (digits, left) :=
        if d = '_' then
          match rest with
          | e :: _ => if isDigit e then grouped isDigit rest else ([], d :: rest)
          | [] => ([], d :: rest)
        else grouped isDigit (d :: rest)
      (c :: digits, left)
    else ([], c :: d :: rest)

/-- Digits, at least one. -/
def grouped? (isDigit : Char → Bool) (s : List Char) : Option (List Char × List Char) :=
  match grouped isDigit s with
  | ([], _) => none
  | found => some found

def valueOf (base : Nat) (digits : List Char) : Nat :=
  digits.foldl (fun n c => base * n + (Hex.value? c).getD 0) 0

/-- An optional sign, and whether it is a minus. -/
def readSign : List Char → Bool × List Char
  | '+' :: rest => (false, rest)
  | '-' :: rest => (true, rest)
  | s => (false, s)

/-- Decimal digits without a leading zero. -/
def readWhole : List Char → Option (List Char × List Char)
  | '0' :: rest => some (['0'], rest)
  | s => grouped? isDigit s

/-- The digits behind a decimal point. -/
def readFraction : List Char → Option (List Char × List Char)
  | '.' :: rest => grouped? isDigit rest
  | _ => none

/-- The power of ten behind an `e`. -/
def readPower : List Char → Option (Int × List Char)
  | c :: rest =>
    if c = 'e' || c = 'E' then do
      let (negative, rest) := readSign rest
      let (digits, rest) ← grouped? isDigit rest
      let power : Int := valueOf 10 digits
      return (if negative then -power else power, rest)
    else none
  | [] => none

/-- The part of a text that was read. -/
def writtenUpTo (s rest : List Char) : String := String.ofList (s.take (s.length - rest.length))

/-- A number with a fraction, an exponent or both; one that is too great for a double is refused
when it is positive. -/
def readDecimal (s : List Char) : Option (Toml × List Char) := do
  let (negative, afterSign) := readSign s
  let (whole, afterWhole) ← readWhole afterSign
  let (digits, afterFraction) := (readFraction afterWhole).getD ([], afterWhole)
  let (power, rest) := (readPower afterFraction).getD (0, afterFraction)
  if rest.length = afterWhole.length then none
  else if negative || Double.isFinite (valueOf 10 (whole ++ digits)) (power - digits.length) then
    return (.float (writtenUpTo s rest), rest)
  else none

/-- An infinity or no number, with an optional sign. -/
def readSpecial (s : List Char) : Option (Toml × List Char) :=
  match (readSign s).2 with
  | 'i' :: 'n' :: 'f' :: rest => some (.float (writtenUpTo s rest), rest)
  | 'n' :: 'a' :: 'n' :: rest => some (.float (writtenUpTo s rest), rest)
  | _ => none

def inRange? (n : Int) (rest : List Char) : Option (Toml × List Char) :=
  if isInRange n then some (.integer n, rest) else none

def isOctal (c : Char) : Bool := '0' ≤ c && c ≤ '7'

def isBinary (c : Char) : Bool := c = '0' || c = '1'

def isHexadecimal (c : Char) : Bool := (Hex.value? c).isSome

/-- The digits of a whole number of another base. -/
def readBased (base : Nat) (isDigit : Char → Bool) (s : List Char) : Option (Toml × List Char) := do
  let (digits, rest) ← grouped? isDigit s
  inRange? (valueOf base digits) rest

def readInteger : List Char → Option (Toml × List Char)
  | '0' :: 'x' :: rest => readBased 16 isHexadecimal rest
  | '0' :: 'o' :: rest => readBased 8 isOctal rest
  | '0' :: 'b' :: rest => readBased 2 isBinary rest
  | s => do
    let (negative, s) := readSign s
    let (digits, rest) ← readWhole s
    let n : Int := valueOf 10 digits
    inRange? (if negative then -n else n) rest

/-! ## Dates and times -/

/-- Exactly so many digits, with a value between two bounds. -/
def readField (width low high : Nat) (s : List Char) : Option (Nat × List Char) :=
  let digits := s.take width
  let n := valueOf 10 digits
  if digits.length = width && digits.all isDigit && low ≤ n && n ≤ high then some (n, s.drop width)
  else none

def expect (c : Char) : List Char → Option (List Char)
  | d :: rest => if d = c then some rest else none
  | [] => none

def isLeapYear (year : Nat) : Bool := year % 4 = 0 && (year % 100 ≠ 0 || year % 400 = 0)

def daysIn (year month : Nat) : Nat :=
  if month = 2 then if isLeapYear year then 29 else 28
  else if [4, 6, 9, 11].contains month then 30 else 31

/-- Read past a date. -/
def readDate (s : List Char) : Option (List Char) := do
  let (year, s) ← readField 4 0 9999 s
  let s ← expect '-' s
  let (month, s) ← readField 2 1 12 s
  let s ← expect '-' s
  let (_, s) ← readField 2 1 (daysIn year month) s
  return s

/-- Read past the decimals of a second, if there are any. -/
def readDecimals : List Char → List Char
  | '.' :: c :: rest => if isDigit c then rest.dropWhile isDigit else '.' :: c :: rest
  | s => s

/-- Read past hours and minutes. -/
def readMinutes (s : List Char) : Option (List Char) := do
  let (_, s) ← readField 2 0 23 s
  let s ← expect ':' s
  let (_, s) ← readField 2 0 59 s
  return s

/-- Read past a time of day. -/
def readTime (s : List Char) : Option (List Char) := do
  let s ← readMinutes s
  let s ← expect ':' s
  let (_, s) ← readField 2 0 60 s
  return readDecimals s

/-- Read past the distance from universal time. -/
def readOffset : List Char → Option (List Char)
  | c :: rest =>
    if c = 'Z' || c = 'z' then some rest
    else if c = '+' || c = '-' then readMinutes rest
    else none
  | [] => none

/-- Read past the time behind a date. -/
def readTimeOfDate : List Char → Option (List Char)
  | c :: rest =>
    if c = 'T' || c = 't' || c = ' ' then
      (readTime rest).map fun rest => (readOffset rest).getD rest
    else none
  | [] => none

def readDateTime (s : List Char) : Option (Toml × List Char) := do
  let rest ←
    match readDate s with
    | some rest => pure ((readTimeOfDate rest).getD rest)
    | none => readTime s
  return (.dateTime (writtenUpTo s rest), rest)

/-- A number, a date or a time. -/
def readNumber (s : List Char) : Option (Toml × List Char) :=
  readDateTime s <|> readDecimal s <|> readSpecial s <|> readInteger s

end SealedDrive.Toml
