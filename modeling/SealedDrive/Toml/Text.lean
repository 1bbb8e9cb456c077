import SealedDrive.Text.Hex

/-!
TOML strings. A text between quotes or triple quotes may hold escapes, a text between apostrophes
or triple apostrophes stands for itself. Triple marks may go over several lines. A text is written
in the plainest form that can hold it: without escapes if there is one, on one line if it has no
line break.
-/

namespace SealedDrive.Toml

/-- What a string and a comment may hold besides line breaks: no control characters but the
tab. -/
def isPlain (c : Char) : Bool := c = '\t' || (' ' ≤ c && c ≠ '\x7f')

/-! ## Reading -/

/-- The character a one-letter escape stands for. -/
def escaped? : Char → Option Char
  | 'b' => some '\x08'
  | 't' => some '\t'
  | 'n' => some '\n'
  | 'f' => some '\x0c'
  | 'r' => some '\r'
  | '"' => some '"'
  | '\\' => some '\\'
  | _ => none

/-- The character whose number some hexadecimal digits write. -/
def scalar? (digits : List Char) : Option Char := do
  let n ← digits.foldlM (fun n c => (Hex.value? c).map (16 * n + ·)) 0
  if n.isValidChar then return Char.ofNat n else none

/-- Read after an opening quote. -/
def readBasic : List Char → Option (List Char × List Char)
  | [] => none
  | '"' :: rest => some ([], rest)
  | '\\' :: 'u' :: a :: b :: c :: d :: rest => do
    let x ← scalar? [a, b, c, d]
    let (cs, rest) ← readBasic rest
    return (x :: cs, rest)
  | '\\' :: 'U' :: a :: b :: c :: d :: e :: f :: g :: h :: rest => do
    let x ← scalar? [a, b, c, d, e, f, g, h]
    let (cs, rest) ← readBasic rest
    return (x :: cs, rest)
  | '\\' :: c :: rest => do
    let x ← escaped? c
    let (cs, rest) ← readBasic rest
    return (x :: cs, rest)
  | c :: rest =>
    if isPlain c then do
      let (cs, rest) ← readBasic rest
      return (c :: cs, rest)
    else none

/-- Up to two more marks directly before the closing three belong to the text. -/
def closing (mark : Char) : List Char → List Char × List Char
  | a :: b :: rest =>
    if a = mark then if b = mark then ([mark, mark], rest) else ([mark], b :: rest)
    else ([], a :: b :: rest)
  | [a] => if a = mark then ([mark], []) else ([], [a])
  | [] => ([], [])

/-- Whether only blanks stand before the end of the line. -/
def endsLine : List Char → Bool
  | ' ' :: rest => endsLine rest
  | '\t' :: rest => endsLine rest
  | '\n' :: _ => true
  | '\r' :: '\n' :: _ => true
  | _ => false

/-- Read after three opening quotes. A backslash at the end of a line takes away the line break and
all blanks and line breaks after it; `folding` is set while they go by. -/
def readLongBasic : (folding : Bool) → List Char → Option (List Char × List Char)
  | _, [] => none
  | true, ' ' :: rest => readLongBasic true rest
  | true, '\t' :: rest => readLongBasic true rest
  | true, '\n' :: rest => readLongBasic true rest
  | true, '\r' :: '\n' :: rest => readLongBasic true rest
  | _, '"' :: '"' :: '"' :: rest => some (closing '"' rest)
  | _, '\\' :: 'u' :: a :: b :: c :: d :: rest => do
    let x ← scalar? [a, b, c, d]
    let (cs, rest) ← readLongBasic false rest
    return (x :: cs, rest)
  | _, '\\' :: 'U' :: a :: b :: c :: d :: e :: f :: g :: h :: rest => do
    let x ← scalar? [a, b, c, d, e, f, g, h]
    let (cs, rest) ← readLongBasic false rest
    return (x :: cs, rest)
  | _, '\\' :: c :: rest =>
    match escaped? c with
    | some x => do
      let (cs, rest) ← readLongBasic false rest
      return (x :: cs, rest)
    | none => if endsLine (c :: rest) then readLongBasic true (c :: rest) else none
  | _, '\r' :: '\n' :: rest => do
    let (cs, rest) ← readLongBasic false rest
    return ('\n' :: cs, rest)
  | _, c :: rest =>
    if c = '\n' || isPlain c then do
      let (cs, rest) ← readLongBasic false rest
      return (c :: cs, rest)
    else none

/-- Read after an opening apostrophe. -/
def readLiteral : List Char → Option (List Char × List Char)
  | [] => none
  | '\x27' :: rest => some ([], rest)
  | c :: rest =>
    if isPlain c then do
      let (cs, rest) ← readLiteral rest
      return (c :: cs, rest)
    else none

/-- Read after three opening apostrophes. -/
def readLongLiteral : List Char → Option (List Char × List Char)
  | [] => none
  | '\x27' :: '\x27' :: '\x27' :: rest => some (closing '\x27' rest)
  | '\r' :: '\n' :: rest => do
    let (cs, rest) ← readLongLiteral rest
    return ('\n' :: cs, rest)
  | c :: rest =>
    if c = '\n' || isPlain c then do
      let (cs, rest) ← readLongLiteral rest
      return (c :: cs, rest)
    else none

/-- A line break directly after three opening marks does not belong to the text. -/
def dropLineBreak : List Char → List Char
  | '\n' :: rest => rest
  | '\r' :: '\n' :: rest => rest
  | s => s

/-- Read a string on one line. -/
def readShortText : List Char → Option (List Char × List Char)
  | '"' :: rest => readBasic rest
  | '\x27' :: rest => readLiteral rest
  | _ => none

/-- Read a string of any of the four forms. -/
def readText : List Char → Option (List Char × List Char)
  | '"' :: '"' :: '"' :: rest => readLongBasic false (dropLineBreak rest)
  | '\x27' :: '\x27' :: '\x27' :: rest => readLongLiteral (dropLineBreak rest)
  | s => readShortText s

/-! ## Writing -/

/-- The four forms of a string. -/
inductive TextForm where
  | basic
  | literal
  | longBasic
  | longLiteral
  deriving DecidableEq, Repr

/-- The most marks in a row, where `run` of them stand directly before the text. -/
def longestRun (mark : Char) (run : Nat) : List Char → Nat
  | [] => run
  | c :: rest =>
    if c = mark then longestRun mark (run + 1) rest else max run (longestRun mark 0 rest)

/-- Whether a character can only be written as an escape. -/
def needsEscape (c : Char) : Bool := !isPlain c && c ≠ '\n'

/-- The plainest form that can hold a text. -/
def formOf (cs : List Char) : TextForm :=
  let controls := cs.any needsEscape
  let backslash := cs.contains '\\'
  let lineBreak := cs.contains '\n'
  let quotes := longestRun '"' 0 cs
  let apostrophes := longestRun '\x27' 0 cs
  if !controls && !backslash && quotes = 0 && !lineBreak then .basic
  else if !controls && apostrophes = 0 && !lineBreak then .literal
  else if !controls && !backslash && quotes ≤ 2 then .longBasic
  else if !controls && apostrophes ≤ 2 then .longLiteral
  else if lineBreak then .longBasic
  else .basic

def upperDigit (value : Nat) : Char := (Hex.digit value).toUpper

/-- A character between quotes. -/
def escape (c : Char) : List Char :=
  match c with
  | '\x08' => ['\\', 'b']
  | '\t' => ['\\', 't']
  | '\n' => ['\\', 'n']
  | '\x0c' => ['\\', 'f']
  | '\r' => ['\\', 'r']
  | '"' => ['\\', '"']
  | '\\' => ['\\', '\\']
  | c =>
    if isPlain c then [c]
    else ['\\', 'u', '0', '0', upperDigit (c.toNat / 16), upperDigit (c.toNat % 16)]

/-- A text between triple quotes: line breaks stand for themselves, and so do quotes, up to two in
a row. -/
def escapeLong (quotes : Nat) : List Char → List Char
  | [] => []
  | c :: rest =>
    if c = '\n' then '\n' :: escapeLong 0 rest
    else if c = '"' ∧ quotes < 2 then '"' :: escapeLong (quotes + 1) rest
    else escape c ++ escapeLong 0 rest

/-- A text that goes over several lines begins on a line of its own. -/
def ownLine (cs : List Char) : List Char := if cs.contains '\n' then ['\n'] else []

/-- A text in the plainest form that can hold it. -/
def writeText (cs : List Char) : List Char :=
  match formOf cs with
  | .basic => '"' :: (cs.flatMap escape ++ ['"'])
  | .literal => '\x27' :: (cs ++ ['\x27'])
  | .longBasic => ['"', '"', '"'] ++ ownLine cs ++ escapeLong 0 cs ++ ['"', '"', '"']
  | .longLiteral =>
    ['\x27', '\x27', '\x27'] ++ ownLine cs ++ cs ++ ['\x27', '\x27', '\x27']

end SealedDrive.Toml
