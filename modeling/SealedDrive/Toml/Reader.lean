import SealedDrive.Toml.Number
import SealedDrive.Toml.Text
import SealedDrive.Toml.Tree

/-!
Reading TOML documents. A document is read line by line into statements, which then make up its
tables; a name that is defined twice makes the whole document unreadable.
-/

namespace SealedDrive.Toml

/-! ## Blanks and comments -/

def isBlank (c : Char) : Bool := c = ' ' || c = '\t'

def skipBlanks (s : List Char) : List Char := s.dropWhile isBlank

/-- Skip a comment up to the end of its line. -/
def skipComment : List Char → List Char
  | '#' :: rest => rest.dropWhile isPlain
  | s => s

/-- Skip a line break; the end of the text counts as one. -/
def skipLineBreak : List Char → Option (List Char)
  | [] => some []
  | '\n' :: rest => some rest
  | '\r' :: '\n' :: rest => some rest
  | _ => none

/-- Skip what may stand behind a statement on its line. -/
def endLine (s : List Char) : Option (List Char) := skipLineBreak (skipComment (skipBlanks s))

/-- Skip blanks, line breaks and comments, as they may stand inside an array. -/
def skipSpace : (comment : Bool) → List Char → List Char
  | _, [] => []
  | _, '\n' :: rest => skipSpace false rest
  | _, '\r' :: '\n' :: rest => skipSpace false rest
  | true, c :: rest => if isPlain c then skipSpace true rest else c :: rest
  | false, '#' :: rest => skipSpace true rest
  | false, c :: rest => if isBlank c then skipSpace false rest else c :: rest

/-! ## Names -/

/-- What a name without marks consists of. -/
def isBare (c : Char) : Bool :=
  isDigit c || ('a' ≤ c && c ≤ 'z') || ('A' ≤ c && c ≤ 'Z') || c = '-' || c = '_'

def readName (s : List Char) : Option (String × List Char) :=
  match readShortText s with
  | some (cs, rest) => some (String.ofList cs, rest)
  | none =>
    let name := s.takeWhile isBare
    if name.isEmpty then none else some (String.ofList name, s.dropWhile isBare)

/-- Names with dots between them, as far as `fuel` reaches. -/
def readNames : Nat → List Char → Option (List String × List Char)
  | 0, _ => none
  | fuel + 1, s => do
    let (name, rest) ← readName (skipBlanks s)
    match skipBlanks rest with
    | '.' :: rest =>
      let (names, rest) ← readNames fuel rest
      return (name :: names, rest)
    | rest => return ([name], rest)

/-- A path of names; it may not be longer than tables may lie inside each other. -/
def readPath (s : List Char) : Option (List String × List Char) := readNames (nestingLimit - 1) s

/-! ## Values -/

mutual
/-- Read one value inside `depth` arrays and inline tables; `fuel` bounds the steps. -/
def readValue : (fuel depth : Nat) → List Char → Option (Toml × List Char)
  | 0, _, _ => none
  | fuel + 1, depth, s =>
    match s with
    | 't' :: 'r' :: 'u' :: 'e' :: rest => some (.boolean true, rest)
    | 'f' :: 'a' :: 'l' :: 's' :: 'e' :: rest => some (.boolean false, rest)
    | '[' :: rest =>
      if depth + 1 < nestingLimit then
        (readItems fuel (depth + 1) rest).map fun (items, rest) => (.array items, rest)
      else none
    | '\x7b' :: rest =>
      if depth + 1 < nestingLimit then
        match skipBlanks rest with
        | '\x7d' :: rest => some (.table [], rest)
        | rest => do
          let (entries, rest) ← readEntries fuel (depth + 1) rest
          let drafts ← Drafts.ofEntries entries
          return (.table (Draft.finishEntries drafts), rest)
      else none
    | s =>
      match readText s with
      | some (cs, rest) => some (.text (String.ofList cs), rest)
      | none => readNumber s

/-- Read the items of an array up to its closing bracket; a comma may stand behind the last one. -/
def readItems : (fuel depth : Nat) → List Char → Option (List Toml × List Char)
  | 0, _, _ => none
  | fuel + 1, depth, s =>
    match skipSpace false s with
    | ']' :: rest => some ([], rest)
    | s => do
      let (item, rest) ← readValue fuel depth s
      match skipSpace false rest with
      | ',' :: rest =>
        let (items, rest) ← readItems fuel depth rest
        return (item :: items, rest)
      | ']' :: rest => return ([item], rest)
      | _ => none

/-- Read the entries of an inline table up to its closing brace. -/
def readEntries : (fuel depth : Nat) → List Char → Option (List (List String × Toml) × List Char)
  | 0, _, _ => none
  | fuel + 1, depth, s => do
    let (path, rest) ← readPath s
    let rest ← expect '=' rest
    let (value, rest) ← readValue fuel depth (skipBlanks rest)
    match skipBlanks rest with
    | ',' :: rest =>
      let (entries, rest) ← readEntries fuel depth rest
      return ((path, value) :: entries, rest)
    | '\x7d' :: rest => return ([(path, value)], rest)
    | _ => none
end

/-! ## Documents -/

/-- Read the path of a header up to its closing bracket. -/
def readHeader (s : List Char) : Option (List String × List Char) := do
  let (path, rest) ← readPath s
  let rest ← expect ']' rest
  return (path, rest)

/-- Read a statement, without what may stand behind it on its line. -/
def readStatement : List Char → Option (Statement × List Char)
  | '[' :: '[' :: rest => do
    let (path, rest) ← readHeader rest
    let rest ← expect ']' rest
    return (.itemHeader path, rest)
  | '[' :: rest => do
    let (path, rest) ← readHeader rest
    return (.header path, rest)
  | s => do
    let (path, rest) ← readPath s
    let rest ← expect '=' rest
    let (value, rest) ← readValue (rest.length + 1) 0 (skipBlanks rest)
    return (.entry path value, rest)

/-- Read the lines of a document, as far as `fuel` reaches. -/
def readLines : Nat → List Char → Option (List Statement)
  | 0, _ => none
  | fuel + 1, s =>
    let s := skipBlanks s
    if s.isEmpty then some []
    else
      match endLine s with
      | some rest => readLines fuel rest
      | none => do
        let (statement, rest) ← readStatement s
        let rest ← endLine rest
        let statements ← readLines fuel rest
        return statement :: statements

/-- A mark of the encoding at the start does not count. -/
def dropMark : List Char → List Char
  | '\ufeff' :: rest => rest
  | s => s

/-- The entries of a whole document. -/
def read? (document : String) : Option (List (String × Toml)) := do
  let s := dropMark document.toList
  let statements ← readLines (s.length + 1) s
  Construction.ofStatements statements

end SealedDrive.Toml
