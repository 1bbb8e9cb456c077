import SealedDrive.Json.Basic
import SealedDrive.Text.Hex

/-!
Writing JSON text, on one line without blanks or indented by two blanks for each level. Only the
quote, the backslash and the controls below U+0020 are escaped.
-/

namespace SealedDrive.Json

/-- One character of a string. -/
def writeChar (c : Char) : List Char :=
  match c with
  | '"' => ['\\', '"']
  | '\\' => ['\\', '\\']
  | '\x08' => ['\\', 'b']
  | '\x0c' => ['\\', 'f']
  | '\n' => ['\\', 'n']
  | '\r' => ['\\', 'r']
  | '\t' => ['\\', 't']
  | c =>
    if c < ' ' then ['\\', 'u', '0', '0', Hex.digit (c.toNat / 16), Hex.digit (c.toNat % 16)]
    else [c]

/-- A string in its quotes; one that is no text is written empty. -/
def writeString (text : Option String) : List Char :=
  '"' :: ((text.getD "").toList.flatMap writeChar ++ ['"'])

def writeInteger (value : Int) : List Char := (toString value).toList

mutual
/-- A value on one line. -/
def write : Json → List Char
  | .null => ['n', 'u', 'l', 'l']
  | .bool true => ['t', 'r', 'u', 'e']
  | .bool false => ['f', 'a', 'l', 's', 'e']
  | .integer value => writeInteger value
  | .decimal mantissa exponent => writeInteger mantissa ++ 'e' :: writeInteger exponent
  | .string text => writeString text
  | .array items => '[' :: (writeItems items ++ [']'])
  | .object members => '\x7b' :: (writeMembers members ++ ['\x7d'])

def writeItems : List Json → List Char
  | [] => []
  | [item] => write item
  | item :: rest => write item ++ ',' :: writeItems rest

def writeMembers : List (Option String × Json) → List Char
  | [] => []
  | [(name, value)] => writeString name ++ ':' :: write value
  | (name, value) :: rest => writeString name ++ ':' :: (write value ++ ',' :: writeMembers rest)
end

/-- The start of a new line inside `level` arrays and objects. -/
def newLine (level : Nat) : List Char := '\n' :: List.replicate (2 * level) ' '

mutual
/-- A value over several lines, where `level` arrays and objects are open around it. -/
def writeLines (level : Nat) : Json → List Char
  | .array [] => ['[', ']']
  | .object [] => ['\x7b', '\x7d']
  | .array items => '[' :: (writeItemLines (level + 1) items ++ newLine level ++ [']'])
  | .object members =>
    '\x7b' :: (writeMemberLines (level + 1) members ++ newLine level ++ ['\x7d'])
  | .null => write .null
  | .bool value => write (.bool value)
  | .integer value => write (.integer value)
  | .decimal mantissa exponent => write (.decimal mantissa exponent)
  | .string text => write (.string text)

def writeItemLines (level : Nat) : List Json → List Char
  | [] => []
  | [item] => newLine level ++ writeLines level item
  | item :: rest => newLine level ++ writeLines level item ++ ',' :: writeItemLines level rest

def writeMemberLines (level : Nat) : List (Option String × Json) → List Char
  | [] => []
  | [(name, value)] => newLine level ++ writeString name ++ ':' :: ' ' :: writeLines level value
  | (name, value) :: rest =>
    newLine level ++ writeString name ++ ':' :: ' ' ::
      (writeLines level value ++ ',' :: writeMemberLines level rest)
end

def compact (value : Json) : String := String.ofList (write value)

def pretty (value : Json) : String := String.ofList (writeLines 0 value)

end SealedDrive.Json
