import SealedDrive.Text.Printable

/-!
Texts in quotes, for messages: what cannot be shown is written as an escape, so a quoted text
stands on one line. Lists of fields and optional values are shown around quoted texts.
-/

namespace SealedDrive.Text

/-- One character inside the quotes. -/
def quoteChar (c : Char) : String :=
  match c with
  | '\x00' => "\\0"
  | '\t' => "\\t"
  | '\n' => "\\n"
  | '\r' => "\\r"
  | '"' => "\\\""
  | '\\' => "\\\\"
  | c =>
    if isPrintable c then c.toString
    else "\\u\x7b" ++ String.ofList (Nat.toDigits 16 c.toNat) ++ "\x7d"

/-- A text between quotes. -/
def quoted (s : String) : String :=
  "\"" ++ String.join (s.toList.map quoteChar) ++ "\""

/-- An optional value: the word for its absence, or the value in parentheses. -/
def shownOption {α : Type} (present : α → String) : Option α → String
  | none => "None"
  | some a => "Some(" ++ present a ++ ")"

/-- A name with its fields in braces. -/
def shownRecord (name : String) (fields : List (String × String)) : String :=
  name ++ " \x7b " ++ ", ".intercalate (fields.map fun (field, value) => field ++ ": " ++ value)
    ++ " \x7d"

def shownList (items : List String) : String := "[" ++ ", ".intercalate items ++ "]"

end SealedDrive.Text
