import SealedDrive.Toml.Text
import SealedDrive.Toml.Basic

/-!
Writing settings as a TOML document: entries with a text or an integer on a line each, then
sections of such entries, each under a header and behind an empty line.
-/

namespace SealedDrive.Toml

/-- A value that is written behind its name. -/
inductive Scalar where
  | text (value : String)
  | integer (value : Int)
  deriving DecidableEq, Repr

abbrev Entries := List (String × Scalar)

/-- Settings without a section, then those of each section. -/
structure Sheet where
  entries : Entries
  sections : List (String × Entries)
  deriving DecidableEq, Repr

namespace Scalar

def toToml : Scalar → Toml
  | text value => .text value
  | integer value => .integer value

/-- Whether a value can be written; integers have a range. -/
def isWritable : Scalar → Bool
  | text _ => true
  | integer value => isInRange value

def write : Scalar → List Char
  | text value => writeText value.toList
  | integer value => (toString value).toList

end Scalar

namespace Sheet

/-- The entries that the document stands for. -/
def toTable (sheet : Sheet) : List (String × Toml) :=
  let plain (entries : Entries) : List (String × Toml) :=
    entries.map fun (name, value) => (name, value.toToml)
  plain sheet.entries ++ sheet.sections.map fun (name, entries) => (name, .table (plain entries))

def writeEntries (entries : Entries) : List Char :=
  entries.flatMap fun (name, value) => name.toList ++ [' ', '=', ' '] ++ value.write ++ ['\n']

/-- A header and its entries. -/
def writeSection (name : String) (entries : Entries) : List Char :=
  '[' :: (name.toList ++ [']', '\n'] ++ writeEntries entries)

/-- Sections, each behind an empty line unless nothing stands before it. -/
def writeSections (first : Bool) : List (String × Entries) → List Char
  | [] => []
  | (name, entries) :: rest =>
    (if first then [] else ['\n']) ++ writeSection name entries ++ writeSections false rest

/-- Whether every value can be written. -/
def isWritable (sheet : Sheet) : Bool :=
  sheet.entries.all (·.2.isWritable) && sheet.sections.all (·.2.all (·.2.isWritable))

def write (sheet : Sheet) : List Char :=
  writeEntries sheet.entries ++ writeSections sheet.entries.isEmpty sheet.sections

/-- The document, when every value can be written. -/
def text? (sheet : Sheet) : Option String :=
  if sheet.isWritable then some (String.ofList sheet.write) else none

end Sheet
end SealedDrive.Toml
