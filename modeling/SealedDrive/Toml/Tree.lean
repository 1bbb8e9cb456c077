import SealedDrive.Toml.Basic

/-!
Tables under construction. The lines of a document name tables by path, and it matters how a table
came about: one that a header or an inline table defined is closed to dotted names, one that dotted
names made is closed to headers, and one that only stands on the way to a header may still get a
header of its own.
-/

namespace SealedDrive.Toml

/-- How a table came about. -/
inductive Origin where
  /-- By its own header, or as an element of an array of tables. -/
  | header
  /-- On the way to a header. -/
  | implied
  /-- By dotted names. -/
  | dotted
  deriving DecidableEq, Repr

/-- What stands under a name. -/
inductive Draft where
  | value (value : Toml)
  | table (origin : Origin) (entries : List (String × Draft))
  /-- An array of tables, each by its own header. -/
  | tables (items : List (List (String × Draft)))

abbrev Drafts := List (String × Draft)

namespace Draft

mutual
/-- The finished value. -/
def finish : Draft → Toml
  | .value found => found
  | .table _ entries => .table (finishEntries entries)
  | .tables items => .array (finishItems items)

def finishEntries : List (String × Draft) → List (String × Toml)
  | [] => []
  | (name, draft) :: rest => (name, finish draft) :: finishEntries rest

def finishItems : List (List (String × Draft)) → List Toml
  | [] => []
  | entries :: rest => .table (finishEntries entries) :: finishItems rest
end

end Draft

namespace Drafts

/-- Replace what stands under a name that is in use. -/
def replace (drafts : Drafts) (name : String) (draft : Draft) : Drafts :=
  drafts.map fun entry => if entry.1 = name then (name, draft) else entry

/-- Go down a path and change the table there. Tables that are missing are made on the way; of an
array of tables the last one is meant. Dotted names do not lead through a table that has been
defined. -/
def descend (dotted : Bool) (change : Origin → Drafts → Option Drafts) :
    (path : List String) → Origin → Drafts → Option Drafts
  | [], origin, drafts => change origin drafts
  | name :: rest, _, drafts =>
    match drafts.lookup name with
    | none =>
      let origin := if dotted then .dotted else .implied
      (descend dotted change rest origin []).map fun inner =>
        drafts ++ [(name, .table origin inner)]
    | some (.value _) => none
    | some (.table origin inner) =>
      if dotted && origin = .header then none
      else
        (descend dotted change rest origin inner).map fun inner =>
          drafts.replace name (.table origin inner)
    | some (.tables items) =>
      (descend dotted change rest .header (items.getLastD [])).map fun inner =>
        drafts.replace name (.tables (items.dropLast ++ [inner]))

/-- Add an entry under a dotted name. Only dotted names reach into tables that they made. -/
def addEntry (path : List String) (value : Toml) (drafts : Drafts) : Option Drafts :=
  match path.getLast? with
  | none => none
  | some name =>
    let way := path.dropLast
    descend true (fun origin drafts =>
      if !way.isEmpty && origin ≠ .dotted then none
      else if (drafts.lookup name).isSome then none
      else some (drafts ++ [(name, .value value)])) way .header drafts

/-- Define the table of a header. -/
def defineTable (name : String) (drafts : Drafts) : Option Drafts :=
  match drafts.lookup name with
  | none => some (drafts ++ [(name, .table .header [])])
  | some (.table .implied entries) => some (drafts.replace name (.table .header entries))
  | _ => none

/-- Add a table to an array of tables. -/
def defineItem (name : String) (drafts : Drafts) : Option Drafts :=
  match drafts.lookup name with
  | none => some (drafts ++ [(name, .tables [[]])])
  | some (.tables items) => some (drafts.replace name (.tables (items ++ [[]])))
  | _ => none

/-- Carry out a definition at the end of a header's path. -/
def addHeader (define : String → Drafts → Option Drafts) (path : List String) (drafts : Drafts) :
    Option Drafts :=
  match path.getLast? with
  | none => none
  | some name => descend false (fun _ drafts => define name drafts) path.dropLast .header drafts

/-- The inline table that some entries make. -/
def ofEntries (entries : List (List String × Toml)) : Option Drafts :=
  entries.foldlM (fun drafts (path, value) => drafts.addEntry path value) []

end Drafts

/-! ## Documents -/

/-- A line of a document that says something. -/
inductive Statement where
  | entry (path : List String) (value : Toml)
  | header (path : List String)
  | itemHeader (path : List String)
  deriving Inhabited

/-- What the lines so far have made, and the table they are in. -/
structure Construction where
  drafts : Drafts := []
  current : List String := []

namespace Construction

def add (c : Construction) : Statement → Option Construction
  | .entry path value =>
    (Drafts.descend false (fun _ drafts => drafts.addEntry path value) c.current .header
      c.drafts).map fun drafts => { c with drafts }
  | .header path =>
    (c.drafts.addHeader Drafts.defineTable path).map fun drafts => ⟨drafts, path⟩
  | .itemHeader path =>
    (c.drafts.addHeader Drafts.defineItem path).map fun drafts => ⟨drafts, path⟩

/-- The entries of a whole document. -/
def ofStatements (statements : List Statement) : Option (List (String × Toml)) :=
  (statements.foldlM add {}).map fun c => Draft.finishEntries c.drafts

end Construction
end SealedDrive.Toml
