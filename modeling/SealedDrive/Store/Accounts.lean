import SealedDrive.Store.Credentials

/-!
Credentials by account name, sorted by name, so equal tables are equal lists. A table is written as
one JSON object; when a name stands twice in what is read, the last entry counts.
-/

namespace SealedDrive

structure Accounts where
  entries : List (String × Credentials) := []
  sorted : entries.Pairwise fun a b => a.1 < b.1 := by exact List.Pairwise.nil
  deriving DecidableEq

namespace Accounts

def empty : Accounts := {}

def find? (accounts : Accounts) (name : String) : Option Credentials :=
  accounts.entries.lookup name

def contains (accounts : Accounts) (name : String) : Bool := (accounts.find? name).isSome

def names (accounts : Accounts) : List String := accounts.entries.map (·.1)

/-! ## Insertion -/

/-- Put an entry into a sorted list, in place of the one with its name. -/
def insertEntry (name : String) (credentials : Credentials) :
    List (String × Credentials) → List (String × Credentials)
  | [] => [(name, credentials)]
  | entry :: rest =>
    if name < entry.1 then (name, credentials) :: entry :: rest
    else if name = entry.1 then (name, credentials) :: rest
    else entry :: insertEntry name credentials rest

theorem mem_insertEntry {name : String} {credentials : Credentials}
    {entries : List (String × Credentials)} {entry : String × Credentials}
    (h : entry ∈ insertEntry name credentials entries) :
    entry = (name, credentials) ∨ entry ∈ entries := by
  induction entries with
  | nil => simpa [insertEntry] using h
  | cons first rest ih =>
    unfold insertEntry at h
    split at h
    · simpa using h
    · split at h
      · rcases List.mem_cons.1 h with h | h
        · exact .inl h
        · exact .inr (List.mem_cons_of_mem _ h)
      · rcases List.mem_cons.1 h with h | h
        · exact .inr (h ▸ List.mem_cons_self)
        · exact (ih h).imp id (List.mem_cons_of_mem _)

theorem pairwise_insertEntry {name : String} {credentials : Credentials}
    {entries : List (String × Credentials)} (h : entries.Pairwise fun a b => a.1 < b.1) :
    (insertEntry name credentials entries).Pairwise fun a b => a.1 < b.1 := by
  induction entries with
  | nil => simp [insertEntry]
  | cons first rest ih =>
    obtain ⟨below, h⟩ := List.pairwise_cons.1 h
    unfold insertEntry
    split
    · rename_i lt
      refine List.pairwise_cons.2 ⟨fun entry mem => ?_, List.pairwise_cons.2 ⟨below, h⟩⟩
      rcases List.mem_cons.1 mem with rfl | mem
      · exact lt
      · exact String.lt_trans lt (below entry mem)
    · rename_i notLt
      split
      · rename_i eq
        exact List.pairwise_cons.2 ⟨fun entry mem => eq ▸ below entry mem, h⟩
      · rename_i ne
        refine List.pairwise_cons.2 ⟨fun entry mem => ?_, ih h⟩
        rcases mem_insertEntry mem with rfl | mem
        · exact Std.lt_of_le_of_ne (Std.not_lt.1 notLt) (Ne.symm ne)
        · exact below entry mem

def insert (accounts : Accounts) (name : String) (credentials : Credentials) : Accounts :=
  ⟨insertEntry name credentials accounts.entries, pairwise_insertEntry accounts.sorted⟩

def erase (accounts : Accounts) (name : String) : Accounts :=
  ⟨accounts.entries.filter (·.1 ≠ name), accounts.sorted.filter _⟩

/-! ## As JSON -/

def toObject (accounts : Accounts) : Json :=
  .record (accounts.entries.map fun (name, credentials) => (name, toJson credentials))

/-- Read the members of an object, the first one first. -/
def addMembers (accounts : Accounts) : List (Option String × Json) → Option Accounts
  | [] => some accounts
  | (name, value) :: rest => do
    let name ← name
    let credentials ← Credentials.ofObject? 2 value
    addMembers (accounts.insert name credentials) rest

def ofObject? : Json → Option Accounts
  | .object members => addMembers empty members
  | _ => none

instance : JsonForm Accounts := ⟨toObject, ofObject?⟩

end Accounts
end SealedDrive
