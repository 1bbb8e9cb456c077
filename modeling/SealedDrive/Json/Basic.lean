import SealedDrive.Double

/-!
JSON values. An object keeps its members in order, repeated names included. A string is absent
(`none`) when it was written with one half of a surrogate pair, because no text holds that; such a
string may be skipped but not read. A number is an integer when it is written as one and has at
most 64 bits; all others are decimals, negative zero among them.
-/

namespace SealedDrive

inductive Json where
  | null
  | bool (value : Bool)
  | integer (value : Int)
  /-- The number `mantissa` times ten to the power `exponent`. -/
  | decimal (mantissa exponent : Int)
  | string (text : Option String)
  | array (items : List Json)
  | object (members : List (Option String × Json))
  deriving Inhabited

namespace Json

/-- An object with the given members. -/
def record (members : List (String × Json)) : Json :=
  .object (members.map fun (name, value) => (some name, value))

/-- A text as a JSON string. -/
def text (s : String) : Json := .string (some s)

/-- Absent values are written as `null`. -/
def ofOption {α : Type} (write : α → Json) : Option α → Json
  | none => .null
  | some a => write a

/-! ## Nesting and range -/

mutual
/-- How many arrays and objects lie inside each other. -/
def depth : Json → Nat
  | .array items => depthItems items + 1
  | .object members => depthMembers members + 1
  | _ => 0

def depthItems : List Json → Nat
  | [] => 0
  | item :: rest => max (depth item) (depthItems rest)

def depthMembers : List (Option String × Json) → Nat
  | [] => 0
  | (_, value) :: rest => max (depth value) (depthMembers rest)
end

mutual
/-- Whether a value can be held before its meaning is known: every string is a text, and every
number has a finite double. -/
def isSound : Json → Bool
  | .decimal mantissa exponent => Double.isFiniteByParts mantissa.natAbs exponent
  | .string text => text.isSome
  | .array items => isSoundItems items
  | .object members => isSoundMembers members
  | _ => true

def isSoundItems : List Json → Bool
  | [] => true
  | item :: rest => isSound item && isSoundItems rest

def isSoundMembers : List (Option String × Json) → Bool
  | [] => true
  | (name, value) :: rest => name.isSome && isSound value && isSoundMembers rest
end

/-! ## Merging -/

mutual
/-- Lay a patch over a value: objects are merged member by member, any other value replaces. -/
def merge (base : Json) : Json → Json
  | .object patch =>
    match base with
    | .object members => .object (mergeMembers members patch)
    | _ => .object patch
  | patch => patch

def mergeMembers (members : List (Option String × Json)) :
    List (Option String × Json) → List (Option String × Json)
  | [] => members
  | (name, value) :: rest =>
    match members.lookup name with
    | none => mergeMembers (members ++ [(name, value)]) rest
    | some old =>
      let merged := merge old value
      mergeMembers
        (members.map fun member => if member.1 = name then (name, merged) else member) rest
end

end Json
end SealedDrive
