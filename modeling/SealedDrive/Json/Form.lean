import SealedDrive.Json.Basic

/-!
The JSON form of a type: how its values are written and which values read as one. A record is
written as an object with its fields in order; it is read from an object, in which unknown members
are skipped and no known member may stand twice, or from an array of its fields in order. A record
with a flattened part is written as one object and read from an object only.
-/

namespace SealedDrive

/-- How the values of a type are written as JSON and read back. -/
class JsonForm (α : Type) where
  toJson : α → Json
  ofJson? : Json → Option α

export JsonForm (toJson ofJson?)

namespace Json

/-! ## Plain values -/

def ofText? : Json → Option String
  | .string text => text
  | _ => none

def ofBool? : Json → Option Bool
  | .bool value => some value
  | _ => none

/-- An integer within the given bounds. -/
def ofInteger? (low high : Int) : Json → Option Int
  | .integer value => if low ≤ value ∧ value ≤ high then some value else none
  | _ => none

instance : JsonForm String := ⟨.text, ofText?⟩

instance : JsonForm Bool := ⟨.bool, ofBool?⟩

instance : JsonForm UInt8 where
  toJson n := .integer n.toNat
  ofJson? j := (ofInteger? 0 0xff j).map fun n => UInt8.ofNat n.toNat

instance : JsonForm UInt32 where
  toJson n := .integer n.toNat
  ofJson? j := (ofInteger? 0 0xffffffff j).map fun n => UInt32.ofNat n.toNat

instance : JsonForm UInt64 where
  toJson n := .integer n.toNat
  ofJson? j := (ofInteger? 0 0xffffffffffffffff j).map fun n => UInt64.ofNat n.toNat

instance : JsonForm Int64 where
  toJson n := .integer n.toInt
  ofJson? j := (ofInteger? (-0x8000000000000000) 0x7fffffffffffffff j).map Int64.ofInt

instance {α : Type} [JsonForm α] : JsonForm (List α) where
  toJson items := .array (items.map toJson)
  ofJson? j :=
    match j with
    | .array items => items.mapM ofJson?
    | _ => none

/-- The variants of an enumeration by name; a variant may also be an object of its name and null. -/
def ofVariant? {α : Type} (variant? : String → Option α) : Json → Option α
  | .string (some name) => variant? name
  | .object [(some name, .null)] => variant? name
  | _ => none

/-! ## Fields -/

/-- What a record holds for one field. -/
inductive Slot where
  | given (value : Json)
  /-- The object has no such member. -/
  | omitted
  /-- The array ends before the field. -/
  | missing

/-- Look up the known names among the members; none of them may stand twice. -/
def slotsOf (names : List String) (members : List (Option String × Json)) : Option (List Slot) :=
  names.mapM fun name =>
    match members.filter (fun member => member.1 = some name) with
    | [] => some .omitted
    | [(_, value)] => some (.given value)
    | _ => none

/-- The fields of a record, from an object or from an array. -/
def slots? (names : List String) : Json → Option (List Slot)
  | .object members => if members.all (·.1.isSome) then slotsOf names members else none
  | .array items =>
    if items.length ≤ names.length then
      some (items.map .given ++ List.replicate (names.length - items.length) .missing)
    else none
  | _ => none

/-- Arrays and objects may lie this deep inside each other in a value that is held before its
meaning is known. -/
def depthLimit : Nat := 127

/-- The fields of a record with a flattened part: its own names first, then those of the part.
The members that are not its own are held until the part has been read; `level` counts the arrays
and objects around them, the record's own object included. -/
def flatSlots? (level : Nat) (names flat : List String) : Json → Option (List Slot)
  | .object members => do
    let own := members.filter fun member => names.any fun name => member.1 = some name
    let held := members.filter fun member => !names.any fun name => member.1 = some name
    if held.all fun (name, value) =>
        name.isSome && isSound value && depth value + level ≤ depthLimit then
      let ownSlots ← slotsOf names own
      let flatSlots ← slotsOf flat held
      return ownSlots ++ flatSlots
    else none
  | _ => none

/-! ## Reading the fields in order -/

/-- Takes the fields of a record one after the other. -/
abbrev FieldReader := StateT (List Slot) Option

namespace FieldReader

def next : FieldReader Slot := do
  match ← get with
  | [] => failure
  | slot :: rest => set rest; return slot

/-- A field that has to be there. -/
def required {α : Type} [JsonForm α] : FieldReader α := do
  match ← next with
  | .given value =>
    match ofJson? value with
    | some a => return a
    | none => failure
  | _ => failure

/-- A value that may be null. -/
def nullable {α : Type} [JsonForm α] (value : Json) : FieldReader (Option α) :=
  match value with
  | .null => return none
  | value =>
    match ofJson? value with
    | some a => return some a
    | none => failure

/-- A field that may be null and that an object may omit. -/
def optional {α : Type} [JsonForm α] : FieldReader (Option α) := do
  match ← next with
  | .given value => nullable value
  | .omitted => return none
  | .missing => failure

/-- A field with a default. -/
def withDefault {α : Type} [JsonForm α] (default : α) : FieldReader α := do
  match ← next with
  | .given value =>
    match ofJson? value with
    | some a => return a
    | none => failure
  | _ => return default

/-- A field that may be null and is taken as null when it is left out. -/
def optionalOrNone {α : Type} [JsonForm α] : FieldReader (Option α) := do
  match ← next with
  | .given value => nullable value
  | _ => return none

/-- Read all fields from their slots. -/
def readFrom {α : Type} (reader : FieldReader α) (slots : Option (List Slot)) : Option α := do
  let slots ← slots
  let (a, _) ← reader slots
  return a

end FieldReader
end Json
end SealedDrive
