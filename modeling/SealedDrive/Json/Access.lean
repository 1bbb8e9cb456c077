import SealedDrive.Json.Form

/-!
Looking into JSON objects by member name. A member that is null counts as absent, and so does one
of another kind than the one asked for.
-/

namespace SealedDrive.Json

/-- The first member of a name. -/
def member? (j : Json) (name : String) : Option Json :=
  match j with
  | .object members =>
    match members.lookup (some name) with
    | some .null => none
    | found => found
  | _ => none

def has (j : Json) (name : String) : Bool := (j.member? name).isSome

def textAt? (j : Json) (name : String) : Option String := (j.member? name).bind ofText?

/-- A text that is empty when it is absent. -/
def textAt (j : Json) (name : String) : String := (j.textAt? name).getD ""

def integerAt? (j : Json) (name : String) : Option Int :=
  match j.member? name with
  | some (.integer n) => some n
  | _ => none

/-- A number that is zero when it is absent or negative. -/
def naturalAt (j : Json) (name : String) : Nat := ((j.integerAt? name).getD 0).toNat

/-- A truth value that is false when it is absent. -/
def flagAt (j : Json) (name : String) : Bool := ((j.member? name).bind ofBool?).getD false

/-- The items of an array, none when it is absent. -/
def itemsAt (j : Json) (name : String) : List Json :=
  match j.member? name with
  | some (.array items) => items
  | _ => []

/-- A value of a type with a JSON form. -/
def readAt? {α : Type} [JsonForm α] (j : Json) (name : String) : Option α :=
  (j.member? name).bind ofJson?

end SealedDrive.Json
