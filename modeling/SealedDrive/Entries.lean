/-!
Values by name, as lists that keep the order in which the names came up.
-/

namespace SealedDrive

/-- Set the entry of a key; entries keep the place of their first setting. -/
def setEntry {α : Type} (key : String) (value : α) : List (String × α) → List (String × α)
  | [] => [(key, value)]
  | (k, v) :: rest => if k = key then (key, value) :: rest else (k, v) :: setEntry key value rest

end SealedDrive
