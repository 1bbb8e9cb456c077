/-!
TOML values. A table keeps its entries in order, and no name stands twice in it. Numbers that are
no integers, dates and times are kept as they were written.
-/

namespace SealedDrive

inductive Toml where
  | text (value : String)
  | integer (value : Int)
  /-- A number with a fraction or an exponent, an infinity, or no number. -/
  | float (written : String)
  | boolean (value : Bool)
  /-- A date, a time of day, or both. -/
  | dateTime (written : String)
  | array (items : List Toml)
  | table (entries : List (String × Toml))
  deriving Inhabited

namespace Toml

/-- Integers lie from here … -/
def lowest : Int := -0x8000000000000000

/-- … to here. -/
def highest : Int := 0x7fffffffffffffff

def isInRange (n : Int) : Bool := lowest ≤ n && n ≤ highest

/-- A path of names stays below this length, and so does the nesting of arrays and inline tables. -/
def nestingLimit : Nat := 80

end Toml
end SealedDrive
