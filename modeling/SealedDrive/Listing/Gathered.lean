import SealedDrive.Error
import SealedDrive.Listing.Config

/-!
What a listing has brought together: the values that loaded, each with its place among the
requests, and the failures beside them, both in the order in which they came in.
-/

namespace SealedDrive

structure Gathered (α : Type) where
  /-- Loaded values with their positions, in the order they finished. -/
  loaded : List (Nat × α) := []
  /-- Ids that failed, and why. -/
  failures : List (String × DriveError) := []
  /-- How many workers the listing ran with. -/
  workers : Nat := 0
  deriving DecidableEq

namespace Gathered

variable {α β : Type}

def isComplete (g : Gathered α) : Bool := g.failures.isEmpty

/-- The loaded values in the order of the requests. -/
def inRequestOrder (g : Gathered α) : List α :=
  (g.loaded.mergeSort fun a b => a.1 ≤ b.1).map (·.2)

/-- The text shown for a listing counts what loaded and names what failed. -/
def shown (g : Gathered α) : String :=
  Text.shownRecord "ShareListing" [("shares", toString g.loaded.length),
    ("failures", Text.shownList (g.failures.map fun (id, error) =>
      "(" ++ Text.quoted id ++ ", " ++ error.shown ++ ")")),
    ("workers", toString g.workers)]

end Gathered
end SealedDrive
