import SealedDrive.Json.Form
import SealedDrive.Text.Quoted
import SealedDrive.Text.Span

/-!
How many shares are loaded at once: the number of workers, what a failing share means for the
others, and the bound on a whole listing.
-/

namespace SealedDrive

open Json (FieldReader)

/-- What to do when one share of a listing fails. -/
inductive ListPolicy where
  /-- Go on and report the failure beside the shares that loaded. -/
  | bestEffort
  /-- Stop the others and answer the error. -/
  | failFast
  deriving DecidableEq, Repr

namespace ListPolicy

def name : ListPolicy → String
  | .bestEffort => "best_effort"
  | .failFast => "fail_fast"

def ofName? : String → Option ListPolicy
  | "best_effort" => some .bestEffort
  | "fail_fast" => some .failFast
  | _ => none

def shown : ListPolicy → String
  | .bestEffort => "BestEffort"
  | .failFast => "FailFast"

instance : JsonForm ListPolicy where
  toJson policy := .text policy.name
  ofJson? := Json.ofVariant? ofName?

end ListPolicy

structure ListerConfig where
  maxWorkers : UInt64 := 10
  policy : ListPolicy := .bestEffort
  /-- Bound on a whole listing; absent for none. -/
  deadlineSecs : Option UInt64 := none
  deriving DecidableEq, Repr

namespace ListerConfig

def deadline (config : ListerConfig) : Option Span :=
  config.deadlineSecs.map fun secs => .ofSeconds secs.toNat

def shown (config : ListerConfig) : String :=
  Text.shownRecord "ListerConfig" [("max_workers", toString config.maxWorkers.toNat),
    ("policy", config.policy.shown),
    ("deadline_secs", Text.shownOption (fun n => toString n.toNat) config.deadlineSecs)]

instance : JsonForm ListerConfig where
  toJson config := .record
    [("max_workers", toJson config.maxWorkers), ("policy", toJson config.policy),
      ("deadline_secs", .ofOption toJson config.deadlineSecs)]
  ofJson? j :=
    (do return ⟨← .withDefault 10, ← .withDefault .bestEffort, ← .optionalOrNone⟩ :
      FieldReader ListerConfig).readFrom (j.slots? ["max_workers", "policy", "deadline_secs"])

end ListerConfig
end SealedDrive
