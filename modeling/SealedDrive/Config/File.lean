import SealedDrive.Config
import SealedDrive.Store.Disk
import SealedDrive.Toml.Reader
import SealedDrive.Toml.Sheet

/-!
Settings as a TOML file. Settings that are left out have their defaults, settings of other names do
not matter. An absent file stands for the defaults; an absent setting is not written.
-/

namespace SealedDrive

/-! ## Values -/

namespace Toml

def ofText? : Toml → Option String
  | .text value => some value
  | _ => none

/-- A count is an integer that is not negative. -/
def ofCount? : Toml → Option UInt64
  | .integer value => if 0 ≤ value then some (UInt64.ofNat value.toNat) else none
  | _ => none

/-- Whether a value holds nothing. -/
def isEmpty : Toml → Bool
  | .table [] | .array [] => true
  | _ => false

/-- A setting with a default, which also stands for a setting that is left out. -/
def setting? {α : Type} (read? : Toml → Option α) (default : α) : Option Toml → Option α
  | none => some default
  | some value => read? value

/-- A setting that may be left out. -/
def optional? {α : Type} (read? : Toml → Option α) (found : Option Toml) : Option (Option α) :=
  setting? (fun value => (read? value).map some) none found

end Toml

namespace ListPolicy

/-- A policy by its name, or by a table with its name and nothing in it. -/
def ofToml? : Toml → Option ListPolicy
  | .text name => ofName? name
  | .table [(name, value)] => if value.isEmpty then ofName? name else none
  | _ => none

end ListPolicy

namespace ListerConfig

/-- The settings of a listing, given what is found for each of them. -/
def ofFields? (maxWorkers policy deadline : Option Toml) : Option ListerConfig := do
  let maxWorkers ← Toml.setting? Toml.ofCount? 10 maxWorkers
  let policy ← Toml.setting? ListPolicy.ofToml? .bestEffort policy
  let deadlineSecs ← Toml.optional? Toml.ofCount? deadline
  return { maxWorkers, policy, deadlineSecs }

/-- The settings of a listing from a table, or from an array of them in order. A date has no
settings. -/
def ofToml? : Toml → Option ListerConfig
  | .table entries =>
    ofFields? (entries.lookup "max_workers") (entries.lookup "policy")
      (entries.lookup "deadline_secs")
  | .array items => ofFields? items[0]? items[1]? items[2]?
  | .dateTime _ => some {}
  | _ => none

def entries (config : ListerConfig) : Toml.Entries :=
  [("max_workers", .integer config.maxWorkers.toNat), ("policy", .text config.policy.name)]
    ++ (config.deadlineSecs.map fun n => ("deadline_secs", Toml.Scalar.integer n.toNat)).toList

end ListerConfig

namespace DriveConfig

/-- The settings in the entries of a document. -/
def ofEntries? (entries : List (String × Toml)) : Option DriveConfig := do
  let account ← Toml.setting? Toml.ofText? "default" (entries.lookup "account")
  let sessionFile ← Toml.optional? Toml.ofText? (entries.lookup "session_file")
  let timeoutSecs ← Toml.setting? Toml.ofCount? 60 (entries.lookup "timeout_secs")
  let lister ← Toml.setting? ListerConfig.ofToml? {} (entries.lookup "lister")
  return { account, sessionFile, timeoutSecs, lister }

/-- The settings in a document. -/
def ofToml? (document : String) : Option DriveConfig := (Toml.read? document).bind ofEntries?

def sheet (config : DriveConfig) : Toml.Sheet where
  entries :=
    [("account", .text config.account)]
      ++ (config.sessionFile.map fun path => ("session_file", Toml.Scalar.text path)).toList
      ++ [("timeout_secs", .integer config.timeoutSecs.toNat)]
  sections := [("lister", config.lister.entries)]

/-- The settings as a document, unless a number is too great for one. -/
def toToml? (config : DriveConfig) : Option String := config.sheet.text?

/-! ## Files -/

/-- Load the settings from a file. -/
def load (disk : Disk) (path : DiskPath) : Except ConfigError DriveConfig :=
  match disk.read path with
  | .error .absent => .ok {}
  | .error .refused => .error .io
  | .ok bytes =>
    match Bytes.text? bytes with
    | none => .error .io
    | some document =>
      match ofToml? document with
      | some config => .ok config
      | none => .error .malformed

/-- Save the settings to a file, and make the folders that are missing on the way to it. -/
def save (config : DriveConfig) (path : DiskPath) (disk : Disk) :
    Except ConfigError Unit × Disk :=
  match disk.makeFolder path.parent with
  | (.error _, disk) => (.error .io, disk)
  | (.ok (), disk) =>
    match config.toToml? with
    | none => (.error .unwritable, disk)
    | some document =>
      let (answer, disk) := disk.write path (Bytes.ofText document)
      (answer.mapError fun _ => .io, disk)

end DriveConfig
end SealedDrive
