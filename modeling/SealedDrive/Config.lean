import SealedDrive.Error
import SealedDrive.Listing.Config

/-!
The settings of a client: which account, where the credentials lie, the bound on network phases
and how shares are listed.
-/

namespace SealedDrive

open Json (FieldReader)

structure DriveConfig where
  /-- The account whose credentials are restored. -/
  account : String := "default"
  /-- The file of credentials; absent for the one in the cache directory. -/
  sessionFile : Option String := none
  /-- Bound on each network phase of restore and login, and on each walk and child listing of the
  sessions they give. -/
  timeoutSecs : UInt64 := 60
  lister : ListerConfig := {}
  deriving DecidableEq, Repr

namespace DriveConfig

def appName : String := "pdrive"

def sessionFileName : String := "sessions.json"

/-- The path of a name below a directory. -/
def joinPath (directory name : String) : String :=
  if directory.isEmpty || directory.endsWith "/" then directory ++ name
  else directory ++ "/" ++ name

/-- The cache directory: the one the environment names when that is absolute, else the one in the
home directory. -/
def cacheDirectory (home : String) (cacheHome : Option String) : String :=
  match cacheHome.filter (·.startsWith "/") with
  | some directory => directory
  | none => joinPath home ".cache"

/-- Where the credentials lie, given the cache directory. -/
def sessionFilePath (config : DriveConfig) (cache : String) : String :=
  match config.sessionFile with
  | some path => path
  | none => joinPath (joinPath cache appName) sessionFileName

def timeout (config : DriveConfig) : Span := .ofSeconds config.timeoutSecs.toNat

def shown (config : DriveConfig) : String :=
  Text.shownRecord "DriveConfig" [("account", Text.quoted config.account),
    ("session_file", Text.shownOption Text.quoted config.sessionFile),
    ("timeout_secs", toString config.timeoutSecs.toNat), ("lister", config.lister.shown)]

instance : JsonForm DriveConfig where
  toJson config := .record
    [("account", .text config.account), ("session_file", .ofOption .text config.sessionFile),
      ("timeout_secs", toJson config.timeoutSecs), ("lister", toJson config.lister)]
  ofJson? j :=
    (do return ⟨← .withDefault "default", ← .optionalOrNone, ← .withDefault 60,
      ← .withDefault {}⟩ : FieldReader DriveConfig).readFrom
      (j.slots? ["account", "session_file", "timeout_secs", "lister"])

end DriveConfig
end SealedDrive
