import SealedDrive.Server.Account
import SealedDrive.Server.Serve

/-!
A test bench around the drive in memory. It writes down every request, can delay it, fail it or
crash whoever asked, and can lay patches over the records on their way out.
-/

namespace SealedDrive

/-- What happens to a request in place of an answer. -/
inductive Mishap where
  | fail (error : ApiError)
  | crash
  deriving DecidableEq, Repr

/-- A rule for the requests of one method, or of one method about one subject. -/
structure Fault where
  method : String
  subject : Option String
  /-- How long the request is held up; absent to go on at once. -/
  delay : Option Nat
  /-- Absent for a request that is delayed only. -/
  mishap : Option Mishap
  deriving DecidableEq, Repr

def Fault.hits (fault : Fault) (request : Request) : Bool :=
  fault.method = request.method &&
    match fault.subject with
    | none => true
    | some subject => subject = request.subject

/-- Changes to the records of one kind with one id. -/
structure Patch where
  kind : String
  id : String
  changes : Json

structure Bench where
  account : Account
  /-- The requests so far, the oldest first. -/
  log : List String := []
  faults : List Fault := []
  patches : List Patch := []

namespace Bench

def server (b : Bench) : Server := b.account.server

def setServer (server : Server) (b : Bench) : Bench :=
  { b with account := { b.account with server } }

/-- How a request is written down. -/
def entry (request : Request) : String :=
  if request.subject.isEmpty then request.method else request.method ++ " " ++ request.subject

/-- Take the log and begin a new one. -/
def takeLog (b : Bench) : List String × Bench := (b.log, { b with log := [] })

/-! ## Patches -/

/-- Lay the patches for one record over it, the oldest first. -/
def patched {α : Type} [JsonForm α] (b : Bench) (kind id : String) (a : α) : α :=
  let matching := b.patches.filter fun patch => patch.kind = kind && patch.id = id
  if matching.isEmpty then a
  else
    let merged := matching.foldl (fun value patch => value.merge patch.changes) (toJson a)
    (ofJson? merged).getD a

def patchUser (b : Bench) (user : User) : User := b.patched "user" "" user

def patchAddress (b : Bench) (address : Address) : Address :=
  b.patched "address" address.id address

def patchSalt (b : Bench) (salt : Salt) : Salt := b.patched "salt" salt.id salt

def patchVolume (b : Bench) (volume : VolumeRecord) : VolumeRecord :=
  b.patched "volume" volume.volumeId volume

def patchMetadata (b : Bench) (share : ShareMetadata) : ShareMetadata :=
  b.patched "share_metadata" share.shareId share

def patchShare (b : Bench) (shareId : String) (share : ShareRecord) : ShareRecord :=
  b.patched "share" shareId share

def patchLink (b : Bench) (linkId : String) (link : LinkRecord) : LinkRecord :=
  b.patched "link" linkId link

/-- Patch the records in an answer. A link is patched under the id it was asked for, the links of a
listing each under their own. -/
def patchAnswer (b : Bench) : (request : Request) → request.Answer → request.Answer
  | .login _ _, auth => auth
  | .submitTwoFactor _, u => u
  | .resume _, u => u
  | .revoke _, u => u
  | .getUser, user => b.patchUser user
  | .getAddresses, addresses => List.map b.patchAddress addresses
  | .getSalts, salts => List.map b.patchSalt salts
  | .listVolumes, volumes => List.map b.patchVolume volumes
  | .getVolume _, volume => b.patchVolume volume
  | .listShares _, shares => List.map b.patchMetadata shares
  | .getShare shareId, share => b.patchShare shareId share
  | .getLink _ linkId, link => b.patchLink linkId link
  | .listChildren _ _ _, links =>
    List.map (fun link : LinkRecord => b.patchLink link.linkId link) links

/-! ## Serving -/

/-- The drive itself, without the bench's doing. -/
def direct : Service Bench := fun request => (Server.serve request).focus server setServer

/-- Let the drive answer and patch what it answers. -/
def pass (request : Request) : Activity Bench request.Reply :=
  (direct request).bind fun reply =>
    .read fun b => .done (reply.map (b.patchAnswer request))

def meet (request : Request) : Option Mishap → Activity Bench request.Reply
  | none => pass request
  | some (.fail error) => .done (.error error)
  | some .crash => .crash

/-- Write the request down, then let the first fault that hits it have its way. -/
def serve : Service Bench := fun request =>
  .read fun b => .write { b with log := b.log ++ [entry request] } <|
    match b.faults.find? (·.hits request) with
    | none => pass request
    | some fault =>
      match fault.delay with
      | none => meet request fault.mishap
      | some millis => (Server.delay millis).bind fun _ => meet request fault.mishap

end Bench
end SealedDrive
