import SealedDrive.Keyring
import SealedDrive.Request

/-!
A drive held in memory for one account: its users' records, the server sessions, and what the
drive has been told to fail or to delay.
-/

namespace SealedDrive

structure Server where
  username : String
  password : String
  passwordMode : PasswordMode
  twoFactorCode : Option String
  /-- Access tokens of the open sessions, by uid. -/
  sessions : List (String × String) := []
  /-- The session that requests belong to. -/
  current : Option String := none
  awaitingTwoFactor : Bool := false
  /-- How many sessions were ever opened. The number has no end here, where a counter of 64 bits
  would come round after as many sessions as no run opens. -/
  issued : Nat := 0
  failRevoke : Bool := false
  user : User
  addresses : List Address := []
  salts : List Salt := []
  volumes : List VolumeRecord := []
  shares : List ShareRecord := []
  /-- The links of each share, in the server's order. -/
  links : List (String × List LinkRecord) := []
  failingShares : List String := []
  /-- How long loading a share takes; absent to give up the turn only. -/
  latency : Option Nat := none
  /-- How long listing children takes; absent to answer at once. -/
  childrenLatency : Option Nat := none
  /-- How often each share was asked for. -/
  shareCalls : List (String × Nat) := []
  inFlight : Nat := 0
  /-- How many of the loads in flight were called off and go at the next turn. -/
  departing : Nat := 0
  maxInFlight : Nat := 0

namespace Server

/-! ## Sessions -/

/-- Requests for data need a current session that is not waiting for its second factor. -/
def isAuthorized (s : Server) : Bool := s.current.isSome && !s.awaitingTwoFactor

/-- Open a session under fresh names. -/
def issueSession (s : Server) : Tokens × Server :=
  let number := toString (s.issued + 1)
  let tokens : Tokens := ⟨"uid-" ++ number, "access-" ++ number, "refresh-" ++ number⟩
  (tokens, { s with
    issued := s.issued + 1
    sessions := setEntry tokens.uid tokens.accessToken s.sessions })

def isActive (s : Server) (uid : String) : Bool := (s.sessions.lookup uid).isSome

def login (s : Server) (username password : String) : Except ApiError Auth × Server :=
  if s.username ≠ username ∨ s.password ≠ password then (.error .unauthorized, s)
  else
    let (tokens, s) := s.issueSession
    let twoFactor := s.twoFactorCode.isSome
    (.ok ⟨tokens, s.passwordMode, twoFactor⟩,
      { s with current := some tokens.uid, awaitingTwoFactor := twoFactor })

def submitTwoFactor (s : Server) (code : String) : Except ApiError Unit × Server :=
  if s.current.isNone ∨ s.twoFactorCode ≠ some code then (.error .unauthorized, s)
  else (.ok (), { s with awaitingTwoFactor := false })

def resume (s : Server) (tokens : Tokens) : Except ApiError Unit × Server :=
  if s.sessions.lookup tokens.uid = some tokens.accessToken then
    (.ok (), { s with current := some tokens.uid, awaitingTwoFactor := false })
  else (.error .unauthorized, s)

def revoke (s : Server) (uid : String) : Except ApiError Unit × Server :=
  if s.failRevoke then (.error (.status 503 "service unavailable"), s)
  else if !s.isActive uid then (.error .unauthorized, s)
  else (.ok (), { s with
    sessions := s.sessions.filter (·.1 ≠ uid)
    current := if s.current = some uid then none else s.current })

/-! ## Records -/

/-- Answer a request for data, which needs an authorized session. -/
def guarded {α : Type} (s : Server) (answer : Except ApiError α) : Except ApiError α :=
  if s.isAuthorized then answer else .error .unauthorized

def orNotFound {α : Type} (what : String) : Option α → Except ApiError α
  | some a => .ok a
  | none => .error (.notFound what)

def findVolume (s : Server) (volumeId : String) : Except ApiError VolumeRecord :=
  orNotFound ("volume " ++ volumeId) (s.volumes.find? (·.volumeId = volumeId))

/-- The metadata of the shares; deleted ones only when all are asked for. -/
def listShares (s : Server) (all : Bool) : List ShareMetadata :=
  (s.shares.map (·.metadata)).filter fun share => all || share.state ≠ ShareState.deleted

def findShare (s : Server) (shareId : String) : Except ApiError ShareRecord :=
  if s.failingShares.contains shareId then
    .error (.status 500 ("share " ++ shareId ++ " unavailable"))
  else orNotFound ("share " ++ shareId) (s.shares.find? (·.metadata.shareId = shareId))

def findLink (s : Server) (shareId linkId : String) : Except ApiError LinkRecord :=
  orNotFound ("link " ++ linkId)
    ((s.links.lookup shareId).bind fun links => links.find? (·.linkId = linkId))

/-- The links of a share that name a parent; trashed ones only when all are asked for. -/
def findChildren (s : Server) (shareId linkId : String) (all : Bool) :
    Except ApiError (List LinkRecord) :=
  (orNotFound ("share " ++ shareId) (s.links.lookup shareId)).map fun links =>
    links.filter fun link => link.parentLinkId = some linkId && (all || !link.state.isTrashed)

/-! ## Loads in flight -/

def countShareCall (s : Server) (shareId : String) : Server :=
  { s with shareCalls :=
      setEntry shareId ((s.shareCalls.lookup shareId).getD 0 + 1) s.shareCalls }

def enterFlight (s : Server) : Server :=
  let now := s.inFlight + 1
  { s with inFlight := now, maxInFlight := max s.maxInFlight now }

def leaveFlight (how : Leaving) (s : Server) : Server :=
  match how with
  | .atOnce _ => { s with inFlight := s.inFlight - 1 }
  | .nextTurn => { s with departing := s.departing + 1 }

/-- The loads that were called off go. -/
def turn (s : Server) : Server :=
  { s with inFlight := s.inFlight - s.departing, departing := 0 }

def shareCallsOf (s : Server) (shareId : String) : Nat := (s.shareCalls.lookup shareId).getD 0

def totalShareCalls (s : Server) : Nat := s.shareCalls.foldr (fun call n => call.2 + n) 0

end Server
end SealedDrive
