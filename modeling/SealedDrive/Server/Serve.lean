import SealedDrive.Server.State

/-!
How the drive in memory answers requests. Loading a share and listing children take time; all
other requests are answered at once.
-/

namespace SealedDrive.Server

/-- Thirty years: a request that is to be kept waiting for longer waits for so long. -/
def longestDelay : Nat := 30 * 365 * 24 * 60 * 60 * 1000

/-- Keep a request waiting, as long as it was told or as it can. -/
def delay {σ : Type} (millis : Nat) (leave : Leaving → σ → σ := fun _ => id) : Activity σ Unit :=
  Activity.sleep (min millis longestDelay) leave

/-- Answer at once from the state, and change it. -/
def atOnce {α : Type} (f : Server → α × Server) : Activity Server α :=
  .read fun s => let (a, s') := f s; .write s' (.done a)

/-- Answer a request for data at once. -/
def lookUp {α : Type} (f : Server → Except ApiError α) : Activity Server (Except ApiError α) :=
  .read fun s => .done (s.guarded (f s))

/-- The wait of a share load: the latency, or one turn when there is none. -/
def shareWait {α : Type} (latency : Option Nat) (next : Activity Server α) : Activity Server α :=
  match latency with
  | none => .wait 0 leaveFlight next
  | some millis => (delay millis leaveFlight).bind fun _ => next

/-- Load a share: the session is checked first, and the share is looked up after the wait. -/
def loadShare (shareId : String) : Activity Server (Except ApiError ShareRecord) :=
  .read fun s =>
    if s.isAuthorized then
      .write (s.countShareCall shareId).enterFlight <|
        shareWait s.latency <| .read fun s =>
          .write (s.leaveFlight (.atOnce 0)) (.done (s.findShare shareId))
    else .done (.error .unauthorized)

/-- List children: the wait comes first. -/
def loadChildren (shareId linkId : String) (all : Bool) :
    Activity Server (Except ApiError (List LinkRecord)) :=
  .read fun s =>
    let listing := lookUp fun s => s.findChildren shareId linkId all
    match s.childrenLatency with
    | none => listing
    | some millis => (delay millis).bind fun _ => listing

/-- The answer to every request. -/
def serve : Service Server
  | .login username password => atOnce fun s => s.login username password
  | .submitTwoFactor code => atOnce fun s => s.submitTwoFactor code
  | .resume tokens => atOnce fun s => s.resume tokens
  | .revoke uid => atOnce fun s => s.revoke uid
  | .getUser => lookUp fun s => .ok s.user
  | .getAddresses => lookUp fun s => .ok s.addresses
  | .getSalts => lookUp fun s => .ok s.salts
  | .listVolumes => lookUp fun s => .ok s.volumes
  | .getVolume volumeId => lookUp fun s => s.findVolume volumeId
  | .listShares all => lookUp fun s => .ok (s.listShares all)
  | .getShare shareId => loadShare shareId
  | .getLink shareId linkId => lookUp fun s => s.findLink shareId linkId
  | .listChildren shareId linkId all => loadChildren shareId linkId all

end SealedDrive.Server
