import SealedDrive.Drive.Resolve
import SealedDrive.Listing.Round

/-!
Volumes, and all shares of a session at once.
-/

namespace SealedDrive

variable {τ : Type}

abbrev ShareListing := Gathered OpenShare

namespace Session

/-- Load one share. -/
def share (service : Service τ) (session : Session) (shareId : String) :
    Activity τ (Except DriveError OpenShare) :=
  (Share.load session shareId).run.carryAlone service

/-- The metadata of all shares. -/
def listMetadata (service : Service τ) (all : Bool) :
    Activity τ (Except DriveError (List ShareMetadata)) :=
  (service (.listShares all)).map fun reply => reply.mapError .api

/-- Load each of the given shares once. -/
def fetchShares [Crowded τ] (service : Service τ) (session : Session) (config : ListerConfig)
    (cancelAfter : Option Nat) (ids : List String) (patience : Nat := Fetch.patience) :
    Activity τ (Except DriveError ShareListing) :=
  Fetch.whileCancelling cancelAfter fun cancelAfter =>
    Fetch.run (session.share service) config cancelAfter ids patience

/-- The ids of the shares to load, of one volume only when one is named. -/
def wantedIds (volumeId : Option String) (metadata : List ShareMetadata) : List String :=
  (metadata.filter fun share =>
    match volumeId with
    | none => true
    | some id => share.volumeId = id).map (·.shareId)

/-- Ask for the metadata of all shares, then load those that are wanted. The deadline does not
cover the first request, and a cancellation meanwhile is noticed after it. -/
def listSharesWith [Crowded τ] (service : Service τ) (session : Session) (config : ListerConfig)
    (cancelAfter : Option Nat) (volumeId : Option String) (all : Bool)
    (patience : Nat := Fetch.patience) : Activity τ (Except DriveError ShareListing) :=
  Fetch.whileCancelling cancelAfter fun cancelAfter =>
    ((listMetadata service all).timed 0).bind fun (metadata, spent) =>
      match metadata with
      | .error error => .done (.error error)
      | .ok metadata =>
        Fetch.run (session.share service) config (cancelAfter.map (· - spent))
          (wantedIds volumeId metadata) patience

/-- Load every share with the session's settings. -/
def listShares [Crowded τ] (service : Service τ) (session : Session) (volumeId : Option String)
    (all : Bool) (patience : Nat := Fetch.patience) : Activity τ (Except DriveError ShareListing) :=
  session.listSharesWith service session.lister none volumeId all patience

/-- The shares that loaded, in listing order, and the failures beside them. -/
def listShareRoots [Crowded τ] (service : Service τ) (session : Session) (all : Bool)
    (patience : Nat := Fetch.patience) :
    Activity τ (Except DriveError (List OpenShare × List (String × DriveError))) :=
  (session.listShares service none all patience).map fun listing =>
    listing.map fun listing => (listing.inRequestOrder, listing.failures)

/-- Walk on inside a share; a miss names the share too. -/
def walkShare (service : Service τ) (opened : OpenShare) (name : String) (rest : List String)
    (all : Bool) : Activity τ (Except DriveError (OpenShare × Link)) :=
  let walk := (Link.walk opened.share all [] opened.arena.rootLink rest).run.carry service
  (walk.holding opened.arena).map fun
    | (.ok link, arena) => .ok ({ opened with arena }, link)
    | (.error (.fileNotFound missing), _) => .error (.fileNotFound (name ++ "/" ++ missing))
    | (.error error, _) => .error error

/-- Find the share whose root has the first name of a path, and walk on there. -/
def resolveNames [Crowded τ] (service : Service τ) (session : Session) (name : String)
    (rest : List String) (all : Bool) (patience : Nat := Fetch.patience) :
    Activity τ (Except DriveError (OpenShare × Link)) :=
  (session.listShareRoots service all patience).bind fun
    | .error error => .done (.error error)
    | .ok (shares, failures) =>
      match shares.find? (·.arena.root.name = name) with
      | some opened => walkShare service opened name rest all
      | none =>
        match failures with
        | [] => .done (.error (.fileNotFound name))
        | (_, first) :: _ => .done (.error first)

/-- Resolve a path whose first name is that of a share's root. When no loaded share has it and
some share failed to load, the first of those failures is the answer, since the share asked for
may be among them. -/
def resolve [Crowded τ] (service : Service τ) (session : Session) (path : String) (all : Bool)
    (patience : Nat := Fetch.patience) : Activity τ (Except DriveError (OpenShare × Link)) :=
  match Path.segments path with
  | .error error => .done (.error error)
  | .ok [] => .done (.error (.invalidPath path))
  | .ok (name :: rest) =>
    session.bounded (session.resolveNames service name rest all patience)

end Session

/-- A volume and the session it was opened with. -/
structure Volume where
  session : Session
  record : VolumeRecord
  deriving DecidableEq

namespace Volume

def id (volume : Volume) : String := volume.record.volumeId

def shown (volume : Volume) : String :=
  Text.shownRecord "Volume" [("record", volume.record.shown)]

/-- The metadata of the shares on a volume. -/
def listMetadata (service : Service τ) (volume : Volume) (all : Bool) :
    Activity τ (Except DriveError (List ShareMetadata)) :=
  (Session.listMetadata service all).map fun metadata =>
    metadata.map fun shares => shares.filter (·.volumeId = volume.id)

/-- The metadata of one share, absent when it is not on the volume. -/
def metadata (service : Service τ) (volume : Volume) (shareId : String) (all : Bool) :
    Activity τ (Except DriveError (Option ShareMetadata)) :=
  (volume.listMetadata service all).map fun metadata =>
    metadata.map fun shares => shares.find? (·.shareId = shareId)

/-- Load a share, absent when it belongs to another volume. -/
def share (service : Service τ) (volume : Volume) (shareId : String) :
    Activity τ (Except DriveError (Option OpenShare)) :=
  (volume.session.share service shareId).map fun opened =>
    opened.map fun opened => if opened.share.volumeId = volume.id then some opened else none

/-- Load every share on a volume. -/
def shares [Crowded τ] (service : Service τ) (volume : Volume) (all : Bool) :
    Activity τ (Except DriveError ShareListing) :=
  volume.session.listShares service (some volume.id) all

/-- Load the main share of a volume. -/
def mainShare (service : Service τ) (volume : Volume) :
    Activity τ (Except DriveError OpenShare) :=
  volume.session.share service volume.record.shareId

end Volume

namespace Session

def volumes (service : Service τ) (session : Session) :
    Activity τ (Except DriveError (List Volume)) :=
  (service .listVolumes).map fun
    | .ok records => .ok (List.map (fun record : VolumeRecord => ⟨session, record⟩) records)
    | .error error => .error (.api error)

def volume (service : Service τ) (session : Session) (volumeId : String) :
    Activity τ (Except DriveError Volume) :=
  (service (.getVolume volumeId)).map fun
    | .ok record => .ok ⟨session, record⟩
    | .error error => .error (.api error)

end Session
end SealedDrive
