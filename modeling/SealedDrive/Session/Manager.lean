import SealedDrive.Config
import SealedDrive.Session.Basic
import SealedDrive.Store.Basic

/-!
Restoring, creating and ending the session of one account. The network phase of each operation is
bounded by the time in the settings; the store is read before it and written after it, so a phase
that fails or runs out of time leaves the stored credentials as they were.
-/

namespace SealedDrive

structure SessionManager (σ : Type) where
  handle : StoreHandle σ
  config : DriveConfig

namespace SessionManager

variable {σ α : Type}

def shown (manager : SessionManager σ) : String :=
  Text.shownRecord "SessionManager" [("account", Text.quoted manager.handle.account),
    ("config", manager.config.shown)]

/-- Bound a network phase by the time in the settings. -/
def timed (manager : SessionManager σ) (phase : Activity σ (Except SessionError α)) :
    ExceptT SessionError (Activity σ) α :=
  let span := manager.config.timeout
  ExceptT.mk (phase.before span (.timedOut span))

/-! ## The store -/

/-- Ask the store. -/
def consult (ask : σ → Except StoreError α) : ExceptT SessionError (Activity σ) α :=
  ExceptT.mk (.read fun s => .done ((ask s).mapError .store))

/-- Change the store. -/
def change (act : σ → Except StoreError α × σ) : ExceptT SessionError (Activity σ) α :=
  ExceptT.mk (.read fun s =>
    let (answer, s) := act s
    .write s (.done (answer.mapError .store)))

/-- The stored credentials, which have to be there. -/
def storedCredentials (manager : SessionManager σ) :
    ExceptT SessionError (Activity σ) Credentials := do
  match ← consult manager.handle.load with
  | some credentials => return credentials
  | none => throw .notLoggedIn

/-- The accounts that have credentials. -/
def accounts (manager : SessionManager σ) (s : σ) : Except SessionError (List String) :=
  (manager.handle.list s).mapError .store

/-! ## Sessions -/

/-- The settings for sessions, and then their keys. -/
def unlock (manager : SessionManager σ) (locked : LockedSession) (number : Nat)
    (keyPass : KeyPass) : ExceptT SessionError (Activity σ) Session :=
  ExceptT.mk <| pure <|
    { locked with lister := manager.config.lister, timeout := some manager.config.timeout }.unlock
      number keyPass

/-- Restore the session of the current account from its stored credentials. -/
def restore (service : Service σ) (manager : SessionManager σ) (number : Nat) :
    ExceptT SessionError (Activity σ) Session := do
  let credentials ← manager.storedCredentials
  let keyPass ← ExceptT.mk <| pure <| credentials.keyPass.mapError .crypto
  let locked ← manager.timed ((LockedSession.restore credentials.tokens).run.carryAlone service)
  manager.unlock locked number keyPass

/-- Log in and store the credentials; they are stored before the keys are unlocked. -/
def login (service : Service σ) (manager : SessionManager σ) (number : Nat)
    (request : LoginRequest) : ExceptT SessionError (Activity σ) Session := do
  let (locked, keyPass) ←
    manager.timed ((LockedSession.login request).run.carryAlone service)
  change (manager.handle.save (.ofKeyPass locked.tokens keyPass))
  manager.unlock locked number keyPass

/-- Store rotated tokens beside the key pass that is there. -/
def refreshed (manager : SessionManager σ) (tokens : Tokens) :
    ExceptT SessionError (Activity σ) Unit := do
  let credentials ← manager.storedCredentials
  change (manager.handle.save (credentials.withTokens tokens))

/-- The server session to end: that of the given session, else the stored one. -/
def uidToRevoke (manager : SessionManager σ) :
    Option Session → ExceptT SessionError (Activity σ) (Option String)
  | some session => return some session.tokens.uid
  | none => return (← consult manager.handle.load).map (·.tokens.uid)

/-- Revoke a server session. -/
def revoke (service : Service σ) (manager : SessionManager σ) (uid : String) :
    ExceptT SessionError (Activity σ) Unit :=
  manager.timed ((service (.revoke uid)).map fun reply => reply.mapError .api)

/-- End the server session and forget the stored credentials of the current account. With `force` a
revocation that fails does not keep the credentials. -/
def logout (service : Service σ) (manager : SessionManager σ) (session : Option Session)
    (force : Bool) : ExceptT SessionError (Activity σ) Unit := do
  match ← manager.uidToRevoke session with
  | none => pure ()
  | some uid =>
    if force then
      tryCatch (manager.revoke service uid) fun _ => pure ()
    else manager.revoke service uid
  change manager.handle.delete

end SessionManager
end SealedDrive
