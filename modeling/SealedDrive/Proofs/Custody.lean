import SealedDrive.Proofs.Keeping
import SealedDrive.Proofs.Served
import SealedDrive.Session.Manager

/-!
What becomes of stored credentials. Whatever answers the requests of a session manager, in its own
time, a network phase does not touch the store; what an operation then does to the store hangs on
what the phase and the store came to (`Custody.Outcome`), one case for each point where the
operation may end.
-/

namespace SealedDrive

/-- Who works with a session manager over kept credentials, against any service. -/
structure Custody (τ : Type) where
  service : Service τ
  /-- What the turns of the others do to the state of the service. -/
  turn : (millis : Nat) → τ → τ
  keeping : Keeping
  config : DriveConfig
  /-- The current account of the store. -/
  account : String
  state : τ
  vault : Vault := {}
  /-- What is left of the allowance of the turn that the client is in. -/
  allowance : Nat := Activity.fullAllowance

/-- What is done with a session manager. -/
inductive CustodyCall where
  | restore (number : Nat)
  | accounts
  | login (number : Nat) (request : LoginRequest)
  | refreshed (tokens : Tokens)
  | logout (session : Option Session) (force : Bool)
  | switch (account : String)
  /-- Let the others have their turns. -/
  | pause (millis : Nat)

namespace CustodyCall

abbrev Answer : CustodyCall → Type
  | restore _ | login _ _ => Session
  | accounts => List String
  | refreshed _ | logout _ _ | switch _ | pause _ => Unit

/-- Whether the operation is one that changes entries of the store. -/
def changes : CustodyCall → Bool
  | login _ _ | refreshed _ | logout _ _ => true
  | _ => false

end CustodyCall

namespace Custody

variable {τ α β ε : Type}

/-- The service beside the vault. -/
def beside (c : Custody τ) : Service (τ × Vault) := fun request =>
  (c.service request).focus Prod.fst fun state s => (state, s.2)

def manager (c : Custody τ) : SessionManager (τ × Vault) :=
  ⟨⟨c.keeping.store.focus Prod.snd fun vault s => (s.1, vault), c.account⟩, c.config⟩

/-- What the turns of the others do while an activity waits. -/
def turns (c : Custody τ) (millis : Nat) (s : τ × Vault) : τ × Vault := (c.turn millis s.1, s.2)

/-- Run an activity; there is no answer when it crashes. -/
def perform (c : Custody τ) (p : Activity (τ × Vault) α) : Option α × Custody τ :=
  let result := p.run c.turns c.allowance (c.state, c.vault)
  (result.1, { c with
    allowance := result.2.1, state := result.2.2.1, vault := result.2.2.2 })

def call (c : Custody τ) :
    (call : CustodyCall) → Option (Except SessionError call.Answer) × Custody τ
  | .restore number => c.perform (c.manager.restore c.beside number).run
  | .accounts => (some (c.manager.accounts (c.state, c.vault)), c)
  | .login number request => c.perform (c.manager.login c.beside number request).run
  | .refreshed tokens => c.perform (c.manager.refreshed tokens).run
  | .logout session force => c.perform (c.manager.logout c.beside session force).run
  | .switch account =>
    match c.manager.handle.switch account (c.state, c.vault) with
    | .ok handle => (some (.ok ()), { c with account := handle.account })
    | .error error => (some (.error (.store error)), c)
  | .pause millis =>
    (some (.ok ()), { c with
      state := c.turn millis c.state, allowance := Activity.fullAllowance })

def step (c : Custody τ) (call : CustodyCall) : Custody τ := (c.call call).2

def run (c : Custody τ) (calls : List CustodyCall) : Custody τ := calls.foldl step c

/-! ## Parts of the operations -/

/-- The credentials of the current account. -/
def stored (c : Custody τ) : Except StoreError (Option Credentials) :=
  c.keeping.store.load c.account c.vault

def save (c : Custody τ) (credentials : Credentials) : Except StoreError Unit × Vault :=
  c.keeping.store.save c.account credentials c.vault

def delete (c : Custody τ) : Except StoreError Unit × Vault :=
  c.keeping.store.delete c.account c.vault

/-- The network phase of a login, within its time. -/
def enter (c : Custody τ) (request : LoginRequest) :
    Option (Except SessionError (LockedSession × KeyPass)) × Custody τ :=
  c.perform (c.manager.timed ((LockedSession.login request).run.carryAlone c.beside)).run

/-- The session of a login whose keys are unlocked. -/
def unlocked (c : Custody τ) (number : Nat) (locked : LockedSession) (keyPass : KeyPass) :
    Except SessionError Session :=
  { locked with lister := c.config.lister, timeout := some c.config.timeout }.unlock number keyPass

/-- A revocation, within its time. -/
def revoke (c : Custody τ) (uid : String) : Option (Except SessionError Unit) × Custody τ :=
  c.perform (c.manager.revoke c.beside uid).run

/-- What an operation comes to: what it answers, and the vault after it. -/
inductive Outcome (c : Custody τ) :
    (call : CustodyCall) → Option (Except SessionError call.Answer) → Vault → Prop
  /-- An operation that does not change entries. -/
  | read {call answer} (reads : call.changes = false) : c.Outcome call answer c.vault
  | refreshed {tokens credentials vault} (stored : c.stored = .ok (some credentials))
      (replaced : c.keeping.Replaces c.account (some (credentials.withTokens tokens)) c.vault
        vault) :
    c.Outcome (.refreshed tokens) (some (.ok ())) vault
  | unrefreshed {tokens error vault} (spared : c.keeping.Spares c.vault vault) :
    c.Outcome (.refreshed tokens) (some (.error error)) vault
  /-- The credentials are stored, whatever unlocking comes to. -/
  | entered {number request locked keyPass vault}
      (entered : (c.enter request).1 = some (.ok (locked, keyPass)))
      (saved : (c.save (.ofKeyPass locked.tokens keyPass)).1 = .ok ())
      (replaced : c.keeping.Replaces c.account (some (.ofKeyPass locked.tokens keyPass)) c.vault
        vault) :
    c.Outcome (.login number request) (some (c.unlocked number locked keyPass)) vault
  | unsaved {number request locked keyPass error vault}
      (entered : (c.enter request).1 = some (.ok (locked, keyPass)))
      (unsaved : (c.save (.ofKeyPass locked.tokens keyPass)).1 = .error error)
      (spared : c.keeping.Spares c.vault vault) :
    c.Outcome (.login number request) (some (.error (.store error))) vault
  /-- The network phase fails, runs out of time or crashes. -/
  | unentered {number request answer} (unentered : ∀ entry, (c.enter request).1 ≠ some (.ok entry))
      (failed : ∀ session, answer ≠ some (.ok session)) :
    c.Outcome (.login number request) answer c.vault
  | loggedOut {session force vault}
      (replaced : c.keeping.Replaces c.account none c.vault vault) :
    c.Outcome (.logout session force) (some (.ok ())) vault
  | unread {force error} (unread : c.stored = .error error) :
    c.Outcome (.logout none force) (some (.error (.store error))) c.vault
  /-- A revocation that fails or runs out of time. -/
  | unrevoked {session uid error} (unrevoked : (c.revoke uid).1 = some (.error error)) :
    c.Outcome (.logout session false) (some (.error error)) c.vault
  | undeleted {session force error} (undeleted : c.delete.1 = .error error) :
    c.Outcome (.logout session force) (some (.error (.store error))) c.vault
  | crashed {session force uid} (crashed : (c.revoke uid).1 = none) :
    c.Outcome (.logout session force) none c.vault

/-! ## Network phases -/

/-- Whatever the activity does, the vault stays as it is. -/
def KeepsVault (vault : Vault) (p : Activity (τ × Vault) α) : Prop :=
  p.Meets (.standing fun s => s.2 = vault) True (fun _ _ => True) ()

theorem keepsVault_beside (c : Custody τ) (vault : Vault) (request : Request) :
    KeepsVault vault (c.beside request) :=
  Activity.Meets.focus (fun _ _ => trivial) (fun _ _ hvault _ => hvault)
    (Activity.meets_standing_true (c.service request))

theorem keepsVault_carryAlone (c : Custody τ) (vault : Vault) (p : Dialogue Unit α) :
    KeepsVault vault (p.carryAlone c.beside) := by
  induction p with
  | done a => trivial
  | ask request next ih =>
    exact Activity.Meets.bind ((c.keepsVault_beside vault request).mono id
      fun reply _ _ _ => ih reply)
  | read next ih => exact ih ()
  | write memory next ih => exact ih

theorem keepsVault_timed (c : Custody τ) {vault : Vault}
    {phase : Activity (τ × Vault) (Except SessionError α)} (h : KeepsVault vault phase) :
    KeepsVault vault (c.manager.timed phase).run :=
  Activity.Meets.before h fun _ _ => trivial

theorem KeepsVault.bind {vault : Vault} {p : ExceptT ε (Activity (τ × Vault)) α}
    {f : α → ExceptT ε (Activity (τ × Vault)) β} (h : KeepsVault vault p.run)
    (hf : ∀ a, KeepsVault vault (f a).run) : KeepsVault vault (p >>= f).run :=
  Activity.Meets.bindExcept h fun a _ _ => hf a

theorem keepsVault_restore (c : Custody τ) (vault : Vault) (number : Nat) :
    KeepsVault vault (c.manager.restore c.beside number).run := by
  have hload : KeepsVault vault (SessionManager.consult c.manager.handle.load).run :=
    fun _ _ => trivial
  have hstored : KeepsVault vault c.manager.storedCredentials.run :=
    hload.bind fun credentials => by cases credentials <;> trivial
  refine hstored.bind fun credentials => .bind trivial fun keyPass => .bind ?_ fun _ => trivial
  exact c.keepsVault_timed (c.keepsVault_carryAlone _ _)

/-- A store that is as it was. -/
structure SameStore (c c' : Custody τ) : Prop where
  keeping : c'.keeping = c.keeping
  account : c'.account = c.account
  vault : c'.vault = c.vault

theorem sameStore_perform (c : Custody τ) {p : Activity (τ × Vault) α}
    (h : KeepsVault c.vault p) : c.SameStore (c.perform p).2 := by
  have hturns (millis : Nat) :
      (Discipline.standing fun s : τ × Vault => s.2 = c.vault).Allows (c.turns millis) :=
    fun _ _ hs => ⟨(), trivial, hs⟩
  obtain ⟨_, -, hvault, -, -⟩ := h.run hturns c.allowance (s := (c.state, c.vault)) rfl
  exact ⟨rfl, rfl, hvault⟩

theorem sameStore_enter (c : Custody τ) (request : LoginRequest) :
    c.SameStore (c.enter request).2 :=
  c.sameStore_perform (c.keepsVault_timed (c.keepsVault_carryAlone _ _))

theorem sameStore_revoke (c : Custody τ) (uid : String) : c.SameStore (c.revoke uid).2 :=
  c.sameStore_perform (c.keepsVault_timed (Activity.Meets.map (c.keepsVault_beside _ _)))

/-! ## One step after the other -/

theorem perform_bind (c : Custody τ) (p : ExceptT ε (Activity (τ × Vault)) α)
    (f : α → ExceptT ε (Activity (τ × Vault)) β) :
    c.perform (p >>= f).run =
      match (c.perform p.run).1 with
      | some (.ok a) => (c.perform p.run).2.perform (f a).run
      | some (.error error) => (some (.error error), (c.perform p.run).2)
      | none => (none, (c.perform p.run).2) := by
  unfold perform
  rw [Activity.run_bindExcept]
  rcases p.run.run c.turns c.allowance (c.state, c.vault) with ⟨_ | _ | a, allowance, state, vault⟩
  · rfl
  · rfl
  · rfl

theorem perform_storedCredentials (c : Custody τ) :
    c.perform c.manager.storedCredentials.run =
      (some (match c.stored with
        | .ok (some credentials) => .ok credentials
        | .ok none => .error .notLoggedIn
        | .error error => .error (.store error)), c) := by
  have hload : c.perform (SessionManager.consult c.manager.handle.load).run =
      (some (c.stored.mapError .store), c) := rfl
  unfold SessionManager.storedCredentials
  rw [perform_bind, hload]
  rcases c.stored with error | _ | credentials
  · rfl
  · rfl
  · rfl

theorem perform_uidToRevoke (c : Custody τ) :
    c.perform (c.manager.uidToRevoke none).run =
      (some ((c.stored.mapError .store).map fun credentials => credentials.map (·.tokens.uid)),
        c) := by
  have hload : c.perform (SessionManager.consult c.manager.handle.load).run =
      (some (c.stored.mapError .store), c) := rfl
  unfold SessionManager.uidToRevoke
  rw [perform_bind, hload]
  rcases c.stored with error | credentials
  · rfl
  · rfl

theorem perform_save (c : Custody τ) (credentials : Credentials) :
    c.perform (SessionManager.change (c.manager.handle.save credentials)).run =
      (some ((c.save credentials).1.mapError .store),
        { c with vault := (c.save credentials).2 }) := rfl

theorem perform_delete (c : Custody τ) :
    c.perform (SessionManager.change c.manager.handle.delete).run =
      (some (c.delete.1.mapError .store), { c with vault := c.delete.2 }) := rfl

/-- A revocation whose failure does not matter. -/
theorem perform_forced (c : Custody τ) (uid : String) :
    c.perform (tryCatch (c.manager.revoke c.beside uid) fun _ => pure () :
        ExceptT SessionError (Activity (τ × Vault)) Unit).run =
      ((c.revoke uid).1.map fun _ => .ok (), (c.revoke uid).2) := by
  unfold revoke perform
  rw [Activity.run_tryCatch]
  rcases (c.manager.revoke c.beside uid).run.run c.turns c.allowance (c.state, c.vault) with
    ⟨_ | _ | _, allowance, state, vault⟩
  · rfl
  · rfl
  · rfl

/-! ## Outcomes -/

variable {c c' : Custody τ}

theorem SameStore.save (h : c.SameStore c') (credentials : Credentials) :
    c'.save credentials = c.save credentials := by
  unfold Custody.save
  rw [h.keeping, h.account, h.vault]

theorem SameStore.delete (h : c.SameStore c') : c'.delete = c.delete := by
  unfold Custody.delete
  rw [h.keeping, h.account, h.vault]

theorem outcome_refreshed (c : Custody τ) (tokens : Tokens) :
    c.Outcome (.refreshed tokens) (c.call (.refreshed tokens)).1
      (c.call (.refreshed tokens)).2.vault := by
  unfold call SessionManager.refreshed
  dsimp only
  rw [perform_bind, perform_storedCredentials]
  rcases hstored : c.stored with error | _ | credentials
  · exact .unrefreshed (.refl _ _)
  · exact .unrefreshed (.refl _ _)
  · dsimp only
    rw [perform_save]
    obtain ⟨vault, hsave, hreplaced⟩ | ⟨error, vault, hsave, hspared⟩ :=
      c.keeping.save_cases c.account (credentials.withTokens tokens) c.vault
    · change c.save _ = _ at hsave
      rw [hsave]
      exact .refreshed hstored hreplaced
    · change c.save _ = _ at hsave
      rw [hsave]
      exact .unrefreshed hspared

theorem outcome_login (c : Custody τ) (number : Nat) (request : LoginRequest) :
    c.Outcome (.login number request) (c.call (.login number request)).1
      (c.call (.login number request)).2.vault := by
  have hphase : c.perform (c.manager.timed ((LockedSession.login request).run.carryAlone
      c.beside)).run = c.enter request := rfl
  have hsame := c.sameStore_enter request
  unfold call SessionManager.login
  dsimp only
  rw [perform_bind, hphase]
  rcases hentry : (c.enter request).1 with _ | error | ⟨locked, keyPass⟩
  · dsimp only
    rw [hsame.vault]
    exact .unentered (by simp [hentry]) nofun
  · dsimp only
    rw [hsame.vault]
    exact .unentered (by simp [hentry]) nofun
  · have hchange : (c.enter request).2.perform (SessionManager.change (c.manager.handle.save
          (.ofKeyPass locked.tokens keyPass))).run =
        (some ((c.save (.ofKeyPass locked.tokens keyPass)).1.mapError .store),
          { (c.enter request).2 with vault := (c.save (.ofKeyPass locked.tokens keyPass)).2 }) := by
      rw [← hsame.save]
      exact perform_save _ _
    dsimp only
    rw [perform_bind, hchange]
    obtain ⟨vault, hsave, hreplaced⟩ | ⟨error, vault, hsave, hspared⟩ :=
      c.keeping.save_cases c.account (.ofKeyPass locked.tokens keyPass) c.vault
    · change c.save _ = _ at hsave
      rw [hsave]
      exact .entered hentry (congrArg Prod.fst hsave) hreplaced
    · change c.save _ = _ at hsave
      rw [hsave]
      exact .unsaved hentry (congrArg Prod.fst hsave) hspared

theorem outcome_delete (h : c.SameStore c') (session : Option Session) (force : Bool) :
    c.Outcome (.logout session force)
      (c'.perform (SessionManager.change c'.manager.handle.delete).run).1
      (c'.perform (SessionManager.change c'.manager.handle.delete).run).2.vault := by
  rw [perform_delete, h.delete]
  obtain ⟨vault, hdelete, hreplaced⟩ | ⟨error, hdelete⟩ :=
    c.keeping.delete_cases c.account c.vault
  · change c.delete = _ at hdelete
    rw [hdelete]
    exact .loggedOut hreplaced
  · change c.delete = _ at hdelete
    rw [hdelete]
    exact .undeleted (congrArg Prod.fst hdelete)

theorem outcome_unforced (c : Custody τ) (session : Option Session) (uid : String) :
    c.Outcome (.logout session false)
      (c.perform (c.manager.revoke c.beside uid >>= fun _ =>
        SessionManager.change c.manager.handle.delete).run).1
      (c.perform (c.manager.revoke c.beside uid >>= fun _ =>
        SessionManager.change c.manager.handle.delete).run).2.vault := by
  have hphase : c.perform (c.manager.revoke c.beside uid).run = c.revoke uid := rfl
  have hsame := c.sameStore_revoke uid
  rw [perform_bind, hphase]
  rcases hrevoke : (c.revoke uid).1 with _ | error | _
  · dsimp only
    rw [hsame.vault]
    exact .crashed hrevoke
  · dsimp only
    rw [hsame.vault]
    exact .unrevoked hrevoke
  · exact outcome_delete hsame session false

theorem outcome_forced (c : Custody τ) (session : Option Session) (uid : String) :
    c.Outcome (.logout session true)
      (c.perform ((tryCatch (c.manager.revoke c.beside uid) fun _ => pure ()) >>= fun _ =>
        SessionManager.change c.manager.handle.delete).run).1
      (c.perform ((tryCatch (c.manager.revoke c.beside uid) fun _ => pure ()) >>= fun _ =>
        SessionManager.change c.manager.handle.delete).run).2.vault := by
  have hsame := c.sameStore_revoke uid
  rw [perform_bind, perform_forced]
  cases hrevoke : (c.revoke uid).1 with
  | none =>
    dsimp only [Option.map]
    rw [hsame.vault]
    exact .crashed hrevoke
  | some reply => exact outcome_delete hsame session true

theorem outcome_logout (c : Custody τ) (session : Option Session) (force : Bool) :
    c.Outcome (.logout session force) (c.call (.logout session force)).1
      (c.call (.logout session force)).2.vault := by
  have hended (uid : Option String)
      (huid : c.perform (c.manager.uidToRevoke session).run = (some (.ok uid), c)) :
      c.Outcome (.logout session force) (c.call (.logout session force)).1
        (c.call (.logout session force)).2.vault := by
    unfold call SessionManager.logout
    dsimp only
    rw [perform_bind, huid]
    cases uid with
    | none => exact outcome_delete ⟨rfl, rfl, rfl⟩ session force
    | some uid =>
      cases force with
      | false => exact c.outcome_unforced session uid
      | true => exact c.outcome_forced session uid
  cases session with
  | some session => exact hended (some session.tokens.uid) rfl
  | none =>
    have huid := c.perform_uidToRevoke
    cases hstored : c.stored with
    | ok credentials =>
      rw [hstored] at huid
      exact hended _ huid
    | error error =>
      rw [hstored] at huid
      unfold call SessionManager.logout
      dsimp only
      rw [perform_bind, huid]
      exact .unread hstored

/-- Whatever is called comes to one of these outcomes. -/
theorem outcome (c : Custody τ) (call : CustodyCall) :
    c.Outcome call (c.call call).1 (c.call call).2.vault := by
  cases call with
  | restore number =>
    have hsame := c.sameStore_perform (c.keepsVault_restore c.vault number)
    have hvault : (c.call (.restore number)).2.vault = c.vault := hsame.vault
    rw [hvault]
    exact .read rfl
  | accounts => exact .read rfl
  | login number request => exact c.outcome_login number request
  | refreshed tokens => exact c.outcome_refreshed tokens
  | logout session force => exact c.outcome_logout session force
  | switch account =>
    unfold Custody.call
    dsimp only
    split
    · exact .read rfl
    · exact .read rfl
  | pause millis => exact .read rfl

/-- A forced logout goes through, whatever the revocation comes to. -/
theorem logout_forced (c : Custody τ) (session : Option Session)
    (hrevoke : ∀ uid, (c.revoke uid).1 ≠ none)
    (hstored : session = none → ∀ error, c.stored ≠ .error error) (hdelete : c.delete.1 = .ok ()) :
    (c.call (.logout session true)).1 = some (.ok ()) := by
  have houtcome := c.outcome (.logout session true)
  generalize (c.call (.logout session true)).2.vault = vault at houtcome
  generalize (c.call (.logout session true)).1 = answer at houtcome ⊢
  cases houtcome with
  | read reads => cases reads
  | loggedOut _ => rfl
  | unread unread => exact absurd unread (hstored rfl _)
  | undeleted undeleted => cases hdelete.symm.trans undeleted
  | crashed crashed => exact absurd crashed (hrevoke _)

/-! ## Entries of the others -/

theorem keeping_step (c : Custody τ) (call : CustodyCall) : (c.step call).keeping = c.keeping := by
  unfold step
  cases call with
  | switch account =>
    unfold Custody.call
    dsimp only
    split
    · rfl
    · rfl
  | _ => rfl

/-- What is in the table for one account. -/
def HasEntry (keeping : Keeping) (vault : Vault) (name : String) (entry : Option Credentials) :
    Prop :=
  keeping.IsThere vault ∧
    ∃ table, keeping.table vault = .ok table ∧ table.find? name = entry

theorem HasEntry.replaces {keeping : Keeping} {before after : Vault} {account name : String}
    {entry entry' : Option Credentials} (h : HasEntry keeping before name entry)
    (hreplaced : keeping.Replaces account entry' before after) (hname : account ≠ name) :
    HasEntry keeping after name entry := by
  obtain ⟨hthere, table, htable, hentry⟩ := h
  obtain ⟨old, new, hold, hnew, hfind⟩ := hreplaced.table
  cases htable.symm.trans hold
  refine ⟨hreplaced.isThere hthere, new, hnew, ?_⟩
  rw [hfind, if_neg (Ne.symm hname), hentry]

theorem HasEntry.spares {keeping : Keeping} {before after : Vault} {name : String}
    {entry : Option Credentials} (h : HasEntry keeping before name entry)
    (hspared : keeping.Spares before after) : HasEntry keeping after name entry := by
  rcases hspared.same with rfl | ⟨path, rfl, habsent⟩
  · exact h
  · obtain ⟨⟨bytes, hbytes⟩, -⟩ := h
    cases hbytes.symm.trans habsent

/-- No operation changes the entry of an account that is not the current one. -/
theorem Outcome.hasEntry {call : CustodyCall} {answer : Option (Except SessionError call.Answer)}
    {vault : Vault} (houtcome : c.Outcome call answer vault) {name : String}
    {entry : Option Credentials} (h : HasEntry c.keeping c.vault name entry)
    (hname : call.changes = true → c.account ≠ name) : HasEntry c.keeping vault name entry := by
  cases houtcome with
  | read _ | unentered _ _ | unread _ | unrevoked _ | undeleted _ | crashed _ => exact h
  | refreshed _ replaced => exact h.replaces replaced (hname rfl)
  | entered _ _ replaced => exact h.replaces replaced (hname rfl)
  | loggedOut replaced => exact h.replaces replaced (hname rfl)
  | unrefreshed spared => exact h.spares spared
  | unsaved _ _ spared => exact h.spares spared

/-- An account that is not the current one at any login, refresh or logout. -/
def Leaves (c : Custody τ) (name : String) (calls : List CustodyCall) : Prop :=
  ∀ before call, before ++ [call] <+: calls → call.changes = true →
    (c.run before).account ≠ name

theorem Leaves.hasEntry {calls : List CustodyCall} {name : String} (hleaves : c.Leaves name calls)
    {entry : Option Credentials} (h : HasEntry c.keeping c.vault name entry) :
    HasEntry c.keeping (c.run calls).vault name entry := by
  induction calls generalizing c with
  | nil => exact h
  | cons call rest ih =>
    have hcall : HasEntry (c.step call).keeping (c.step call).vault name entry := by
      rw [keeping_step]
      exact (c.outcome call).hasEntry h
        (hleaves [] call (List.cons_prefix_cons.2 ⟨rfl, List.nil_prefix⟩))
    rw [← c.keeping_step call]
    exact ih (fun before next hbefore =>
      hleaves (call :: before) next (List.cons_prefix_cons.2 ⟨rfl, hbefore⟩)) hcall

/-! ## Every run -/

/-- What can be relied on in a run of operations, wherever it is. -/
structure Accountable (c : Custody τ) (calls : List CustodyCall) : Prop where
  /-- Every operation comes to one of the outcomes. -/
  outcomes : ∀ before call, before ++ [call] <+: calls →
    (c.run before).Outcome call ((c.run before).call call).1 (c.run (before ++ [call])).vault
  /-- With force a logout goes through unless the store fails. -/
  forced : ∀ before session, before ++ [.logout session true] <+: calls →
    (∀ uid, ((c.run before).revoke uid).1 ≠ none) →
    (session = none → ∀ error, (c.run before).stored ≠ .error error) →
    (c.run before).delete.1 = .ok () →
    ((c.run before).call (.logout session true)).1 = some (.ok ())
  /-- The entries of all other accounts stay as they are. -/
  others : ∀ name entry, c.Leaves name calls → HasEntry c.keeping c.vault name entry →
    HasEntry c.keeping (c.run calls).vault name entry

/-- Whatever answers the requests, and whatever is kept at first: the store changes only in the
entry of the current account, when the operation that changes it has come that far. -/
theorem store_accountable (c : Custody τ) (calls : List CustodyCall) : c.Accountable calls where
  outcomes before call _ := by
    have hrun : c.run (before ++ [call]) = ((c.run before).call call).2 :=
      List.foldl_concat _ _ _ _
    rw [hrun]
    exact (c.run before).outcome call
  forced before session _ := (c.run before).logout_forced session
  others _ _ hleaves h := hleaves.hasEntry h

end Custody

end SealedDrive
