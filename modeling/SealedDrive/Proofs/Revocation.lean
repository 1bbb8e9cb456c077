import SealedDrive.Proofs.Entering
import SealedDrive.Proofs.Tables

/-!
What a logout ends. The session that is revoked is the one that is handed over, else the one whose
credentials are stored; the credentials that are forgotten are always the stored ones. After any
history the two may differ, and then a logout leaves the session open whose credentials it forgets.

Whatever a session manager does, it leaves the drive in a later state (`Server.Later`), so a session
that was revoked is never open again.
-/

namespace SealedDrive

/-! ## Later states -/

section

variable {start : Server} {α β ε : Type}

/-- Whatever the activity does, the drive is in a later state all the way. -/
def KeepsLater (start : Server) (p : Activity World α) : Prop :=
  p.Meets (.standing fun world => start.Later world.bench.server) False (fun _ _ => True) ()

theorem KeepsLater.bind {p : ExceptT ε (Activity World) α} {f : α → ExceptT ε (Activity World) β}
    (h : KeepsLater start p.run) (hf : ∀ a, KeepsLater start (f a).run) :
    KeepsLater start (p >>= f).run :=
  Activity.Meets.bindExcept h fun a _ _ => hf a

theorem KeepsLater.tryCatch {p : ExceptT ε (Activity World) α}
    {handle : ε → ExceptT ε (Activity World) α} (h : KeepsLater start p.run)
    (hf : ∀ error, KeepsLater start (handle error).run) :
    KeepsLater start (tryCatch p handle).run := by
  refine Activity.Meets.bind (h.mono id fun r _ _ _ => ?_)
  cases r with
  | ok a => trivial
  | error error => exact hf error

theorem keepsLater_answer (answer : Except ε α) :
    KeepsLater start (ExceptT.mk (pure answer) : ExceptT ε (Activity World) α).run := trivial

theorem keepsLater_carryAlone (p : Dialogue Unit α) :
    KeepsLater start (p.carryAlone (World.service true)) := by
  induction p with
  | done a => trivial
  | ask request next ih =>
    exact Activity.Meets.bind ((World.gives_later start request trivial).mono id
      fun reply _ _ _ => ih reply)
  | read next ih => exact ih ()
  | write memory next ih => exact ih

end

namespace SessionManager

variable {start : Server} {α : Type} {manager : SessionManager World}

theorem keepsLater_consult (ask : World → Except StoreError α) :
    KeepsLater start (consult ask).run := fun _ _ => trivial

/-- A change that leaves the drive alone. -/
theorem keepsLater_change {act : World → Except StoreError α × World}
    (h : ∀ world, (act world).2.bench = world.bench) : KeepsLater start (change act).run := by
  intro world hworld
  refine ⟨(), trivial, ?_, trivial⟩
  show start.Later (act world).2.bench.server
  rw [h world]
  exact hworld

theorem keepsLater_timed {phase : Activity World (Except SessionError α)}
    (h : KeepsLater start phase) : KeepsLater start (manager.timed phase).run :=
  Activity.Meets.before h fun _ _ => trivial

end SessionManager

/-! ## A client -/

/-- Who works with a session manager over one store. -/
structure Client where
  store : Store Vault
  config : DriveConfig
  /-- The current account of the store. -/
  account : String
  world : World
  /-- What is left of the allowance of the turn that the client is in. -/
  allowance : Nat := Activity.fullAllowance

/-- What a client does. -/
inductive ClientCall where
  | login (number : Nat) (request : LoginRequest)
  | restore (number : Nat)
  | refreshed (tokens : Tokens)
  | switch (account : String)
  | logout (session : Option Session) (force : Bool)
  /-- A session that is opened without a login. -/
  | issue
  /-- Anything that is asked of the drive past the manager. -/
  | ask (request : Request)

namespace Client

def manager (client : Client) : SessionManager World :=
  ⟨⟨World.keepsIn client.store, client.account⟩, client.config⟩

def server (client : Client) : Server := client.world.bench.server

/-- The credentials of the current account. -/
def stored (client : Client) : Except StoreError (Option Credentials) :=
  client.store.load client.account client.world.vault

variable {α : Type}

/-- Run an activity on the world; there is no answer when it crashes. -/
def perform (client : Client) (p : Activity World α) : Option α × Client :=
  let (answer, allowance, world) := p.run World.turn client.allowance client.world
  (answer, { client with allowance, world })

/-- What a logout answers, and the client after it. -/
def logout (client : Client) (session : Option Session) (force : Bool) :
    Option (Except SessionError Unit) × Client :=
  client.perform (client.manager.logout (World.service true) session force).run

def step (client : Client) : ClientCall → Client
  | .login number request =>
    (client.perform (client.manager.login (World.service true) number request).run).2
  | .restore number => (client.perform (client.manager.restore (World.service true) number).run).2
  | .refreshed tokens => (client.perform (client.manager.refreshed tokens).run).2
  | .switch account =>
    match client.manager.handle.switch account client.world with
    | .ok handle => { client with account := handle.account }
    | .error _ => client
  | .logout session force => (client.logout session force).2
  | .issue => (client.perform (World.onAccount (·.issueTokens))).2
  | .ask request => (client.perform (World.service true request)).2

def run (client : Client) (calls : List ClientCall) : Client := calls.foldl step client

theorem later_perform (client : Client) {p : Activity World α}
    (h : KeepsLater client.server p) : client.server.Later (client.perform p).2.server := by
  obtain ⟨_, -, hlater, -⟩ :=
    h.run World.allows_turn_later client.allowance (Server.Later.refl client.server)
  exact hlater

theorem keepsLater_storedCredentials {start : Server} (client : Client) :
    KeepsLater start client.manager.storedCredentials.run :=
  .bind (SessionManager.keepsLater_consult _) fun credentials => by cases credentials <;> trivial

theorem keepsLater_save {start : Server} (client : Client) (credentials : Credentials) :
    KeepsLater start (SessionManager.change (client.manager.handle.save credentials)).run :=
  SessionManager.keepsLater_change fun _ => rfl

theorem keepsLater_delete {start : Server} (client : Client) :
    KeepsLater start (SessionManager.change client.manager.handle.delete).run :=
  SessionManager.keepsLater_change fun _ => rfl

theorem keepsLater_revoke {start : Server} (client : Client) (uid : String) :
    KeepsLater start (client.manager.revoke (World.service true) uid).run :=
  SessionManager.keepsLater_timed
    (Activity.Meets.map (World.gives_later start (.revoke uid) trivial))

theorem later_step (client : Client) (call : ClientCall) :
    client.server.Later (client.step call).server := by
  cases call with
  | login number request =>
    refine client.later_perform (.bind ?_ fun entered => .bind ?_ fun _ => ?_)
    · exact SessionManager.keepsLater_timed (keepsLater_carryAlone _)
    · exact client.keepsLater_save _
    · exact keepsLater_answer _
  | restore number =>
    refine client.later_perform (.bind client.keepsLater_storedCredentials fun credentials =>
      .bind (keepsLater_answer _) fun keyPass => .bind ?_ fun locked => keepsLater_answer _)
    exact SessionManager.keepsLater_timed (keepsLater_carryAlone _)
  | refreshed tokens =>
    exact client.later_perform
      (.bind client.keepsLater_storedCredentials fun _ => client.keepsLater_save _)
  | switch account =>
    unfold step
    dsimp only
    split
    · exact .refl _
    · exact .refl _
  | logout session force =>
    refine client.later_perform (.bind ?_ fun uid => ?_)
    · cases session with
      | some session => exact keepsLater_answer (.ok _)
      | none => exact .bind (SessionManager.keepsLater_consult _) fun _ => trivial
    · have hrevoke (uid : String) : KeepsLater client.server
          (client.manager.revoke (World.service true) uid).run := client.keepsLater_revoke uid
      cases uid with
      | none => exact client.keepsLater_delete
      | some uid =>
        cases force with
        | false => exact .bind (hrevoke uid) fun _ => client.keepsLater_delete
        | true =>
          exact .bind (.tryCatch (hrevoke uid) fun _ => keepsLater_answer (.ok ()))
            fun _ => client.keepsLater_delete
  | issue => exact Server.later_issueSession client.server
  | ask request => exact client.later_perform (World.gives_later client.server request trivial)

theorem later_run (client : Client) (calls : List ClientCall) :
    client.server.Later (client.run calls).server := by
  induction calls generalizing client with
  | nil => exact .refl _
  | cons call calls ih => exact (client.later_step call).trans (ih (client.step call))

/-! ## One step after the other -/

theorem perform_bind {β ε : Type} (client : Client) (p : ExceptT ε (Activity World) α)
    (f : α → ExceptT ε (Activity World) β) :
    client.perform (p >>= f).run =
      match client.perform p.run with
      | (some (.ok a), client) => client.perform (f a).run
      | (some (.error error), client) => (some (.error error), client)
      | (none, client) => (none, client) := by
  unfold perform
  rw [Activity.run_bindExcept]
  rcases p.run.run World.turn client.allowance client.world with ⟨_ | _ | a, allowance, world⟩
  · rfl
  · rfl
  · rfl

theorem perform_of_burst {client : Client} {p : Activity World α} {answer : α} {allowance : Nat}
    {world : World}
    (h : p.burst client.allowance client.world = (.done answer, allowance, world)) :
    client.perform p = (some answer, { client with allowance, world }) := by
  unfold perform
  rw [Activity.run_of_burst h]

/-! ## Logging in -/

/-- The client when a login has gone through and nothing is stored yet. -/
def attached (client : Client) : Client :=
  { client with world := client.world.withServer client.server.attached }

/-- The client after a login. -/
def loggedIn (client : Client) (keyPass : KeyPass) : Client :=
  { client.attached with
    world.vault.memory := client.world.vault.memory.insert client.account
      (.ofKeyPass client.server.issueSession.1 keyPass) }

/-- The session that a login opens. -/
def opened (client : Client) (number : Nat) (unlocked : Keyring.Unlocked) : Session where
  number := number
  tokens := client.server.issueSession.1
  user := client.server.user
  addresses := client.server.addresses
  userKeyring := unlocked.user
  addressKeyrings := unlocked.addresses
  lister := client.config.lister
  timeout := some client.config.timeout

theorem perform_save {client : Client} (hstore : client.store = Vault.memoryStore)
    (credentials : Credentials) :
    client.perform (SessionManager.change (client.manager.handle.save credentials)).run =
      (some (.ok ()), { client with
        world.vault.memory := client.world.vault.memory.insert client.account credentials }) := by
  obtain ⟨store, config, account, world, allowance⟩ := client
  subst hstore
  rfl

theorem perform_login {client : Client} (hstore : client.store = Vault.memoryStore)
    {request : LoginRequest} {keyPass : KeyPass} (h : client.server.Opens request keyPass)
    {unlocked : Keyring.Unlocked} (hempty : keyPass.isEmpty = false)
    (hunlock : Keyring.unlock client.server.user client.server.addresses keyPass = .ok unlocked)
    (number : Nat) :
    client.perform (client.manager.login (World.service true) number request).run =
      (some (.ok (client.opened number unlocked)), client.loggedIn keyPass) := by
  have hphase : client.perform (client.manager.timed
      ((LockedSession.login request).run.carryAlone (World.service true))).run =
      (some (.ok (⟨client.server.issueSession.1, client.server.user, client.server.addresses, {},
        none⟩, keyPass)), client.attached) :=
    perform_of_burst (Activity.burst_before (burst_login h client.allowance) _ _)
  have hattached : client.attached.store = Vault.memoryStore := hstore
  have hsave : client.attached.perform (SessionManager.change (client.manager.handle.save
        (.ofKeyPass client.server.issueSession.1 keyPass))).run =
      (some (.ok ()), client.loggedIn keyPass) := perform_save hattached _
  unfold SessionManager.login
  rw [perform_bind, hphase]
  dsimp only
  rw [perform_bind, hsave]
  show (some (LockedSession.unlock _ number keyPass), _) = _
  unfold LockedSession.unlock
  rw [hempty, if_neg (by decide), hunlock]
  rfl

/-! ## Logging out -/

/-- The session that a logout revokes: the one handed over, else the stored one. -/
def revokes (client : Client) (session : Option Session) : Option String :=
  match session, client.stored with
  | some session, _ => some session.tokens.uid
  | none, .ok credentials => credentials.map (·.tokens.uid)
  | none, .error _ => none

/-- The drive revokes at once, so no bound cuts a revocation short. -/
theorem perform_revoke (client : Client) (uid : String) :
    client.perform (client.manager.revoke (World.service true) uid).run =
      (some ((client.server.revoke uid).1.mapError .api),
        { client with world.bench := client.world.bench.setServer (client.server.revoke uid).2 }) :=
  rfl

theorem perform_uidToRevoke (client : Client) :
    client.perform (client.manager.uidToRevoke none).run =
      match client.stored with
      | .ok credentials => (some (.ok (credentials.map (·.tokens.uid))), client)
      | .error error => (some (.error (.store error)), client) := by
  have hconsult : client.perform (SessionManager.consult client.manager.handle.load).run =
      (some (client.stored.mapError .store), client) := rfl
  unfold SessionManager.uidToRevoke
  rw [perform_bind, hconsult]
  cases client.stored with
  | ok credentials => rfl
  | error error => rfl

theorem logout_ok {client : Client} {session : Option Session}
    (h : (client.logout session false).1 = some (.ok ())) :
    (client.revokes session = none ∧ (client.logout session false).2.server = client.server) ∨
      ∃ uid, client.revokes session = some uid ∧ (client.server.revoke uid).1 = .ok () ∧
        (client.logout session false).2.server = (client.server.revoke uid).2 := by
  have hrevoke (uid : String)
      (h : (client.perform (do
        client.manager.revoke (World.service true) uid
        SessionManager.change client.manager.handle.delete).run).1 = some (.ok ())) :
      (client.server.revoke uid).1 = .ok () ∧ (client.perform (do
        client.manager.revoke (World.service true) uid
        SessionManager.change client.manager.handle.delete).run).2.server =
        (client.server.revoke uid).2 := by
    rw [perform_bind, perform_revoke] at h ⊢
    cases hanswer : (client.server.revoke uid).1 with
    | error error =>
      rw [hanswer] at h
      cases h
    | ok done => exact ⟨rfl, rfl⟩
  cases session with
  | some session => exact .inr ⟨session.tokens.uid, rfl, hrevoke _ h⟩
  | none =>
    unfold revokes
    unfold logout SessionManager.logout at h ⊢
    rw [perform_bind, perform_uidToRevoke] at h ⊢
    cases hstored : client.stored with
    | error error =>
      rw [hstored] at h
      cases h
    | ok credentials =>
      rw [hstored] at h
      cases credentials with
      | none => exact .inl ⟨rfl, rfl⟩
      | some credentials => exact .inr ⟨credentials.tokens.uid, rfl, hrevoke _ h⟩

theorem perform_delete {client : Client} (hstore : client.store = Vault.memoryStore) :
    client.perform (SessionManager.change client.manager.handle.delete).run =
      (some (.ok ()), { client with
        world.vault.memory := client.world.vault.memory.erase client.account }) := by
  obtain ⟨store, config, account, world, allowance⟩ := client
  subst hstore
  rfl

theorem logout_handed_over {client : Client} (hstore : client.store = Vault.memoryStore)
    {session : Session} (h : (client.server.revoke session.tokens.uid).1 = .ok ()) :
    client.logout (some session) false =
      (some (.ok ()), { client with
        world.bench := client.world.bench.setServer
          (client.server.revoke session.tokens.uid).2
        world.vault.memory := client.world.vault.memory.erase client.account }) := by
  have hlogout : client.logout (some session) false = client.perform (do
      client.manager.revoke (World.service true) session.tokens.uid
      SessionManager.change client.manager.handle.delete).run := rfl
  rw [hlogout, perform_bind, perform_revoke, h]
  exact perform_delete hstore

/-! ## What a logout ends -/

/-- A client after any history on a drive that began without open sessions. -/
def Reached (client : Client) : Prop :=
  ∃ (start : Client) (calls : List ClientCall),
    start.server.sessions = [] ∧ start.run calls = client

theorem Reached.numbered {client : Client} (h : client.Reached) : client.server.Numbered := by
  obtain ⟨start, calls, hstart, rfl⟩ := h
  refine (start.later_run calls).numbered fun uid hactive => ?_
  rw [Server.isActive, hstart] at hactive
  cases hactive

/-- After a logout without force that succeeds those sessions are open that were open before, but
not the one that it revokes. -/
theorem isActive_logout {client : Client} {session : Option Session}
    (h : (client.logout session false).1 = some (.ok ())) (uid : String) :
    (client.logout session false).2.server.isActive uid = true ↔
      client.server.isActive uid = true ∧ client.revokes session ≠ some uid := by
  rcases logout_ok h with ⟨hnone, hserver⟩ | ⟨revoked, hsome, hok, hserver⟩
  · rw [hserver, hnone]
    simp
  · rw [hserver, Server.isActive_revoke hok, hsome, ne_eq, ne_eq, Option.some.injEq,
      @eq_comm _ revoked uid]

theorem isActive_of_revokes {client : Client} {session : Option Session}
    (h : (client.logout session false).1 = some (.ok ())) {uid : String}
    (huid : client.revokes session = some uid) : client.server.isActive uid = true := by
  rcases logout_ok h with ⟨hnone, -⟩ | ⟨revoked, hsome, hok, -⟩
  · rw [hnone] at huid
    cases huid
  · obtain rfl : revoked = uid := Option.some.inj (hsome.symm.trans huid)
    rcases Server.revoke_cases client.server revoked with ⟨-, hactive, -⟩ | ⟨error, herror⟩
    · exact hactive
    · rw [herror] at hok
      cases hok

/-- Whatever was done before, a logout without force that succeeds ends the session that it revokes,
for good, and no other one. So a session whose credentials were stored, and are forgotten now, is
left open when it was open and another session was handed over. -/
theorem logout_revokes {client : Client} (hclient : client.Reached) {session : Option Session}
    (h : (client.logout session false).1 = some (.ok ())) :
    (∀ uid, (client.logout session false).2.server.isActive uid = true ↔
      client.server.isActive uid = true ∧ client.revokes session ≠ some uid) ∧
    (∀ uid, client.revokes session = some uid → client.server.isActive uid = true ∧
      ∀ more, ((client.logout session false).2.run more).server.isActive uid = false) ∧
    ∀ credentials, client.stored = .ok (some credentials) →
      ((client.logout session false).2.server.isActive credentials.tokens.uid = true ↔
        client.server.isActive credentials.tokens.uid = true ∧
          ∃ other, session = some other ∧ other.tokens.uid ≠ credentials.tokens.uid) := by
  have hactive := isActive_logout h
  refine ⟨hactive, fun uid huid => ?_, fun credentials hstored => ?_⟩
  · have hopen := isActive_of_revokes h huid
    have hended : (client.logout session false).2.server.isActive uid = false :=
      Bool.eq_false_iff.2 fun hagain => ((hactive uid).1 hagain).2 huid
    have hlater := client.later_step (.logout session false)
    exact ⟨hopen, fun more =>
      Server.Later.stays_ended hclient.numbered hopen hlater hended (later_run _ more)⟩
  · rw [hactive]
    cases session with
    | none => simp [revokes, hstored]
    | some other => simp [revokes]

/-- A user who has one password. -/
def alice : Account := .create "alice" "secret" none none

def aliceRequest : LoginRequest := ⟨"alice", "secret", none, none⟩

def aliceClient : Client where
  store := Vault.memoryStore
  config := {}
  account := "default"
  world := { bench := { account := alice } }

/-- The session of a first login. -/
def firstSession : Session := aliceClient.opened 0 ⟨alice.userKey, alice.addressKeys⟩

/-- The client after two logins. -/
def twice : Client := aliceClient.run [.login 0 aliceRequest, .login 1 aliceRequest]

/-- What the second login stores in place of the first. -/
def secondCredentials : Credentials := .ofKeyPass ⟨"uid-2", "access-2", "refresh-2"⟩ alice.keyPass

theorem perform_login_alice :
    aliceClient.perform (aliceClient.manager.login (World.service true) 0 aliceRequest).run =
      (some (.ok firstSession), aliceClient.loggedIn alice.keyPass) := by
  have hopens : aliceClient.server.Opens aliceRequest alice.keyPass :=
    Account.opens_create (by decide) (by decide)
  have hunlock := (Account.follows_create "alice" "secret" none none).unlocks.unlock
  exact perform_login rfl hopens hunlock.1 hunlock.2 0

theorem twice_eq : twice = (aliceClient.loggedIn alice.keyPass).loggedIn alice.keyPass := by
  let once : Client := aliceClient.loggedIn alice.keyPass
  have hopens : once.server.Opens aliceRequest alice.keyPass :=
    (Account.opens_create (by decide) (by decide)).attached
  have hunlock := (Account.follows_create "alice" "secret" none none).unlocks.unlock
  have honce : step aliceClient (.login 0 aliceRequest) = once :=
    congrArg Prod.snd perform_login_alice
  have hsecond : once.perform (once.manager.login (World.service true) 1 aliceRequest).run =
      (some (.ok (once.opened 1 ⟨alice.userKey, alice.addressKeys⟩)),
        once.loggedIn alice.keyPass) :=
    perform_login rfl hopens hunlock.1 hunlock.2 1
  show step (step aliceClient (.login 0 aliceRequest)) (.login 1 aliceRequest) = _
  rw [honce]
  exact congrArg Prod.snd hsecond

theorem twice_stored : twice.stored = .ok (some secondCredentials) := by
  rw [twice_eq]
  exact congrArg Except.ok (Accounts.find?_insert.trans (if_pos rfl))

theorem twice_logout : twice.logout (some firstSession) false = (some (.ok ()), { twice with
    world.bench := twice.world.bench.setServer (twice.server.revoke "uid-1").2
    world.vault.memory := twice.world.vault.memory.erase "default" }) := by
  have hrevoke : (twice.server.revoke "uid-1").1 = .ok () := by
    rw [twice_eq]
    rfl
  exact logout_handed_over rfl hrevoke

/-- The session of the second login is still open when its credentials are forgotten. -/
theorem second_login_left_open :
    (aliceClient.perform (aliceClient.manager.login (World.service true) 0 aliceRequest).run).1 =
        some (.ok firstSession) ∧
      twice.stored = .ok (some secondCredentials) ∧
      (twice.logout (some firstSession) false).1 = some (.ok ()) ∧
      (twice.logout (some firstSession) false).2.stored = .ok none ∧
      (twice.logout (some firstSession) false).2.server.isActive secondCredentials.tokens.uid =
        true := by
  refine ⟨congrArg Prod.fst perform_login_alice, twice_stored, congrArg Prod.fst twice_logout,
    ?_, ?_⟩
  · rw [twice_logout, twice_eq]
    exact congrArg Except.ok (Accounts.find?_erase.trans (if_pos rfl))
  · rw [twice_logout, twice_eq]
    rfl

theorem logout_revokes_first_login :
    twice.Reached ∧ (twice.logout (some firstSession) false).1 = some (.ok ()) ∧
      (∀ uid, (twice.logout (some firstSession) false).2.server.isActive uid = true ↔
        twice.server.isActive uid = true ∧ twice.revokes (some firstSession) ≠ some uid) ∧
      (∀ uid, twice.revokes (some firstSession) = some uid → twice.server.isActive uid = true ∧
        ∀ more, ((twice.logout (some firstSession) false).2.run more).server.isActive uid = false) ∧
      ∀ credentials, twice.stored = .ok (some credentials) →
        ((twice.logout (some firstSession) false).2.server.isActive credentials.tokens.uid = true ↔
          twice.server.isActive credentials.tokens.uid = true ∧
            ∃ other, some firstSession = some other ∧
              other.tokens.uid ≠ credentials.tokens.uid) :=
  ⟨⟨aliceClient, _, rfl, rfl⟩, congrArg Prod.fst twice_logout,
    logout_revokes ⟨aliceClient, _, rfl, rfl⟩ (congrArg Prod.fst twice_logout)⟩

end Client

end SealedDrive
