import SealedDrive.Proofs.Keeping
import SealedDrive.Proofs.KeyPass
import SealedDrive.Proofs.Revocation

/-!
A session that a login opened is restored from what the login stored. The login leaves the drive so
that it resumes the session, and the store so that it holds the tokens and the key pass; a
restoration attaches to the tokens, finds the same records and unlocks them with the same key pass.
-/

namespace SealedDrive

/-! ## Clients -/

namespace Client

variable {client : Client} {keeping : Keeping}

/-- What a restoration answers, and the client after it. -/
def restore (client : Client) (number : Nat) : Option (Except SessionError Session) × Client :=
  client.perform (client.manager.restore (World.service true) number).run

/-- What a login answers, and the client after it. -/
def login (client : Client) (number : Nat) (request : LoginRequest) :
    Option (Except SessionError Session) × Client :=
  client.perform (client.manager.login (World.service true) number request).run

/-- The session that a key pass opens. -/
def unlocked (client : Client) (number : Nat) (locked : LockedSession) (keyPass : KeyPass) :
    Except SessionError Session :=
  { locked with lister := client.config.lister, timeout := some client.config.timeout }.unlock
    number keyPass

/-- No bound cuts short what is answered at once. -/
theorem perform_timed (client : Client) {α : Type}
    {p : ExceptT SessionError (Dialogue Unit) α} (h : p.run.IsInstant) :
    client.perform (client.manager.timed (p.run.carryAlone (World.service true))).run =
      (some (p.run.playOn client.server).1,
        { client with world := client.world.withServer (p.run.playOn client.server).2 }) :=
  perform_of_burst (Activity.burst_before (Dialogue.burst_playOn h client.world client.allowance)
    _ _)

theorem perform_change (client : Client) (hstore : client.store = keeping.store)
    (credentials : Credentials) :
    client.perform (SessionManager.change (client.manager.handle.save credentials)).run =
      (some ((keeping.store.save client.account credentials client.world.vault).1.mapError .store),
        { client with
          world.vault :=
            (keeping.store.save client.account credentials client.world.vault).2 }) := by
  obtain ⟨store, config, account, world, allowance⟩ := client
  subst hstore
  rfl

/-- What a login leaves behind: a session that the drive resumes, and the credentials for it. -/
structure Entered (client : Client) (keeping : Keeping) (after : Client) (locked : LockedSession)
    (keyPass : KeyPass) : Prop where
  resumes : after.server.Resumes locked
  stored : keeping.store.load client.account after.world.vault =
    .ok (some (.ofKeyPass locked.tokens keyPass))

theorem entered_of_login (hstore : client.store = keeping.store) {number : Nat}
    {request : LoginRequest} {session : Session}
    (h : (client.login number request).1 = some (.ok session)) :
    ∃ locked keyPass, Entered client keeping (client.login number request).2 locked keyPass ∧
      client.unlocked number locked keyPass = .ok session := by
  have hphase := client.perform_timed (LockedSession.isInstant_login request)
  unfold login SessionManager.login at h ⊢
  rw [perform_bind, hphase] at h ⊢
  rcases hplay : (LockedSession.login request).run.playOn client.server with
    ⟨error | ⟨locked, keyPass⟩, server⟩
  · rw [hplay] at h
    cases h
  · rw [hplay] at h
    dsimp only at h ⊢
    let entered : Client := { client with world := client.world.withServer server }
    have hchange : entered.perform (SessionManager.change (client.manager.handle.save
          (.ofKeyPass locked.tokens keyPass))).run = _ :=
      perform_change entered hstore (.ofKeyPass locked.tokens keyPass)
    rw [perform_bind, hchange] at h ⊢
    obtain ⟨vault, hsave, hreplaced⟩ | ⟨error, vault, hsave, -⟩ :=
      keeping.save_cases client.account (.ofKeyPass locked.tokens keyPass) client.world.vault
    · have hsave : keeping.store.save entered.account (.ofKeyPass locked.tokens keyPass)
        entered.world.vault = _ := hsave
      rw [hsave] at h ⊢
      refine ⟨locked, keyPass, ⟨LockedSession.playOn_login hplay, ?_⟩, ?_⟩
      · exact hreplaced.load
      · exact Option.some.inj h
    · have hsave : keeping.store.save entered.account (.ofKeyPass locked.tokens keyPass)
        entered.world.vault = _ := hsave
      rw [hsave] at h
      cases h

/-- Where a session was entered, it is restored. -/
theorem restore_of_entered {after : Client} {locked : LockedSession} {keyPass : KeyPass}
    (h : Entered client keeping after locked keyPass) {later : Client}
    (hstore : later.store = keeping.store) (haccount : later.account = client.account)
    (hserver : later.server = after.server) (hvault : later.world.vault = after.world.vault)
    (number : Nat) : (later.restore number).1 = some (later.unlocked number locked keyPass) := by
  have hload : later.perform (SessionManager.consult later.manager.handle.load).run =
      (some (.ok (some (.ofKeyPass locked.tokens keyPass))), later) := by
    have hstored : later.stored = .ok (some (.ofKeyPass locked.tokens keyPass)) := by
      unfold stored
      rw [hstore, haccount, hvault, h.stored]
    have hconsult : later.perform (SessionManager.consult later.manager.handle.load).run =
        (some (later.stored.mapError .store), later) := rfl
    rw [hconsult, hstored]
    rfl
  have hkeyPass : later.perform (ExceptT.mk (pure ((Credentials.ofKeyPass locked.tokens
        keyPass).keyPass.mapError .crypto)) : ExceptT SessionError (Activity World) KeyPass).run =
      (some (.ok keyPass), later) := by
    have hdecode : (Credentials.ofKeyPass locked.tokens keyPass).keyPass = .ok keyPass :=
      keyPass.ofBase64_toBase64
    rw [hdecode]
    rfl
  obtain ⟨server, hplay⟩ := LockedSession.playOn_restore (hserver ▸ h.resumes)
  have hphase : later.perform (later.manager.timed ((LockedSession.restore
        (Credentials.ofKeyPass locked.tokens keyPass).tokens).run.carryAlone
        (World.service true))).run =
      (some (.ok locked), { later with world := later.world.withServer server }) := by
    have hinstant := later.perform_timed (LockedSession.isInstant_restore locked.tokens)
    rw [hplay] at hinstant
    exact hinstant
  unfold restore SessionManager.restore SessionManager.storedCredentials
  rw [perform_bind, perform_bind, hload]
  dsimp only
  have hfound : later.perform (pure (Credentials.ofKeyPass locked.tokens keyPass) :
      ExceptT SessionError (Activity World) Credentials).run = (some (.ok _), later) := rfl
  rw [hfound]
  dsimp only
  rw [perform_bind, hkeyPass]
  dsimp only
  rw [perform_bind, hphase]
  rfl

/-- After a login a manager with the same settings, over the same account of the store, restores the
session that the login opened, as long as nothing else was done to the drive and to the store. -/
theorem login_restored (keeping : Keeping) {client later : Client}
    (hclient : client.store = keeping.store) (hlater : later.store = keeping.store)
    {number : Nat} {request : LoginRequest} {session : Session}
    (hlogin : (client.login number request).1 = some (.ok session))
    (hconfig : later.config = client.config) (haccount : later.account = client.account)
    (hserver : later.server = (client.login number request).2.server)
    (hvault : later.world.vault = (client.login number request).2.world.vault) (number' : Nat) :
    (later.restore number').1 = some (.ok { session with number := number' }) := by
  obtain ⟨locked, keyPass, hentered, hunlock⟩ := entered_of_login hclient hlogin
  rw [restore_of_entered hentered hlater haccount hserver hvault]
  unfold unlocked at hunlock ⊢
  rw [hconfig, LockedSession.unlock_number hunlock]

/-! ## Logging in -/

/-- The right credentials open the session of the account. -/
theorem login_of_admits (hstore : client.store = keeping.store) {request : LoginRequest}
    {keyPass : KeyPass} (h : client.server.Admits request keyPass)
    (hsave : (keeping.store.save client.account
      (.ofKeyPass client.server.issueSession.1 keyPass) client.world.vault).1 = .ok ())
    (number : Nat) :
    (client.login number request).1 = some (client.unlocked number
      ⟨client.server.issueSession.1, client.server.user, client.server.addresses, {}, none⟩
      keyPass) := by
  have hphase := client.perform_timed (LockedSession.isInstant_login request)
  rw [LockedSession.playOn_login_of_admits h] at hphase
  let entered : Client := { client with world := client.world.withServer client.server.attached }
  have hchange : entered.perform (SessionManager.change (client.manager.handle.save
      (.ofKeyPass client.server.issueSession.1 keyPass))).run = _ :=
    perform_change entered hstore (.ofKeyPass client.server.issueSession.1 keyPass)
  have hsave : (keeping.store.save entered.account
    (.ofKeyPass client.server.issueSession.1 keyPass) entered.world.vault).1 = .ok () := hsave
  unfold login SessionManager.login
  rw [perform_bind, hphase]
  dsimp only
  rw [perform_bind, hchange, hsave]
  rfl

/-- The session of an account that opens over a client. -/
def sessionOf (client : Client) (account : Account) (number : Nat) : Session :=
  { account.sessionOf number account.server.issueSession.1 with
    lister := client.config.lister, timeout := some client.config.timeout }

theorem login_of_unlocks (hstore : client.store = keeping.store) {account : Account}
    (haccount : client.world.bench.account = account) (hunlocks : account.Unlocks)
    {request : LoginRequest} (h : account.server.Admits request account.keyPass)
    (hsave : (keeping.store.save client.account
      (.ofKeyPass account.server.issueSession.1 account.keyPass) client.world.vault).1 = .ok ())
    (number : Nat) :
    (client.login number request).1 = some (.ok (client.sessionOf account number)) := by
  subst haccount
  obtain ⟨hempty, hunlock⟩ := hunlocks.unlock
  have hserver : client.server = client.world.bench.account.server := rfl
  rw [login_of_admits hstore h hsave number]
  unfold unlocked LockedSession.unlock
  rw [hempty, if_neg (by decide), hserver, hunlock]
  rfl

/-- A user with a second password, a second factor and three addresses, one of them inactive. -/
def carol : Account :=
  (((Account.create "carol" "login-pw" (some "mailbox-pw") (some "123456")).pushAddress
    "carol@work.example" true).2.pushAddress "carol@old.example" false).2

def carolRequest : LoginRequest := ⟨"carol", "login-pw", some "mailbox-pw", some "123456"⟩

def carolClient : Client where
  store := Vault.memoryStore
  config := {}
  account := "default"
  world := { bench := { account := carol } }

theorem login_carol :
    (carolClient.login 0 carolRequest).1 = some (.ok (carolClient.sessionOf carol 0)) := by
  have hcreated : (Account.create "carol" "login-pw" (some "mailbox-pw")
      (some "123456")).server.Admits carolRequest _ :=
    Account.admits_create (by decide) (by decide) (by simp) (by simp)
  have hadmits : carol.server.Admits carolRequest carol.keyPass :=
    Account.admits_pushAddress (Account.admits_pushAddress hcreated _ _) _ _
  have hunlocks : carol.Unlocks :=
    ((Account.follows_create _ _ _ _).unlocks.pushAddress _ _).pushAddress _ _
  have hclient : carolClient.store = Keeping.memory.store := rfl
  exact login_of_unlocks hclient rfl hunlocks hadmits rfl 0

/-- Another client of hers after the login. -/
def carolLater : Client :=
  { carolClient with world := (carolClient.login 0 carolRequest).2.world }

theorem login_restored_carol :
    (carolClient.login 0 carolRequest).1 = some (.ok (carolClient.sessionOf carol 0)) ∧
      (carolLater.restore 1).1 = some (.ok (carolClient.sessionOf carol 1)) := by
  have hclient : carolClient.store = Keeping.memory.store := rfl
  have hlater : carolLater.store = Keeping.memory.store := rfl
  exact ⟨login_carol, login_restored .memory hclient hlater login_carol rfl rfl rfl rfl 1⟩

end Client

end SealedDrive
