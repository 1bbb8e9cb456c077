import SealedDrive.Proofs.Responses

/-!
Logging in and restoring as dialogues with the drive. Neither asks anything that takes time, so what
they come to is read off the drive (`Dialogue.playOn`). A login that goes through leaves the drive
so that it resumes the session (`Server.Resumes`), and then a restoration finds the same session;
and the right credentials do go through (`Server.Admits`).
-/

namespace SealedDrive

/-- The drive goes on with a session when it is asked to. -/
structure Server.Resumes (s : Server) (locked : LockedSession) : Prop where
  uid : locked.tokens.uid.isEmpty = false
  accessToken : locked.tokens.accessToken.isEmpty = false
  refreshToken : locked.tokens.refreshToken.isEmpty = false
  known : s.sessions.lookup locked.tokens.uid = some locked.tokens.accessToken
  records : locked = ⟨locked.tokens, s.user, s.addresses, {}, none⟩

/-- A login that is let in opens a session and makes it the current one. -/
theorem Server.login_ok {s : Server} {username password : String} {auth : Auth}
    (h : (s.login username password).1 = .ok auth) :
    auth.tokens = s.issueSession.1 ∧ (s.login username password).2 =
      { s.issueSession.2 with
        current := some s.issueSession.1.uid
        awaitingTwoFactor := s.twoFactorCode.isSome } := by
  unfold login at h ⊢
  split at h
  · cases h
  · next hright =>
    rw [if_neg hright]
    exact ⟨congrArg Auth.tokens (Except.ok.inj h).symm, rfl⟩

/-- A session that was just issued can be resumed. -/
theorem Server.resumes_issueSession (s : Server) :
    s.issueSession.2.Resumes ⟨s.issueSession.1, s.user, s.addresses, {}, none⟩ where
  uid := World.isEmpty_append (by decide) _
  accessToken := World.isEmpty_append (by decide) _
  refreshToken := World.isEmpty_append (by decide) _
  known := (lookup_setEntry _ _ _ _).trans (if_pos rfl)
  records := rfl

namespace LockedSession

variable {s s' : Server}

theorem isSilent_require (value : String) (what : Credential) :
    (require value what : ExceptT SessionError (Dialogue Unit) Unit).run.IsSilent := by
  unfold require
  split
  · exact ⟨_, rfl⟩
  · exact ⟨_, rfl⟩

theorem isSilent_requireSome (value : Option String) (error : SessionError) :
    (requireSome value error : ExceptT SessionError (Dialogue Unit) String).run.IsSilent := by
  unfold requireSome
  split
  · exact ⟨_, rfl⟩
  · exact ⟨_, rfl⟩

theorem isSilent_keyPassword (mode : PasswordMode) (request : LoginRequest) :
    (keyPassword mode request : ExceptT SessionError (Dialogue Unit) String).run.IsSilent := by
  cases mode with
  | one => exact ⟨_, rfl⟩
  | two => exact isSilent_requireSome _ _

theorem isSilent_primaryKey (user : User) :
    (primaryKey user : ExceptT SessionError (Dialogue Unit) UserKey).run.IsSilent := by
  unfold primaryKey
  split
  · exact ⟨_, rfl⟩
  · exact ⟨_, rfl⟩

theorem isInstant_restore (tokens : Tokens) :
    (restore tokens : ExceptT SessionError (Dialogue Unit) LockedSession).run.IsInstant :=
  .bind (isSilent_require _ _).isInstant fun _ => .bind (isSilent_require _ _).isInstant fun _ =>
    .bind (isSilent_require _ _).isInstant fun _ => .bind (Dialogue.isInstant_fetch rfl) fun _ =>
      .bind (Dialogue.isInstant_fetch rfl) fun _ =>
        .bind (Dialogue.isInstant_fetch rfl) fun _ => trivial

/-- The second factor of a login. -/
def confirm (auth : Auth) (request : LoginRequest) : ExceptT SessionError (Dialogue Unit) Unit :=
  if auth.twoFactorEnabled then do
    let code ← requireSome request.twoFactorCode .twoFactorRequired
    Dialogue.fetch .api (.submitTwoFactor code)
  else pure ()

/-- What a login goes on with once it is let in. -/
def enter (auth : Auth) (request : LoginRequest) :
    ExceptT SessionError (Dialogue Unit) (LockedSession × KeyPass) := do
  let password ← keyPassword auth.passwordMode request
  let user ← Dialogue.fetch .api .getUser
  let salts ← Dialogue.fetch .api .getSalts
  let key ← primaryKey user
  let keyPass ← ExceptT.mk <| pure <|
    (Keyring.saltFor (Bytes.ofText password) salts key.id).mapError .crypto
  let addresses ← Dialogue.fetch .api .getAddresses
  return ({ tokens := auth.tokens, user, addresses }, keyPass)

theorem login_eq (request : LoginRequest) :
    (login request : ExceptT SessionError (Dialogue Unit) (LockedSession × KeyPass)) = (do
      require request.username .username
      require request.password .password
      let auth : Auth ← Dialogue.fetch .api (.login request.username request.password)
      confirm auth request
      enter auth request) := by
  refine bind_congr fun _ => bind_congr fun _ => bind_congr fun auth => ?_
  unfold confirm
  cases auth.twoFactorEnabled with
  | true =>
    rw [if_pos rfl, if_pos rfl]
    exact (bind_assoc _ _ _).symm
  | false =>
    rw [if_neg (by decide), if_neg (by decide), pure_bind]
    rfl

theorem isInstant_confirm (auth : Auth) (request : LoginRequest) :
    (confirm auth request).run.IsInstant := by
  unfold confirm
  split
  · exact .bind (isSilent_requireSome _ _).isInstant fun _ => Dialogue.isInstant_fetch rfl
  · trivial

theorem isInstant_enter (auth : Auth) (request : LoginRequest) :
    (enter auth request).run.IsInstant :=
  .bind (isSilent_keyPassword _ _).isInstant fun _ =>
    .bind (Dialogue.isInstant_fetch rfl) fun user =>
      .bind (Dialogue.isInstant_fetch rfl) fun _ =>
        .bind (isSilent_primaryKey user).isInstant fun _ =>
          .bind (Dialogue.isSilent_answer _).isInstant fun _ =>
            .bind (Dialogue.isInstant_fetch rfl) fun _ => trivial

theorem isInstant_login (request : LoginRequest) :
    (login request : ExceptT SessionError (Dialogue Unit)
      (LockedSession × KeyPass)).run.IsInstant := by
  rw [login_eq]
  exact .bind (isSilent_require _ _).isInstant fun _ =>
    .bind (isSilent_require _ _).isInstant fun _ =>
      .bind (Dialogue.isInstant_fetch rfl) fun auth =>
        .bind (isInstant_confirm auth request) fun _ => isInstant_enter auth request

/-! ## What a login leaves behind -/

theorem playOn_confirm {auth : Auth} {request : LoginRequest} {u : Unit}
    (h : (confirm auth request).run.playOn s = (.ok u, s')) :
    ∃ awaiting, s' = { s with awaitingTwoFactor := awaiting } := by
  unfold confirm at h
  split at h
  · obtain ⟨code, middle, hcode, h⟩ := Dialogue.playOn_bind_ok h
    obtain rfl := (isSilent_requireSome _ _).playOn hcode
    obtain ⟨-, rfl⟩ := Dialogue.playOn_fetch_ok h
    show ∃ awaiting, (s.submitTwoFactor code).2 = _
    unfold Server.submitTwoFactor
    split
    · exact ⟨_, rfl⟩
    · exact ⟨_, rfl⟩
  · obtain ⟨-, rfl⟩ := Prod.ext_iff.1 h
    exact ⟨_, rfl⟩

/-- What a login is answered it takes from the records. -/
theorem playOn_enter {auth : Auth} {request : LoginRequest} {locked : LockedSession}
    {keyPass : KeyPass} (h : (enter auth request).run.playOn s = (.ok (locked, keyPass), s')) :
    s' = s ∧ locked = ⟨auth.tokens, s.user, s.addresses, {}, none⟩ := by
  unfold enter at h
  obtain ⟨password, _, hstep, h⟩ := Dialogue.playOn_bind_ok h
  obtain rfl := (isSilent_keyPassword _ _).playOn hstep
  obtain ⟨user, _, hstep, h⟩ := Dialogue.playOn_bind_ok h
  obtain ⟨huser, rfl⟩ := Dialogue.playOn_fetch_ok hstep
  obtain ⟨salts, _, hstep, h⟩ := Dialogue.playOn_bind_ok h
  obtain ⟨-, rfl⟩ := Dialogue.playOn_fetch_ok hstep
  obtain ⟨key, _, hstep, h⟩ := Dialogue.playOn_bind_ok h
  obtain rfl := (isSilent_primaryKey _).playOn hstep
  obtain ⟨_, _, hstep, h⟩ := Dialogue.playOn_bind_ok h
  obtain rfl := (Dialogue.isSilent_answer _).playOn hstep
  obtain ⟨addresses, _, hstep, h⟩ := Dialogue.playOn_bind_ok h
  obtain ⟨haddresses, rfl⟩ := Dialogue.playOn_fetch_ok hstep
  have huser : s.guarded (.ok s.user) = .ok user := huser
  have haddresses : s.guarded (.ok s.addresses) = .ok addresses := haddresses
  obtain ⟨hlocked, rfl⟩ := Prod.ext_iff.1 h
  cases hlocked
  rw [Server.guarded_ok huser, Server.guarded_ok haddresses]
  exact ⟨rfl, rfl⟩

/-- A login leaves the drive so that it resumes the session. -/
theorem playOn_login {request : LoginRequest} {locked : LockedSession} {keyPass : KeyPass}
    (h : (login request).run.playOn s = (.ok (locked, keyPass), s')) : s'.Resumes locked := by
  rw [login_eq] at h
  obtain ⟨_, _, hstep, h⟩ := Dialogue.playOn_bind_ok h
  obtain rfl := (isSilent_require _ _).playOn hstep
  obtain ⟨_, _, hstep, h⟩ := Dialogue.playOn_bind_ok h
  obtain rfl := (isSilent_require _ _).playOn hstep
  obtain ⟨auth, _, hstep, h⟩ := Dialogue.playOn_bind_ok h
  obtain ⟨hauth, rfl⟩ := Dialogue.playOn_fetch_ok hstep
  obtain ⟨_, _, hstep, h⟩ := Dialogue.playOn_bind_ok h
  obtain ⟨awaiting, rfl⟩ := playOn_confirm hstep
  obtain ⟨rfl, rfl⟩ := playOn_enter h
  obtain ⟨htokens, hserver⟩ := Server.login_ok hauth
  have hissued := s.resumes_issueSession
  have hrespond : (s.respond (.login request.username request.password)).2 =
    (s.login request.username request.password).2 := rfl
  rw [hrespond, hserver, htokens]
  exact ⟨hissued.uid, hissued.accessToken, hissued.refreshToken, hissued.known, rfl⟩

/-- A restoration finds the session again. -/
theorem playOn_restore {locked : LockedSession} (h : s.Resumes locked) :
    ∃ s', (restore locked.tokens).run.playOn s = (.ok locked, s') := by
  let resumed : Server :=
    { s with current := some locked.tokens.uid, awaitingTwoFactor := false }
  have hresume : s.respond (.resume locked.tokens) = (.ok (), resumed) := if_pos h.known
  have huser : resumed.respond .getUser = (.ok s.user, resumed) := rfl
  have haddresses : resumed.respond .getAddresses = (.ok s.addresses, resumed) := rfl
  refine ⟨resumed, ?_⟩
  rw [World.restore_eq h.uid h.accessToken h.refreshToken]
  refine (Dialogue.playOn_bind_of_ok (Dialogue.playOn_fetch_of_ok hresume)).trans ?_
  refine (Dialogue.playOn_bind_of_ok (Dialogue.playOn_fetch_of_ok huser)).trans ?_
  refine (Dialogue.playOn_bind_of_ok (Dialogue.playOn_fetch_of_ok haddresses)).trans ?_
  rw [h.records]
  rfl

end LockedSession

/-- The drive lets a login in, and this key pass is salted for it. -/
structure Server.Admits (s : Server) (request : LoginRequest) (keyPass : KeyPass) : Prop where
  username : s.username = request.username ∧ request.username.isEmpty = false
  password : s.password = request.password ∧ request.password.isEmpty = false
  twoFactorCode : ∀ code, s.twoFactorCode = some code →
    request.twoFactorCode = some code ∧ code.isEmpty = false
  salted : ∃ password key,
    (LockedSession.keyPassword s.passwordMode request :
      ExceptT SessionError (Dialogue Unit) String) = pure password ∧
    s.user.primaryKey? = some key ∧
    Keyring.saltFor (Bytes.ofText password) s.salts key.id = .ok keyPass

namespace LockedSession

variable {s : Server} {request : LoginRequest} {keyPass : KeyPass}

theorem require_of_not_empty {value : String} (h : value.isEmpty = false) (what : Credential) :
    (require value what : ExceptT SessionError (Dialogue Unit) Unit) = pure () := by
  unfold require
  rw [h]
  rfl

theorem requireSome_of_not_empty {value : String} (h : value.isEmpty = false)
    (error : SessionError) :
    (requireSome (some value) error : ExceptT SessionError (Dialogue Unit) String) =
      pure value := by
  have hfilter : (some value).filter (fun text => !text.isEmpty) = some value := by simp [h]
  unfold requireSome
  rw [hfilter]

theorem playOn_confirm_of_admits (h : s.Admits request keyPass) :
    (confirm ⟨s.issueSession.1, s.passwordMode, s.twoFactorCode.isSome⟩ request).run.playOn
        { s.issueSession.2 with
          current := some s.issueSession.1.uid
          awaitingTwoFactor := s.twoFactorCode.isSome } = (.ok (), s.attached) := by
  unfold confirm
  cases hcode : s.twoFactorCode with
  | none => rfl
  | some code =>
    obtain ⟨hrequest, hempty⟩ := h.twoFactorCode code hcode
    have hissued : s.issueSession.2.twoFactorCode = some code := hcode
    rw [hrequest, requireSome_of_not_empty hempty]
    show (Dialogue.fetch SessionError.api (.submitTwoFactor code)).run.playOn _ = _
    exact Dialogue.playOn_fetch_of_ok (if_neg (by simp [hissued]))

theorem playOn_enter_of_admits (h : s.Admits request keyPass) (twoFactorEnabled : Bool) :
    (enter ⟨s.issueSession.1, s.passwordMode, twoFactorEnabled⟩ request).run.playOn s.attached =
      (.ok (⟨s.issueSession.1, s.user, s.addresses, {}, none⟩, keyPass), s.attached) := by
  obtain ⟨password, key, hpassword, hkey, hsalt⟩ := h.salted
  have huser : s.attached.respond .getUser = (.ok s.user, s.attached) := rfl
  have hsalts : s.attached.respond .getSalts = (.ok s.salts, s.attached) := rfl
  have haddresses : s.attached.respond .getAddresses = (.ok s.addresses, s.attached) := rfl
  unfold enter
  dsimp only
  rw [hpassword, pure_bind]
  refine (Dialogue.playOn_bind_of_ok (Dialogue.playOn_fetch_of_ok huser)).trans ?_
  refine (Dialogue.playOn_bind_of_ok (Dialogue.playOn_fetch_of_ok hsalts)).trans ?_
  simp only [primaryKey, hkey, hsalt, pure_bind]
  exact Dialogue.playOn_bind_of_ok (Dialogue.playOn_fetch_of_ok haddresses)

theorem playOn_login_of_admits (h : s.Admits request keyPass) :
    (login request).run.playOn s =
      (.ok (⟨s.issueSession.1, s.user, s.addresses, {}, none⟩, keyPass), s.attached) := by
  have hlogin : s.respond (.login request.username request.password) =
      (.ok ⟨s.issueSession.1, s.passwordMode, s.twoFactorCode.isSome⟩,
        { s.issueSession.2 with
          current := some s.issueSession.1.uid
          awaitingTwoFactor := s.twoFactorCode.isSome }) :=
    if_neg (by simp [h.username.1, h.password.1])
  rw [login_eq, require_of_not_empty h.username.2, require_of_not_empty h.password.2, pure_bind,
    pure_bind]
  refine (Dialogue.playOn_bind_of_ok (Dialogue.playOn_fetch_of_ok hlogin)).trans ?_
  refine (Dialogue.playOn_bind_of_ok (playOn_confirm_of_admits h)).trans ?_
  exact playOn_enter_of_admits h _

/-- Only the number of a session tells one unlocking from another. -/
theorem unlock_number {locked : LockedSession} {number : Nat} {session : Session}
    (h : locked.unlock number keyPass = .ok session) (number' : Nat) :
    locked.unlock number' keyPass = .ok { session with number := number' } := by
  unfold unlock at h ⊢
  split at h
  · cases h
  · next hempty =>
    rw [if_neg hempty]
    split at h
    · cases h
    · cases h
      rfl

end LockedSession

/-- One password is enough where there is no other one and no code. -/
theorem Server.Opens.admits {s : Server} {request : LoginRequest} {keyPass : KeyPass}
    (h : s.Opens request keyPass) : s.Admits request keyPass := by
  obtain ⟨key, hkey, hsalt⟩ := h.salted
  refine ⟨h.username, h.password, fun code hcode => ?_, request.password, key, ?_, hkey, hsalt⟩
  · cases h.twoFactorCode.symm.trans hcode
  · rw [h.passwordMode]
    rfl

theorem burst_login {world : World} {request : LoginRequest} {keyPass : KeyPass}
    (h : world.bench.server.Opens request keyPass) (left : Nat) :
    ((LockedSession.login request).run.carryAlone (World.service true)).burst left world =
      (.done (.ok (⟨world.bench.server.issueSession.1, world.bench.server.user,
          world.bench.server.addresses, {}, none⟩, keyPass)), left,
        world.withServer world.bench.server.attached) := by
  have hburst := Dialogue.burst_playOn (LockedSession.isInstant_login request) world left
  rw [LockedSession.playOn_login_of_admits h.admits] at hburst
  exact hburst

namespace Account

/-- The passwords and the code of an account log in to it, in one and in two password mode. -/
theorem admits_create {username password : String} {mailboxPassword twoFactorCode : Option String}
    (husername : username.isEmpty = false) (hpassword : password.isEmpty = false)
    (hmailbox : ∀ text, mailboxPassword = some text → text.isEmpty = false)
    (hcode : ∀ text, twoFactorCode = some text → text.isEmpty = false) :
    (create username password mailboxPassword twoFactorCode).server.Admits
      ⟨username, password, mailboxPassword, twoFactorCode⟩
      (create username password mailboxPassword twoFactorCode).keyPass where
  username := ⟨rfl, husername⟩
  password := ⟨rfl, hpassword⟩
  twoFactorCode := fun code hsome => ⟨hsome, hcode code hsome⟩
  salted := by
    refine ⟨mailboxPassword.getD password, _, ?_, rfl, Keyring.saltFor_encode rfl _⟩
    cases mailboxPassword with
    | none => rfl
    | some text => exact LockedSession.requireSome_of_not_empty (hmailbox text rfl) _

/-- More addresses make no difference to a login. -/
theorem admits_pushAddress {account : Account} {request : LoginRequest}
    (h : account.server.Admits request account.keyPass) (email : String) (active : Bool) :
    (account.pushAddress email active).2.server.Admits request
      (account.pushAddress email active).2.keyPass :=
  ⟨h.username, h.password, h.twoFactorCode, h.salted⟩

end Account

end SealedDrive
