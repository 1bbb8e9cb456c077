import SealedDrive.Proofs.Restoring
import SealedDrive.Proofs.Transcripts
import SealedDrive.Proofs.Unlocking

/-!
A login step by step. Each step is a check or a request, and the first that fails ends the login
with its own error (`LoginRequest.steps`). Whoever answers, the requests of a login are those of the
steps up to there, in their order; and the key pass of a login that goes through is salted for the
user key that unlocking opens.
-/

namespace SealedDrive

variable {α β ε : Type}

/-! ## Steps -/

/-- The error of a computation, if it failed. -/
def failureOf : Except ε α → Option ε
  | .ok _ => none
  | .error error => some error

theorem exists_ok_of_failureOf {result : Except ε α} (h : failureOf result = none) :
    ∃ a, result = .ok a := by
  cases result with
  | ok a => exact ⟨a, rfl⟩
  | error error => cases h

/-- A check, or a request; and the error that it fails with, if it does. -/
structure LoginStep where
  request : Option Request
  failure : Option SessionError

namespace LoginStep

/-- A check of what the client has. -/
def check (result : Except SessionError α) : LoginStep := ⟨none, failureOf result⟩

/-- A request that is replied so. -/
def ask (reply : (request : Request) → request.Reply) (request : Request) : LoginStep :=
  ⟨some request, failureOf ((reply request).mapError .api)⟩

/-- The steps up to the first that fails. -/
def taken : List LoginStep → List LoginStep
  | [] => []
  | step :: rest =>
    match step.failure with
    | some _ => [step]
    | none => step :: taken rest

def requests (steps : List LoginStep) : List Request := steps.filterMap (·.request)

/-- The error of the first step that fails. -/
def failure? (steps : List LoginStep) : Option SessionError := steps.findSome? (·.failure)

theorem requests_append (steps more : List LoginStep) :
    requests (steps ++ more) = requests steps ++ requests more := List.filterMap_append ..

theorem failure?_append (steps more : List LoginStep) :
    failure? (steps ++ more) = (failure? steps).or (failure? more) := List.findSome?_append

theorem taken_prefix (steps : List LoginStep) : taken steps <+: steps := by
  induction steps with
  | nil => exact List.nil_prefix
  | cons step rest ih =>
    unfold taken
    split
    · exact List.cons_prefix_cons.mpr ⟨rfl, List.nil_prefix⟩
    · exact List.cons_prefix_cons.mpr ⟨rfl, ih⟩

/-- Where no step fails, all are taken, and then what comes after them. -/
theorem taken_append_of_none {steps : List LoginStep} (h : failure? steps = none)
    (more : List LoginStep) : taken (steps ++ more) = steps ++ taken more := by
  induction steps with
  | nil => rfl
  | cons step rest ih =>
    obtain ⟨hstep, hrest⟩ := List.findSome?_eq_none_iff.mp h |> List.forall_mem_cons.mp
    simp only [List.cons_append, taken, hstep, ih (List.findSome?_eq_none_iff.mpr hrest)]

theorem taken_of_none {steps : List LoginStep} (h : failure? steps = none) :
    taken steps = steps := by
  have happend := taken_append_of_none h []
  rwa [List.append_nil, taken, List.append_nil] at happend

/-- Once a step has failed, no other is taken. -/
theorem taken_append_of_some {steps : List LoginStep} {error : SessionError}
    (h : failure? steps = some error) (more : List LoginStep) :
    taken (steps ++ more) = taken steps := by
  induction steps with
  | nil => cases h
  | cons step rest ih =>
    cases hstep : step.failure with
    | some first => simp only [List.cons_append, taken, hstep]
    | none =>
      have hrest : failure? rest = some error := by
        rw [failure?, List.findSome?_cons, hstep] at h
        exact h
      simp only [List.cons_append, taken, hstep, ih hrest]

end LoginStep

namespace Dialogue

variable {reply : (request : Request) → request.Reply}

theorem asked_bind (p : ExceptT ε (Dialogue Unit) α) (f : α → ExceptT ε (Dialogue Unit) β) :
    (p >>= f).run.asked reply = p.run.asked reply ++
      match (p.run.answerBy reply ()).1 with
      | .ok a => (f a).run.asked reply
      | .error _ => [] := by
  have hall : ∀ q : Dialogue Unit (Except ε α), (q.bind (ExceptT.bindCont f)).asked reply =
      q.asked reply ++
        match (q.answerBy reply ()).1 with
        | .ok a => (f a).run.asked reply
        | .error _ => [] := by
    intro q
    induction q with
    | done r => cases r <;> rfl
    | ask request next ih => exact congrArg (request :: ·) (ih _)
    | read next ih => exact ih ()
    | write memory next ih => exact ih
  exact hall p.run

theorem answer_bind (p : ExceptT ε (Dialogue Unit) α) (f : α → ExceptT ε (Dialogue Unit) β) :
    ((p >>= f).run.answerBy reply ()).1 =
      match (p.run.answerBy reply ()).1 with
      | .ok a => ((f a).run.answerBy reply ()).1
      | .error error => .error error := by
  have hall : ∀ q : Dialogue Unit (Except ε α),
      ((q.bind (ExceptT.bindCont f)).answerBy reply ()).1 =
        match (q.answerBy reply ()).1 with
        | .ok a => ((f a).run.answerBy reply ()).1
        | .error error => .error error := by
    intro q
    induction q with
    | done r => cases r <;> rfl
    | ask request next ih => exact ih _
    | read next ih => exact ih ()
    | write memory next ih => exact ih
  exact hall p.run

theorem answer_bind_ok {p : ExceptT ε (Dialogue Unit) α} {f : α → ExceptT ε (Dialogue Unit) β}
    {b : β} (h : ((p >>= f).run.answerBy reply ()).1 = .ok b) :
    ∃ a, (p.run.answerBy reply ()).1 = .ok a ∧ ((f a).run.answerBy reply ()).1 = .ok b := by
  rw [answer_bind] at h
  cases hp : (p.run.answerBy reply ()).1 with
  | ok a =>
    rw [hp] at h
    exact ⟨a, rfl, h⟩
  | error error =>
    rw [hp] at h
    cases h

end Dialogue

namespace LoginStep

variable {reply : (request : Request) → request.Reply} {steps more : List LoginStep}

/-- With these replies, an operation asks what the steps ask up to the first that fails, and fails
as that does. -/
structure Describe (reply : (request : Request) → request.Reply) (steps : List LoginStep)
    (p : ExceptT SessionError (Dialogue Unit) α) : Prop where
  asked : p.run.asked reply = requests (taken steps)
  fails : failureOf (p.run.answerBy reply ()).1 = failure? steps

theorem Describe.bind {p : ExceptT SessionError (Dialogue Unit) α}
    {f : α → ExceptT SessionError (Dialogue Unit) β} (h : Describe reply steps p)
    (hf : ∀ a, (p.run.answerBy reply ()).1 = .ok a → Describe reply more (f a)) :
    Describe reply (steps ++ more) (p >>= f) := by
  have hfails := h.fails
  cases ha : (p.run.answerBy reply ()).1 with
  | error error =>
    rw [ha] at hfails
    have hsome : failure? steps = some error := hfails.symm
    refine ⟨?_, ?_⟩
    · rw [Dialogue.asked_bind, h.asked, ha, taken_append_of_some hsome, List.append_nil]
    · rw [Dialogue.answer_bind, ha, failure?_append, hsome]
      rfl
  | ok a =>
    rw [ha] at hfails
    have hnone : failure? steps = none := hfails.symm
    refine ⟨?_, ?_⟩
    · rw [Dialogue.asked_bind, h.asked, ha, taken_append_of_none hnone, requests_append,
        taken_of_none hnone, ← (hf a ha).asked]
    · rw [Dialogue.answer_bind, ha, failure?_append, hnone, ← (hf a ha).fails]
      rfl

theorem check_map (result : Except SessionError α) (f : α → β) :
    check (result.map f) = check result := by
  cases result <;> rfl

theorem describe_pure (a : α) : Describe reply [] (pure a) := ⟨rfl, rfl⟩

theorem describe_check (result : Except SessionError α) :
    Describe reply [check result] (ExceptT.mk (pure result)) := by
  cases result <;> exact ⟨rfl, rfl⟩

theorem answer_fetch (reply : (request : Request) → request.Reply) (request : Request) :
    ((Dialogue.fetch SessionError.api request).run.answerBy reply ()).1 =
      (reply request).mapError .api := by
  unfold Dialogue.fetch
  simp only [ExceptT.run_mk, Dialogue.answerBy]
  cases reply request <;> rfl

theorem ok_of_fetch (request : Request) {answer : request.Answer}
    (h : ((Dialogue.fetch SessionError.api request).run.answerBy reply ()).1 = .ok answer) :
    reply request = .ok answer :=
  mapError_eq_ok_iff.mp ((answer_fetch reply request).symm.trans h)

theorem describe_ask (request : Request) :
    Describe reply [ask reply request] (Dialogue.fetch .api request) := by
  constructor
  · unfold Dialogue.fetch ask taken requests
    simp only [ExceptT.run_mk, Dialogue.asked]
    cases reply request <;> rfl
  · rw [answer_fetch]
    unfold failure? ask
    cases reply request <;> rfl

end LoginStep

/-! ## The steps of a login -/

/-- A text that has to be there and not be empty. -/
def given (value : Option String) (error : SessionError) : Except SessionError String :=
  match value with
  | some text => if text.isEmpty then .error error else .ok text
  | none => .error error

theorem given_eq_ok_iff {value : Option String} {error : SessionError} {text : String} :
    given value error = .ok text ↔ value = some text ∧ text.isEmpty = false := by
  unfold given
  cases value with
  | none => simp
  | some other =>
    dsimp only
    split
    · next hempty =>
      refine ⟨nofun, ?_⟩
      rintro ⟨⟨⟩, hfull⟩
      cases hempty.symm.trans hfull
    · next hfull =>
      rw [Except.ok.injEq, Option.some.injEq]
      refine ⟨?_, fun h => h.1⟩
      rintro rfl
      exact ⟨rfl, (Bool.not_eq_true _).mp hfull⟩

/-- The salt that is listed for a key. -/
def saltOf (salts : List Salt) (keyId : String) : Except SessionError Bytes :=
  match (salts.find? (·.id = keyId)).bind (·.keySalt) with
  | some text => (Base64.decode text).mapError fun fault => .crypto (.encoding fault)
  | none => .error (.crypto (.missingSalt keyId))

def User.keyToSalt (user : User) : Except SessionError UserKey :=
  match user.primaryKey? with
  | some key => .ok key
  | none => .error .noUserKey

theorem keyToSalt_eq_ok_iff {user : User} {key : UserKey} :
    user.keyToSalt = .ok key ↔ user.primaryKey? = some key := by
  unfold User.keyToSalt
  cases user.primaryKey? <;> simp

theorem saltOf_eq_ok_iff {salts : List Salt} {keyId : String} {octets : Bytes} :
    saltOf salts keyId = .ok octets ↔ ∃ entry text, IsFirst (·.id = keyId) salts entry ∧
      entry.keySalt = some text ∧ Base64.decode text = .ok octets := by
  have hfind (text : String) : (salts.find? (·.id = keyId)).bind (·.keySalt) = some text ↔
      ∃ entry, IsFirst (·.id = keyId) salts entry ∧ entry.keySalt = some text := by
    rw [Option.bind_eq_some_iff]
    simp only [find?_eq_some_iff_isFirst, decide_eq_true_eq]
  unfold saltOf
  constructor
  · intro h
    split at h
    · next text hsome =>
      obtain ⟨entry, hfirst, htext⟩ := (hfind text).mp hsome
      exact ⟨entry, text, hfirst, htext, mapError_eq_ok_iff.mp h⟩
    · cases h
  · rintro ⟨entry, text, hfirst, htext, hdecode⟩
    rw [(hfind text).mpr ⟨entry, hfirst, htext⟩]
    exact mapError_eq_ok_iff.mpr hdecode

section

variable (reply : (request : Request) → request.Reply)

/-- The user key that the key pass is for. -/
def userKey : Except SessionError UserKey := do
  let user ← (reply .getUser).mapError SessionError.api
  user.keyToSalt

/-- The salt of that key. -/
def keySalt : Except SessionError Bytes := do
  let salts ← (reply .getSalts).mapError SessionError.api
  let key ← userKey reply
  saltOf salts key.id

end

namespace LoginRequest

/-- The password for the keys: that of the mailbox where there is a separate one. -/
def passwordFor (request : LoginRequest) : PasswordMode → Except SessionError String
  | .one => .ok request.password
  | .two => given request.mailboxPassword (.missingCredential .mailboxPassword)

section

variable (request : LoginRequest) (reply : (request : Request) → request.Reply)

/-- How the login itself is answered. -/
def auth : Except SessionError Auth :=
  (reply (.login request.username request.password)).mapError .api

/-- Whether the account requires a second factor. -/
def needsCode : Bool :=
  match request.auth reply with
  | .ok auth => auth.twoFactorEnabled
  | .error _ => false

/-- The request that brings the second factor. -/
def submit : Request := .submitTwoFactor (request.twoFactorCode.getD "")

/-- The steps until a login is let in. -/
def entrance : List LoginStep :=
  .check (given request.username (.missingCredential .username)) ::
  .check (given request.password (.missingCredential .password)) ::
  .ask reply (.login request.username request.password) ::
  if request.needsCode reply then
    [.check (given request.twoFactorCode .twoFactorRequired), .ask reply request.submit]
  else []

/-- The steps of a login in their order. -/
def steps : List LoginStep :=
  request.entrance reply ++
  [.check ((request.auth reply).bind fun auth => request.passwordFor auth.passwordMode),
    .ask reply .getUser,
    .ask reply .getSalts,
    .check (userKey reply),
    .check (keySalt reply),
    .ask reply .getAddresses]

end

end LoginRequest

namespace LockedSession

open LoginStep

variable {reply : (request : Request) → request.Reply} {request : LoginRequest}

theorem describe_require (value : String) (what : Credential) :
    Describe reply [check (given value (.missingCredential what))] (require value what) := by
  unfold require given
  dsimp only
  cases value.isEmpty <;> exact ⟨rfl, rfl⟩

theorem requireSome_eq (value : Option String) (error : SessionError) :
    (requireSome value error : ExceptT SessionError (Dialogue Unit) String) =
      ExceptT.mk (pure (given value error)) := by
  unfold requireSome given
  cases value with
  | none => rfl
  | some text => cases h : text.isEmpty <;> simp [Option.filter, h] <;> rfl

theorem keyPassword_eq (mode : PasswordMode) :
    (keyPassword mode request : ExceptT SessionError (Dialogue Unit) String) =
      ExceptT.mk (pure (request.passwordFor mode)) := by
  cases mode with
  | one => rfl
  | two => exact requireSome_eq _ _

theorem primaryKey_eq (user : User) :
    (primaryKey user : ExceptT SessionError (Dialogue Unit) UserKey) =
      ExceptT.mk (pure user.keyToSalt) := by
  unfold primaryKey User.keyToSalt
  cases user.primaryKey? <;> rfl

theorem saltFor_eq (password : Bytes) (salts : List Salt) (keyId : String) :
    (Keyring.saltFor password salts keyId).mapError SessionError.crypto =
      (saltOf salts keyId).map fun octets => Keyring.salt password octets := by
  unfold Keyring.saltFor saltOf
  cases (salts.find? (·.id = keyId)).bind (·.keySalt) with
  | none => rfl
  | some text => cases h : Base64.decode text <;> simp [h] <;> rfl

theorem describe_confirm {auth : Auth} (h : request.auth reply = .ok auth) :
    Describe reply (if request.needsCode reply then
        [check (given request.twoFactorCode .twoFactorRequired), ask reply request.submit]
      else []) (confirm auth request) := by
  have hneeds : request.needsCode reply = auth.twoFactorEnabled := by
    unfold LoginRequest.needsCode
    rw [h]
  unfold confirm
  rw [hneeds]
  cases auth.twoFactorEnabled with
  | false => exact describe_pure ()
  | true =>
    rw [if_pos rfl, if_pos rfl, requireSome_eq]
    refine (describe_check _).bind fun code hcode => ?_
    obtain ⟨hsome, -⟩ := given_eq_ok_iff.mp hcode
    have hsubmit : request.submit = .submitTwoFactor code := by
      unfold LoginRequest.submit
      rw [hsome]
      rfl
    rw [hsubmit]
    exact describe_ask _

theorem describe_enter {auth : Auth} (h : request.auth reply = .ok auth) :
    Describe reply [check ((request.auth reply).bind fun auth =>
        request.passwordFor auth.passwordMode), ask reply .getUser, ask reply .getSalts,
      check (userKey reply), check (keySalt reply), ask reply .getAddresses]
      (enter auth request) := by
  unfold enter
  rw [h, keyPassword_eq]
  refine (describe_check _).bind fun password _ =>
    (describe_ask _).bind fun (user : User) huser =>
      (describe_ask _).bind fun (salts : List Salt) hsalts => ?_
  rw [answer_fetch] at huser hsalts
  have hkey : user.keyToSalt = userKey reply := by
    unfold userKey
    rw [huser]
    rfl
  rw [primaryKey_eq, hkey]
  refine (describe_check _).bind fun key hchosen => ?_
  have hchosen : userKey reply = .ok key := hchosen
  have hsalt : saltOf salts key.id = keySalt reply := by
    unfold keySalt
    rw [hsalts, hchosen]
    rfl
  rw [saltFor_eq, hsalt, ← check_map (keySalt reply)]
  exact (describe_check _).bind fun _ _ => (describe_ask _).bind fun _ _ => describe_pure _

theorem describe_login (reply : (request : Request) → request.Reply) (request : LoginRequest) :
    Describe reply (request.steps reply) (login request) := by
  rw [login_eq]
  refine (describe_require _ _).bind fun _ _ => (describe_require _ _).bind fun _ _ =>
    (describe_ask _).bind fun auth hauth => ?_
  rw [answer_fetch] at hauth
  exact (describe_confirm hauth).bind fun _ _ => describe_enter hauth

end LockedSession

/-! ## What a login asks and answers -/

/-- What was asked so far, the last perhaps without a reply. -/
def requestsMade (said : List Exchange) (rest : Dialogue Unit α) : List Request :=
  said.map (·.request) ++ rest.pending

namespace LoginRequest

/-- The password that is salted, where the login goes through. -/
def saltedPassword (request : LoginRequest) : PasswordMode → String
  | .one => request.password
  | .two => request.mailboxPassword.getD ""

/-- A login that goes through salts its password for the user key that unlocking opens. -/
structure Salts (request : LoginRequest) (said : List Exchange) (locked : LockedSession)
    (keyPass : KeyPass) (key : UserKey) : Prop where
  user : ⟨.getUser, .ok locked.user⟩ ∈ said
  chosen : locked.user.IsPrimaryKey key
  salted : ∃ (auth : Auth) (salts : List Salt) (entry : Salt) (text : String) (octets : Bytes),
    ⟨.login request.username request.password, .ok auth⟩ ∈ said ∧ ⟨.getSalts, .ok salts⟩ ∈ said ∧
    IsFirst (·.id = key.id) salts entry ∧ entry.keySalt = some text ∧
    Base64.decode text = .ok octets ∧
    keyPass = Keyring.salt (Bytes.ofText (request.saltedPassword auth.passwordMode)) octets
  opens : ∀ (later : LockedSession) number keyPass session, later.user = locked.user →
    later.unlock number keyPass = .ok session → ∃ passKey : Keyring,
      keyPass.bytes = passKey.bytes ∧
      passKey.openMessage key.privateKey passKey = .ok session.userKeyring.bytes

/-- A login as far as it got: it asked what its steps ask, in their order and up to the first that
fails at most, and when it is over it has taken them all up to there and failed with the error of
that one, or with none. -/
structure Conducts (request : LoginRequest) (reply : (request : Request) → request.Reply)
    (said : List Exchange)
    (rest : Dialogue Unit (Except SessionError (LockedSession × KeyPass))) : Prop where
  told : ∀ exchange ∈ said, reply exchange.request = exchange.reply
  asked : requestsMade said rest <+: LoginStep.requests (LoginStep.taken (request.steps reply))
  ordered : requestsMade said rest <+: .login request.username request.password ::
    ((if request.needsCode reply then [request.submit] else []) ++
      [.getUser, .getSalts, .getAddresses])
  unasked : request.username.isEmpty = true ∨ request.password.isEmpty = true →
    requestsMade said rest = []
  confirmed : ∀ asked ∈ requestsMade said rest, asked.isData = true →
    ∃ auth, ⟨.login request.username request.password, .ok auth⟩ ∈ said ∧
      (auth.twoFactorEnabled = true → ∃ code, request.twoFactorCode = some code ∧
        code.isEmpty = false ∧ ⟨.submitTwoFactor code, .ok ()⟩ ∈ said)
  goesOn : rest.answer? = none → ∃ asked, rest.pending = [asked]
  ended : ∀ answer, rest.answer? = some answer →
    said.map (·.request) = LoginStep.requests (LoginStep.taken (request.steps reply)) ∧
      failureOf answer = LoginStep.failure? (request.steps reply)
  salts : ∀ locked keyPass, rest.answer? = some (.ok (locked, keyPass)) →
    ∃ key, request.Salts said locked keyPass key

variable {request : LoginRequest} {reply : (request : Request) → request.Reply}
  {said : List Exchange}

theorem requests_entrance (request : LoginRequest)
    (reply : (request : Request) → request.Reply) :
    LoginStep.requests (request.entrance reply) = .login request.username request.password ::
      if request.needsCode reply then [request.submit] else [] := by
  unfold entrance
  cases request.needsCode reply <;> rfl

theorem requests_steps (request : LoginRequest) (reply : (request : Request) → request.Reply) :
    LoginStep.requests (request.steps reply) = .login request.username request.password ::
      ((if request.needsCode reply then [request.submit] else []) ++
        [.getUser, .getSalts, .getAddresses]) := by
  rw [steps, LoginStep.requests_append, requests_entrance]
  rfl

theorem nodup_asked (request : LoginRequest) (reply : (request : Request) → request.Reply) :
    ((LockedSession.login request).run.asked reply).Nodup := by
  rw [(LockedSession.describe_login reply request).asked]
  refine List.Nodup.sublist ((LoginStep.taken_prefix _).filterMap _).sublist ?_
  show (LoginStep.requests (request.steps reply)).Nodup
  rw [requests_steps]
  cases request.needsCode reply <;> simp [submit]

/-- Whoever was let in, is logged in and had the second factor that the account requires. -/
theorem of_entrance (h : LoginStep.failure? (request.entrance reply) = none) :
    ∃ auth, reply (.login request.username request.password) = .ok auth ∧
      (auth.twoFactorEnabled = true → ∃ code, request.twoFactorCode = some code ∧
        code.isEmpty = false ∧ request.submit = .submitTwoFactor code ∧
        request.needsCode reply = true ∧ reply (.submitTwoFactor code) = .ok ()) := by
  have hall := List.findSome?_eq_none_iff.mp h
  have hauth : failureOf (request.auth reply) = none :=
    hall (.ask reply (.login request.username request.password)) (by simp [entrance])
  obtain ⟨auth, hauth⟩ := exists_ok_of_failureOf hauth
  refine ⟨auth, mapError_eq_ok_iff.mp hauth, fun henabled => ?_⟩
  have hneeds : request.needsCode reply = true := by
    rw [needsCode, hauth]
    exact henabled
  have hcode : failureOf (given request.twoFactorCode .twoFactorRequired) = none :=
    hall (.check (given request.twoFactorCode .twoFactorRequired)) (by simp [entrance, hneeds])
  have hsubmitted : failureOf ((reply request.submit).mapError SessionError.api) = none :=
    hall (.ask reply request.submit) (by simp [entrance, hneeds])
  obtain ⟨code, hcode⟩ := exists_ok_of_failureOf hcode
  obtain ⟨hsome, hfull⟩ := given_eq_ok_iff.mp hcode
  have hsubmit : request.submit = .submitTwoFactor code := by
    rw [submit, hsome]
    rfl
  rw [hsubmit] at hsubmitted
  obtain ⟨_, hsubmitted⟩ := exists_ok_of_failureOf hsubmitted
  exact ⟨code, hsome, hfull, hsubmit, hneeds, mapError_eq_ok_iff.mp hsubmitted⟩

/-- An empty username or password is the first thing that fails. -/
theorem requests_taken_of_empty (h : request.username.isEmpty = true ∨
    request.password.isEmpty = true) :
    LoginStep.requests (LoginStep.taken (request.steps reply)) = [] := by
  unfold steps entrance given
  cases husername : request.username.isEmpty with
  | true =>
    simp [LoginStep.taken, LoginStep.check, husername, failureOf, LoginStep.requests]
  | false =>
    have hpassword := h.resolve_left (by simp [husername])
    simp [LoginStep.taken, LoginStep.check, husername, hpassword, failureOf, LoginStep.requests]

theorem eq_of_passwordFor {mode : PasswordMode} {password : String}
    (h : request.passwordFor mode = .ok password) :
    password = request.saltedPassword mode := by
  cases mode with
  | one => exact (Except.ok.inj h).symm
  | two =>
    unfold saltedPassword
    rw [(given_eq_ok_iff.mp h).1]
    rfl

/-- What a login that goes through was replied. -/
theorem of_answer {locked : LockedSession} {keyPass : KeyPass}
    (h : ((LockedSession.login request).run.answerBy reply ()).1 = .ok (locked, keyPass)) :
    ∃ (auth : Auth) (password : String) (salts : List Salt) (key : UserKey) (octets : Bytes),
      reply (.login request.username request.password) = .ok auth ∧
      request.passwordFor auth.passwordMode = .ok password ∧ reply .getUser = .ok locked.user ∧
      reply .getSalts = .ok salts ∧ locked.user.primaryKey? = some key ∧
      saltOf salts key.id = .ok octets ∧
      keyPass = Keyring.salt (Bytes.ofText password) octets := by
  rw [LockedSession.login_eq] at h
  obtain ⟨_, -, h⟩ := Dialogue.answer_bind_ok h
  obtain ⟨_, -, h⟩ := Dialogue.answer_bind_ok h
  obtain ⟨auth, hauth, h⟩ := Dialogue.answer_bind_ok h
  obtain ⟨_, -, h⟩ := Dialogue.answer_bind_ok h
  unfold LockedSession.enter at h
  rw [LockedSession.keyPassword_eq] at h
  obtain ⟨password, hpassword, h⟩ := Dialogue.answer_bind_ok h
  obtain ⟨(user : User), huser, h⟩ := Dialogue.answer_bind_ok h
  obtain ⟨(salts : List Salt), hsalts, h⟩ := Dialogue.answer_bind_ok h
  rw [LockedSession.primaryKey_eq] at h
  obtain ⟨key, hkey, h⟩ := Dialogue.answer_bind_ok h
  rw [LockedSession.saltFor_eq] at h
  obtain ⟨salted, hsalted, h⟩ := Dialogue.answer_bind_ok h
  obtain ⟨addresses, -, h⟩ := Dialogue.answer_bind_ok h
  obtain ⟨rfl, rfl⟩ := Prod.mk.inj (Except.ok.inj h)
  have hkey : user.keyToSalt = .ok key := hkey
  have hsalted : (saltOf salts key.id).map (fun octets => Keyring.salt (Bytes.ofText password)
    octets) = .ok salted := hsalted
  obtain ⟨octets, hsalt, rfl⟩ : ∃ octets, saltOf salts key.id = .ok octets ∧
      Keyring.salt (Bytes.ofText password) octets = salted := by
    cases hsalt : saltOf salts key.id with
    | ok octets =>
      rw [hsalt] at hsalted
      exact ⟨octets, rfl, Except.ok.inj hsalted⟩
    | error error =>
      rw [hsalt] at hsalted
      cases hsalted
  exact ⟨auth, password, salts, key, octets, LoginStep.ok_of_fetch _ hauth, hpassword,
    LoginStep.ok_of_fetch _ huser, LoginStep.ok_of_fetch _ hsalts, keyToSalt_eq_ok_iff.mp hkey,
    hsalt, rfl⟩

end LoginRequest

variable {said : List Exchange} {reply : (request : Request) → request.Reply}
  {request : LoginRequest} {rest : Dialogue Unit α}

theorem mem_said (htold : ∀ exchange ∈ said, reply exchange.request = exchange.reply)
    {asked : Request} (h : asked ∈ said.map (·.request)) : ⟨asked, reply asked⟩ ∈ said := by
  obtain ⟨exchange, hm, rfl⟩ := List.mem_map.mp h
  rw [htold exchange hm]
  exact hm

/-- Whatever comes before a request had its reply before. -/
theorem replied_before {before after : List Request} {asked : Request}
    (h : requestsMade said rest <+: before ++ after) (hm : asked ∈ requestsMade said rest)
    (hnew : asked ∉ before) : before <+: said.map (·.request) := by
  have hall : said.map (·.request) <+: before ++ after := (List.prefix_append _ _).trans h
  have hbefore : before <+: before ++ after := List.prefix_append _ _
  by_cases hle : before.length ≤ (said.map (·.request)).length
  · exact List.prefix_of_prefix_length_le hbefore hall hle
  · -- else all that was asked lies within what comes before
    have hmade : requestsMade said rest <+: before := by
      refine List.prefix_of_prefix_length_le h hbefore ?_
      have hpending := rest.length_pending_le
      rw [requestsMade, List.length_append]
      omega
    exact absurd (hmade.subset hm) hnew

namespace LoginRequest

theorem isData_entrance {asked : Request}
    (hm : asked ∈ LoginStep.requests (request.entrance reply)) : asked.isData = false := by
  rw [requests_entrance] at hm
  cases hneeds : request.needsCode reply with
  | false =>
    rw [hneeds] at hm
    rw [List.mem_singleton.mp hm]
    rfl
  | true =>
    rw [hneeds] at hm
    rcases List.mem_cons.mp hm with rfl | hm
    · rfl
    · rw [List.mem_singleton.mp hm]
      rfl

/-- Data is asked for only after the login was let in. -/
theorem confirmed_of_asked
    (htold : ∀ exchange ∈ said, reply exchange.request = exchange.reply)
    (hasked : requestsMade said rest <+:
      LoginStep.requests (LoginStep.taken (request.steps reply)))
    {asked : Request} (hm : asked ∈ requestsMade said rest) (hdata : asked.isData = true) :
    ∃ auth, ⟨.login request.username request.password, .ok auth⟩ ∈ said ∧
      (auth.twoFactorEnabled = true → ∃ code, request.twoFactorCode = some code ∧
        code.isEmpty = false ∧ ⟨.submitTwoFactor code, .ok ()⟩ ∈ said) := by
  have hnew : asked ∉ LoginStep.requests (request.entrance reply) := fun hentrance => by
    rw [isData_entrance hentrance] at hdata
    cases hdata
  cases hfailure : LoginStep.failure? (request.entrance reply) with
  | some error =>
    -- nothing after the entrance is asked, and the entrance asks for no data
    rw [steps, LoginStep.taken_append_of_some hfailure] at hasked
    have hentrance : LoginStep.requests (LoginStep.taken (request.entrance reply)) <+:
        LoginStep.requests (request.entrance reply) := (LoginStep.taken_prefix _).filterMap _
    exact absurd (hentrance.subset (hasked.subset hm)) hnew
  | none =>
    rw [steps, LoginStep.taken_append_of_none hfailure, LoginStep.requests_append] at hasked
    have hbefore := (replied_before hasked hm hnew).subset
    rw [requests_entrance] at hbefore
    obtain ⟨auth, hauth, hcode⟩ := of_entrance hfailure
    refine ⟨auth, ?_, fun henabled => ?_⟩
    · rw [← hauth]
      exact mem_said htold (hbefore (List.mem_cons_self ..))
    · obtain ⟨code, hsome, hfull, hsubmit, hneeds, hreply⟩ := hcode henabled
      refine ⟨code, hsome, hfull, ?_⟩
      rw [← hreply]
      refine mem_said htold (hbefore ?_)
      rw [if_pos hneeds, hsubmit]
      simp

section

variable {rest : Dialogue Unit (Except SessionError (LockedSession × KeyPass))}

/-- A login that is over has taken its steps, and has failed as they do. -/
theorem ended_of_leads (h : (LockedSession.login request).run.Leads said rest)
    (htold : ∀ exchange ∈ said, reply exchange.request = exchange.reply)
    {answer : Except SessionError (LockedSession × KeyPass)}
    (hanswer : rest.answer? = some answer) :
    said.map (·.request) = LoginStep.requests (LoginStep.taken (request.steps reply)) ∧
      failureOf answer = LoginStep.failure? (request.steps reply) := by
  have hdescribe := LockedSession.describe_login reply request
  obtain ⟨hnothing, -, hover⟩ := Dialogue.of_answer? hanswer reply
  obtain ⟨hall, hsame⟩ := h.asked_eq htold
  rw [hnothing, List.append_nil] at hall
  refine ⟨hall.symm.trans hdescribe.asked, ?_⟩
  rw [← hdescribe.fails, hsame, hover]

/-- The key that unlocking opens is the primary one. -/
theorem opens_primaryKey {locked later : LockedSession} {number : Nat} {keyPass : KeyPass}
    {session : Session} {key : UserKey} (hkey : locked.user.IsPrimaryKey key)
    (huser : later.user = locked.user) (h : later.unlock number keyPass = .ok session) :
    ∃ passKey : Keyring, keyPass.bytes = passKey.bytes ∧
      passKey.openMessage key.privateKey passKey = .ok session.userKeyring.bytes := by
  obtain ⟨_, hunlock, -⟩ := LockedSession.unlock_eq_ok_iff.mp h
  obtain ⟨⟨passKey, hbytes⟩, -⟩ := Keyring.exists_of_unlock hunlock
  obtain ⟨-, hopens, -⟩ := LockedSession.holdsKeyrings_of_unlock hbytes h
  obtain ⟨primary, hprimary, hopen⟩ := hopens.primary
  rw [huser] at hprimary
  rw [hprimary.unique hkey] at hopen
  exact ⟨passKey, hbytes, hopen⟩

theorem salts_of_leads (h : (LockedSession.login request).run.Leads said rest)
    (htold : ∀ exchange ∈ said, reply exchange.request = exchange.reply) {locked : LockedSession}
    {keyPass : KeyPass} (hanswer : rest.answer? = some (.ok (locked, keyPass))) :
    ∃ key, request.Salts said locked keyPass key := by
  obtain ⟨hall, hfailure⟩ := ended_of_leads h htold hanswer
  have hover : ((LockedSession.login request).run.answerBy reply ()).1 = .ok (locked, keyPass) := by
    rw [(h.asked_eq htold).2, (Dialogue.of_answer? hanswer reply).2.2]
  rw [LoginStep.taken_of_none hfailure.symm, requests_steps] at hall
  obtain ⟨auth, password, salts, key, octets, hauth, hpassword, huser, hsalts, hkey, hsalt, rfl⟩ :=
    of_answer hover
  have hsaid {asked : Request} (hm : asked ∈ said.map (·.request)) : ⟨asked, reply asked⟩ ∈ said :=
    mem_said htold hm
  rw [hall] at hsaid
  obtain ⟨entry, text, hfirst, htext, hdecode⟩ := saltOf_eq_ok_iff.mp hsalt
  have hprimary := User.primaryKey?_eq_some_iff.mp hkey
  refine ⟨key, ?_, hprimary, ⟨auth, salts, entry, text, octets, ?_, ?_, hfirst, htext, hdecode, ?_⟩,
    fun later number keyPass session hlater hunlock => opens_primaryKey hprimary hlater hunlock⟩
  · rw [← huser]
    exact hsaid (by simp)
  · rw [← hauth]
    exact hsaid (List.mem_cons_self ..)
  · rw [← hsalts]
    exact hsaid (by simp)
  · rw [eq_of_passwordFor hpassword]

end

theorem conducts_of_leads (request : LoginRequest) {said : List Exchange}
    {rest : Dialogue Unit (Except SessionError (LockedSession × KeyPass))}
    (h : (LockedSession.login request).run.Leads said rest) :
    ∃ reply, request.Conducts reply said rest := by
  obtain ⟨reply, htold⟩ := h.exists_reply request.nodup_asked
  have hdescribe := LockedSession.describe_login reply request
  have hasked : requestsMade said rest <+:
      LoginStep.requests (LoginStep.taken (request.steps reply)) :=
    hdescribe.asked ▸ h.prefix_asked htold
  refine ⟨reply, htold, hasked, ?_, fun hempty => ?_, fun asked hm hdata =>
    confirmed_of_asked htold hasked hm hdata, Dialogue.exists_pending, fun answer hanswer => ?_,
    fun locked keyPass hanswer => ?_⟩
  · rw [← requests_steps]
    exact hasked.trans ((LoginStep.taken_prefix _).filterMap _)
  · rw [requests_taken_of_empty hempty] at hasked
    exact List.prefix_nil.mp hasked
  · exact ended_of_leads h htold hanswer
  · exact salts_of_leads h htold hanswer

/-- A login keeps to its steps, whoever answers it and wherever it is left. So does every login with
a session manager, however long the replies take and wherever its time is up. -/
theorem conducts_login (request : LoginRequest) :
    (∀ said rest, (LockedSession.login request).run.Leads said rest →
      ∃ reply, request.Conducts reply said rest) ∧
    ∀ (τ : Type) (c : Custody τ), ∃ said rest reply answer,
      request.Conducts reply said rest ∧ rest.Stops answer ∧
      (c.recorded.enter request).2.state.1 = ⟨requestsMade said rest, said⟩ ∧
      (c.enter request).1 =
        answer.map fun answer => answer.getD (.error (.timedOut c.config.timeout)) := by
  refine ⟨fun said rest h => request.conducts_of_leads h, fun τ c => ?_⟩
  obtain ⟨-, answer, ⟨said, rest, hleads, hstops, htranscript⟩, hanswer⟩ :=
    c.phase_recorded (LockedSession.login request).run
  obtain ⟨reply, hconducts⟩ := request.conducts_of_leads hleads
  exact ⟨said, rest, reply, answer, hconducts, hstops, htranscript, hanswer⟩

end LoginRequest

namespace Client

/-- What is said when she logs in. -/
def carolSaid : List Exchange :=
  [⟨.login "carol" "login-pw", .ok ⟨carol.server.issueSession.1, .two, true⟩⟩,
    ⟨.submitTwoFactor "123456", .ok ()⟩,
    ⟨.getUser, .ok carol.server.user⟩,
    ⟨.getSalts, .ok carol.server.salts⟩,
    ⟨.getAddresses, .ok carol.server.addresses⟩]

def carolLocked : LockedSession where
  tokens := carol.server.issueSession.1
  user := carol.server.user
  addresses := carol.server.addresses

theorem leads_carol : (LockedSession.login carolRequest).run.Leads carolSaid
    (.done (.ok (carolLocked, carol.keyPass))) :=
  .ask _ <| .ask _ <| .ask _ <| .ask _ <| .ask _ <| .stay _

theorem conducts_login_carol : ∃ reply, carolRequest.Conducts reply carolSaid
    (.done (.ok (carolLocked, carol.keyPass))) :=
  (LoginRequest.conducts_login carolRequest).1 _ _ leads_carol

end Client

end SealedDrive
