import SealedDrive.Proofs.Responses

/-!
Histories of the drive in memory, as a log of what came of each call. The open sessions are those
that the log tells of, issued and not revoked: every session is issued under a number of its own, so
one that was revoked never comes back, and the session that requests belong to is always an open
one.

What a call may do is said once (`DriveEvent.Effect`); the ledger is kept by each of these effects,
and so by every history.
-/

namespace SealedDrive

/-- The tokens of the session with a number. -/
def Tokens.numbered (number : Nat) : Tokens :=
  ⟨Plan.label "uid" number, Plan.label "access" number, Plan.label "refresh" number⟩

/-- What is done with a drive. -/
inductive DriveCall where
  | ask (request : Request)
  /-- A session that is opened without a login. -/
  | issue

/-- What came of a call. -/
inductive DriveEvent where
  /-- The reply to a request, and the session that was the current one when it was asked. -/
  | replied (current : Option String) (request : Request) (reply : request.Reply)
  | issued (tokens : Tokens)

namespace DriveEvent

/-- The session that was issued. -/
def tokens? : DriveEvent → Option Tokens
  | replied _ (.login _ _) (.ok (auth : Auth)) => some auth.tokens
  | issued tokens => some tokens
  | _ => none

/-- The session that was revoked. -/
def revoked? : DriveEvent → Option String
  | replied _ (.revoke uid) (.ok _) => some uid
  | _ => none

/-- The session that had its second factor. -/
def confirmed? : DriveEvent → Option String
  | replied current (.submitTwoFactor _) (.ok _) => current
  | _ => none

/-- What a call may do to a drive. -/
inductive Effect (s : Server) : DriveEvent → Server → Prop
  | login {current username password mode} :
    Effect s (.replied current (.login username password)
        (.ok (⟨s.issueSession.1, mode, s.twoFactorCode.isSome⟩ : Auth)))
      { s.issueSession.2 with
        current := some s.issueSession.1.uid, awaitingTwoFactor := s.twoFactorCode.isSome }
  | issue : Effect s (.issued s.issueSession.1) s.issueSession.2
  | confirm {code} (current : s.current ≠ none) (right : s.twoFactorCode = some code) :
    Effect s (.replied s.current (.submitTwoFactor code) (.ok ()))
      { s with awaitingTwoFactor := false }
  | resume {current tokens} (known : s.sessions.lookup tokens.uid = some tokens.accessToken) :
    Effect s (.replied current (.resume tokens) (.ok ()))
      { s with current := some tokens.uid, awaitingTwoFactor := false }
  | revoke {current uid} (active : s.isActive uid = true) :
    Effect s (.replied current (.revoke uid) (.ok ()))
      { s with
        sessions := s.sessions.filter (·.1 ≠ uid)
        current := if s.current = some uid then none else s.current }
  /-- A request for data, or one that fails. -/
  | other {event s'} (tokens : event.tokens? = none) (revoked : event.revoked? = none)
    (confirmed : event.confirmed? = none) (same : s.SameButLoads s') : Effect s event s'

/-- Whatever is asked has one of these effects. -/
theorem effect_respond (s : Server) (request : Request) {s' : Server}
    (h : (s.respond request).2.SameButLoads s')
    (hdata : request.isData = false → s' = (s.respond request).2) :
    Effect s (.replied s.current request (s.respond request).1) s' := by
  cases request with
  | login username password =>
    rw [hdata rfl]
    show Effect s (.replied _ (.login username password) (s.login username password).1)
      (s.login username password).2
    unfold Server.login
    split
    · exact .other rfl rfl rfl (.refl s)
    · exact .login
  | submitTwoFactor code =>
    rw [hdata rfl]
    show Effect s (.replied _ (.submitTwoFactor code) (s.submitTwoFactor code).1)
      (s.submitTwoFactor code).2
    unfold Server.submitTwoFactor
    split
    · exact .other rfl rfl rfl (.refl s)
    · next hright =>
      obtain ⟨hcurrent, hcode⟩ := not_or.1 hright
      exact .confirm (by simpa using hcurrent) (by simpa using hcode)
  | resume tokens =>
    rw [hdata rfl]
    show Effect s (.replied _ (.resume tokens) (s.resume tokens).1) (s.resume tokens).2
    unfold Server.resume
    split
    · next hknown => exact .resume hknown
    · exact .other rfl rfl rfl (.refl s)
  | revoke uid =>
    rw [hdata rfl]
    show Effect s (.replied _ (.revoke uid) (s.revoke uid).1) (s.revoke uid).2
    unfold Server.revoke
    split
    · exact .other rfl rfl rfl (.refl s)
    · split
      · exact .other rfl rfl rfl (.refl s)
      · next hactive => exact .revoke (by simpa using hactive)
  | _ => exact .other rfl rfl rfl h

end DriveEvent

/-- A drive that one client calls, and all that came of it so far. -/
structure History where
  server : Server
  /-- What is left of the allowance of the turn that the client is in. -/
  allowance : Nat := Activity.fullAllowance
  log : List DriveEvent := []

namespace History

/-- Ask the drive something, and wait for the reply. -/
def ask (h : History) (request : Request) : Option request.Reply × History :=
  let (reply, allowance, server) :=
    (Server.serve request).run (fun _ => Server.turn) h.allowance h.server
  let events := (reply.map (DriveEvent.replied h.server.current request)).toList
  (reply, { server, allowance, log := h.log ++ events })

def step (h : History) : DriveCall → History
  | .ask request => (h.ask request).2
  | .issue =>
    let (tokens, server) := h.server.issueSession
    { h with server, log := h.log ++ [.issued tokens] }

def run (h : History) (calls : List DriveCall) : History := calls.foldl step h

/-- The sessions that were issued, the oldest first. -/
def tokens (h : History) : List Tokens := h.log.filterMap (·.tokens?)

def revoked (h : History) : List String := h.log.filterMap (·.revoked?)

/-- The sessions that had their second factor while they were the current one. -/
def confirmed (h : History) : List String := h.log.filterMap (·.confirmed?)

/-- Every request is replied to, as the drive stands when it comes. -/
theorem ask_eq (h : History) (request : Request) :
    ∃ allowance server, h.ask request = (some (h.server.respond request).1,
        { server, allowance
          log := h.log ++ [.replied h.server.current request (h.server.respond request).1] }) ∧
      (h.server.respond request).2.SameButLoads server ∧
      (request.isData = false → server = (h.server.respond request).2) := by
  obtain ⟨allowance, server, hrun, hsame, hsession⟩ := h.server.run_serve request h.allowance
  refine ⟨allowance, server, ?_, hsame, fun hdata => (hsession hdata).2⟩
  unfold ask
  rw [hrun]
  rfl

theorem step_effect (h : History) (call : DriveCall) :
    ∃ event, (h.step call).log = h.log ++ [event] ∧ event.Effect h.server (h.step call).server := by
  cases call with
  | issue => exact ⟨_, rfl, .issue⟩
  | ask request =>
    obtain ⟨allowance, server, hask, hsame, hsession⟩ := h.ask_eq request
    refine ⟨_, congrArg (·.2.log) hask, ?_⟩
    show DriveEvent.Effect _ _ (h.ask request).2.server
    rw [hask]
    exact DriveEvent.effect_respond h.server request hsame hsession

/-! ## The ledger -/

variable {h h' : History} {event : DriveEvent} {first : Nat}

/-- What is gathered from the log grows by what the last event tells. -/
theorem filterMap_log {α : Type} (tell : DriveEvent → Option α) (hlog : h'.log = h.log ++ [event]) :
    h'.log.filterMap tell = h.log.filterMap tell ++ (tell event).toList := by
  rw [hlog, List.filterMap_append]
  cases htell : tell event <;> simp [htell]

theorem tokens_append (hlog : h'.log = h.log ++ [event]) :
    h'.tokens = h.tokens ++ event.tokens?.toList := filterMap_log _ hlog

theorem revoked_append (hlog : h'.log = h.log ++ [event]) :
    h'.revoked = h.revoked ++ event.revoked?.toList := filterMap_log _ hlog

theorem confirmed_append (hlog : h'.log = h.log ++ [event]) :
    h'.confirmed = h.confirmed ++ event.confirmed?.toList := filterMap_log _ hlog

/-- The sessions of a history are those of its log, which began when as many sessions were issued
as `first` says. -/
structure Ledger (first : Nat) (h : History) : Prop where
  tokens : h.tokens = (List.range' (first + 1) h.tokens.length).map Tokens.numbered
  issued : h.server.issued = first + h.tokens.length
  sessions : ∀ uid access, h.server.sessions.lookup uid = some access ↔
    uid ∉ h.revoked ∧ ∃ tokens ∈ h.tokens, tokens.uid = uid ∧ tokens.accessToken = access
  revoked : ∀ uid ∈ h.revoked, ∃ tokens ∈ h.tokens, tokens.uid = uid
  current : ∀ uid, h.server.current = some uid → h.server.isActive uid = true

namespace Ledger

theorem mem_tokens (l : Ledger first h) {tokens : Tokens} :
    tokens ∈ h.tokens ↔ ∃ n, first < n ∧ n ≤ h.server.issued ∧ tokens = .numbered n := by
  rw [l.tokens, l.issued, List.mem_map]
  constructor
  · rintro ⟨n, hn, rfl⟩
    rw [List.mem_range'_1] at hn
    exact ⟨n, by omega, by omega, rfl⟩
  · rintro ⟨n, hfirst, hlast, rfl⟩
    exact ⟨n, List.mem_range'_1.2 (by omega), rfl⟩

theorem isActive_iff (l : Ledger first h) (uid : String) :
    h.server.isActive uid = true ↔ uid ∉ h.revoked ∧ ∃ tokens ∈ h.tokens, tokens.uid = uid := by
  unfold Server.isActive
  rw [Option.isSome_iff_exists]
  constructor
  · rintro ⟨access, hlookup⟩
    obtain ⟨hrevoked, tokens, htokens, huid, -⟩ := (l.sessions uid access).1 hlookup
    exact ⟨hrevoked, tokens, htokens, huid⟩
  · rintro ⟨hrevoked, tokens, htokens, huid⟩
    exact ⟨_, (l.sessions uid _).2 ⟨hrevoked, tokens, htokens, huid, rfl⟩⟩

/-- The next session has names of its own. -/
theorem uid_ne_next (l : Ledger first h) {tokens : Tokens} (htokens : tokens ∈ h.tokens) :
    tokens.uid ≠ (Tokens.numbered (h.server.issued + 1)).uid := by
  obtain ⟨n, -, hn, rfl⟩ := l.mem_tokens.1 htokens
  exact Plan.label_ne ⟨n, hn, rfl⟩ (Nat.lt_succ_self _)

theorem next_not_revoked (l : Ledger first h) :
    (Tokens.numbered (h.server.issued + 1)).uid ∉ h.revoked := by
  intro hrevoked
  obtain ⟨tokens, htokens, huid⟩ := l.revoked _ hrevoked
  exact l.uid_ne_next htokens huid

theorem issue (l : Ledger first h) (hlog : h'.log = h.log ++ [event])
    (htokens : event.tokens? = some h.server.issueSession.1) (hrevoked : event.revoked? = none)
    (hissued : h'.server.issued = h.server.issueSession.2.issued)
    (hsessions : h'.server.sessions = h.server.issueSession.2.sessions)
    (hcurrent : h'.server.current = h.server.current ∨
      h'.server.current = some h.server.issueSession.1.uid) : Ledger first h' := by
  have htokens' : h'.tokens = h.tokens ++ [.numbered (h.server.issued + 1)] := by
    rw [tokens_append hlog, htokens]
    rfl
  have hrevoked' : h'.revoked = h.revoked := by
    rw [revoked_append hlog, hrevoked]
    exact List.append_nil _
  have hlookup (uid : String) : h'.server.sessions.lookup uid =
      if uid = (Tokens.numbered (h.server.issued + 1)).uid
      then some (Tokens.numbered (h.server.issued + 1)).accessToken
      else h.server.sessions.lookup uid := by
    rw [hsessions]
    exact lookup_setEntry _ _ _ _
  refine ⟨?_, ?_, fun uid access => ?_, fun uid huid => ?_, fun uid huid => ?_⟩
  · rw [htokens', List.length_append, List.length_singleton, List.range'_1_concat, List.map_append,
      ← l.tokens, l.issued, Nat.add_right_comm]
    rfl
  · rw [hissued, htokens', List.length_append, ← Nat.add_assoc, ← l.issued]
    rfl
  · rw [hlookup, hrevoked', htokens']
    simp only [List.mem_append, List.mem_singleton, or_and_right, exists_or, exists_eq_left]
    split
    · next huid =>
      subst huid
      have hold : ¬∃ tokens ∈ h.tokens, tokens.uid = (Tokens.numbered (h.server.issued + 1)).uid ∧
          tokens.accessToken = access := by
        rintro ⟨tokens, hmem, huid, -⟩
        exact l.uid_ne_next hmem huid
      simp [hold, l.next_not_revoked]
    · next hne => simp [l.sessions, Ne.symm hne]
  · rw [hrevoked'] at huid
    obtain ⟨tokens, hmem, htokens⟩ := l.revoked uid huid
    exact ⟨tokens, by rw [htokens']; exact List.mem_append_left _ hmem, htokens⟩
  · unfold Server.isActive
    rw [hlookup]
    split
    · rfl
    · next hne =>
      rcases hcurrent with hsame | hnew
      · exact l.current uid (hsame.symm.trans huid)
      · exact absurd (Option.some.inj (huid.symm.trans hnew)) hne

/-- Sessions neither open nor end; another one may become the current one. -/
theorem keep (l : Ledger first h) (hlog : h'.log = h.log ++ [event])
    (htokens : event.tokens? = none) (hrevoked : event.revoked? = none)
    (hissued : h'.server.issued = h.server.issued)
    (hsessions : h'.server.sessions = h.server.sessions)
    (hcurrent : ∀ uid, h'.server.current = some uid →
      h.server.current = some uid ∨ h.server.isActive uid = true) : Ledger first h' := by
  have htokens' : h'.tokens = h.tokens := by
    rw [tokens_append hlog, htokens]
    exact List.append_nil _
  have hrevoked' : h'.revoked = h.revoked := by
    rw [revoked_append hlog, hrevoked]
    exact List.append_nil _
  refine ⟨?_, ?_, ?_, ?_, fun uid huid => ?_⟩
  · rw [htokens']
    exact l.tokens
  · rw [hissued, htokens']
    exact l.issued
  · rw [hsessions, hrevoked', htokens']
    exact l.sessions
  · rw [hrevoked', htokens']
    exact l.revoked
  · unfold Server.isActive
    rw [hsessions]
    exact (hcurrent uid huid).elim (l.current uid) id

theorem revoke (l : Ledger first h) (hlog : h'.log = h.log ++ [event]) {ended : String}
    (hactive : h.server.isActive ended = true) (htokens : event.tokens? = none)
    (hrevoked : event.revoked? = some ended) (hissued : h'.server.issued = h.server.issued)
    (hsessions : h'.server.sessions = h.server.sessions.filter (·.1 ≠ ended))
    (hcurrent : h'.server.current =
      if h.server.current = some ended then none else h.server.current) : Ledger first h' := by
  have htokens' : h'.tokens = h.tokens := by
    rw [tokens_append hlog, htokens]
    exact List.append_nil _
  have hrevoked' : h'.revoked = h.revoked ++ [ended] := by
    rw [revoked_append hlog, hrevoked]
    rfl
  have hlookup (uid : String) : h'.server.sessions.lookup uid =
      if uid = ended then none else h.server.sessions.lookup uid := by
    rw [hsessions]
    exact lookup_filter_ne _ _ _
  refine ⟨?_, ?_, fun uid access => ?_, fun uid huid => ?_, fun uid huid => ?_⟩
  · rw [htokens']
    exact l.tokens
  · rw [hissued, htokens']
    exact l.issued
  · rw [hlookup, hrevoked', htokens']
    split
    · next huid => simp [huid]
    · next hne => simp [l.sessions, hne]
  · rw [htokens']
    rw [hrevoked'] at huid
    rcases List.mem_append.1 huid with hold | hnew
    · exact l.revoked uid hold
    · rw [List.mem_singleton.1 hnew]
      exact ((l.isActive_iff ended).1 hactive).2
  · rw [hcurrent] at huid
    split at huid
    · cases huid
    · next hne =>
      have hother : uid ≠ ended := fun he => hne (by rw [huid, he])
      unfold Server.isActive
      rw [hlookup, if_neg hother]
      exact l.current uid huid

/-- What a call may do keeps the ledger. -/
theorem effect (l : Ledger first h) (hlog : h'.log = h.log ++ [event])
    (heffect : event.Effect h.server h'.server) : Ledger first h' := by
  generalize hserver : h'.server = server at heffect
  cases heffect with
  | login =>
    exact l.issue hlog rfl rfl (by rw [hserver]) (by rw [hserver]) (.inr (by rw [hserver]))
  | issue =>
    exact l.issue hlog rfl rfl (by rw [hserver]) (by rw [hserver])
      (.inl (by rw [hserver]; rfl))
  | confirm =>
    exact l.keep hlog rfl rfl (by rw [hserver]) (by rw [hserver])
      fun uid huid => .inl (by rwa [hserver] at huid)
  | resume known =>
    refine l.keep hlog rfl rfl (by rw [hserver]) (by rw [hserver]) fun uid huid => .inr ?_
    rw [hserver] at huid
    cases huid
    exact Option.isSome_iff_exists.2 ⟨_, known⟩
  | revoke active =>
    exact l.revoke hlog active rfl rfl (by rw [hserver]) (by rw [hserver]) (by rw [hserver])
  | other htokens hrevoked _ same =>
    obtain ⟨_, _, _, _, rfl⟩ := same
    exact l.keep hlog htokens hrevoked (by rw [hserver]) (by rw [hserver])
      fun uid huid => .inl (by rwa [hserver] at huid)

theorem run (l : Ledger first h) (calls : List DriveCall) : Ledger first (h.run calls) := by
  induction calls generalizing h with
  | nil => exact l
  | cons call rest ih =>
    obtain ⟨event, hlog, heffect⟩ := h.step_effect call
    exact ih (l.effect hlog heffect)

/-- A drive without a session has an empty ledger. -/
theorem start {server : Server} (hsessions : server.sessions = [])
    (hcurrent : server.current = none) (allowance : Nat) :
    Ledger server.issued { server, allowance } := by
  refine ⟨rfl, rfl, fun uid access => ?_, nofun, fun uid huid => ?_⟩
  · show server.sessions.lookup uid = _ ↔ _
    rw [hsessions]
    exact ⟨nofun, fun ⟨_, _, hmem, _⟩ => nomatch hmem⟩
  · cases hcurrent.symm.trans huid

/-- No name of a session comes twice. -/
theorem nodup_tokens (l : Ledger first h) {kind : String} (name : Tokens → String)
    (hname : ∀ n, name (.numbered n) = Plan.label kind n) : (h.tokens.map name).Nodup := by
  rw [l.tokens, List.map_map]
  refine List.Nodup.map (fun m n hmn => ?_) List.nodup_range'
  have hlabel : Plan.label kind m = Plan.label kind n := by rw [← hname, ← hname]; exact hmn
  exact Plan.label_inj hlabel

/-- A session that is current and has no factor to wait for is an open one. -/
theorem isAuthorized (l : Ledger first h) (hauthorized : h.server.isAuthorized = true) :
    ∃ uid, h.server.current = some uid ∧ h.server.isActive uid = true ∧ uid ∉ h.revoked := by
  obtain ⟨uid, hcurrent⟩ := Option.isSome_iff_exists.1 (Bool.and_eq_true_iff.1 hauthorized).1
  have hactive := l.current uid hcurrent
  exact ⟨uid, hcurrent, hactive, ((l.isActive_iff uid).1 hactive).1⟩

end Ledger

/-! ## What a history can rely on -/

theorem ask_reply (h : History) (request : Request) :
    (h.ask request).1 = some (h.server.respond request).1 := by
  obtain ⟨_, _, hask, -, -⟩ := h.ask_eq request
  rw [hask]

theorem ask_session (h : History) {request : Request} (hdata : request.isData = false) :
    (h.ask request).2.server = (h.server.respond request).2 := by
  obtain ⟨_, _, hask, -, hsession⟩ := h.ask_eq request
  rw [hask]
  exact hsession hdata

theorem revoked_run {uid : String} (hrevoked : uid ∈ h.revoked) (calls : List DriveCall) :
    uid ∈ (h.run calls).revoked := by
  induction calls generalizing h with
  | nil => exact hrevoked
  | cons call rest ih =>
    obtain ⟨event, hlog, -⟩ := h.step_effect call
    exact ih (by rw [revoked_append hlog]; exact List.mem_append_left _ hrevoked)

theorem revoked_ask {uid : String} (hok : (h.ask (.revoke uid)).1 = some (.ok ())) :
    uid ∈ (h.ask (.revoke uid)).2.revoked := by
  obtain ⟨_, _, hask, -, -⟩ := h.ask_eq (.revoke uid)
  rw [hask] at hok ⊢
  rw [revoked_append rfl, Option.some.inj hok]
  exact List.mem_append_right _ (List.mem_singleton_self uid)

theorem ask_resume (h : History) (tokens : Tokens) :
    (h.ask (.resume tokens)).1 = some (.ok ()) ↔
      h.server.sessions.lookup tokens.uid = some tokens.accessToken := by
  rw [ask_reply]
  show some (h.server.resume tokens).1 = _ ↔ _
  unfold Server.resume
  split
  · next hknown => exact ⟨fun _ => hknown, fun _ => rfl⟩
  · next hknown => exact ⟨nofun, fun h => absurd h hknown⟩

theorem Ledger.ask_resume_iff (l : Ledger first h) (tokens : Tokens) :
    (h.ask (.resume tokens)).1 = some (.ok ()) ↔ tokens.uid ∉ h.revoked ∧
      ∃ issued ∈ h.tokens, issued.uid = tokens.uid ∧ issued.accessToken = tokens.accessToken :=
  (h.ask_resume tokens).trans (l.sessions _ _)

/-- What holds after a history, and of what is asked next. -/
structure Consistent (h : History) : Prop where
  answered : ∀ request, ∃ reply, (h.ask request).1 = some reply
  /-- What asks for data is refused unless an open session is the current one. -/
  authorized : ∀ request, request.isData = true →
    (h.ask request).1 ≠ some (.error .unauthorized) →
    ∃ uid, h.server.current = some uid ∧ h.server.isActive uid = true ∧ uid ∉ h.revoked
  uids : (h.tokens.map (·.uid)).Nodup
  accessTokens : (h.tokens.map (·.accessToken)).Nodup
  refreshTokens : (h.tokens.map (·.refreshToken)).Nodup
  active : ∀ uid, h.server.isActive uid = true ↔
    uid ∉ h.revoked ∧ ∃ tokens ∈ h.tokens, tokens.uid = uid
  resumed : ∀ tokens, (h.ask (.resume tokens)).1 = some (.ok ()) ↔ tokens.uid ∉ h.revoked ∧
    ∃ issued ∈ h.tokens, issued.uid = tokens.uid ∧ issued.accessToken = tokens.accessToken
  /-- A session that is revoked has ended, whatever is asked after that. -/
  ended : ∀ uid, (h.ask (.revoke uid)).1 = some (.ok ()) → ∀ later,
    let h' := (h.ask (.revoke uid)).2.run later
    h'.server.isActive uid = false ∧
      ∀ tokens, tokens.uid = uid → (h'.ask (.resume tokens)).1 ≠ some (.ok ())
  /-- A request about a session that fails changes nothing. -/
  unchanged : ∀ request, request.isData = false → ∀ error,
    (h.ask request).1 = some (.error error) → (h.ask request).2.server = h.server

theorem Ledger.consistent (l : Ledger first h) : Consistent h where
  answered request := ⟨_, h.ask_reply request⟩
  authorized request hdata hreply := by
    cases hauthorized : h.server.isAuthorized with
    | true => exact l.isAuthorized hauthorized
    | false =>
      refine absurd ?_ hreply
      rw [ask_reply, Server.respond_unauthorized hdata hauthorized]
  uids := l.nodup_tokens (·.uid) fun _ => rfl
  accessTokens := l.nodup_tokens (·.accessToken) fun _ => rfl
  refreshTokens := l.nodup_tokens (·.refreshToken) fun _ => rfl
  active := l.isActive_iff
  resumed := l.ask_resume_iff
  ended uid hok later := by
    have l' : Ledger first ((h.ask (.revoke uid)).2.run later) :=
      l.run (.ask (.revoke uid) :: later)
    have hrevoked := revoked_run (revoked_ask hok) later
    refine ⟨Bool.eq_false_iff.2 fun hactive => ((l'.isActive_iff uid).1 hactive).1 hrevoked, ?_⟩
    rintro tokens rfl hresumed
    exact ((l'.ask_resume_iff tokens).1 hresumed).1 hrevoked
  unchanged request hdata error herror := by
    rw [ask_session h hdata]
    exact Server.respond_failed hdata (Option.some.inj ((h.ask_reply request).symm.trans herror))

/-- Whatever is asked of a drive that begins without a session, in any order: what asks for data is
answered to open sessions only, no name of a session comes twice, a session that was revoked stays
so, and a request about a session that fails changes nothing. -/
theorem sessions_consistent (start : Server) (hsessions : start.sessions = [])
    (hcurrent : start.current = none) (allowance : Nat) (calls : List DriveCall) :
    (run { server := start, allowance } calls).Consistent :=
  ((Ledger.start hsessions hcurrent allowance).run calls).consistent

/-- An account with a second password and a second factor, before anyone logs in. -/
def carolServer : Server :=
  (Account.create "carol" "login-pw" (some "mailbox-pw") (some "123456")).server

/-- Two sessions, of which the second is revoked while the first one is resumed. -/
def carolCalls : List DriveCall :=
  [.ask (.login "carol" "login-pw"), .ask (.submitTwoFactor "123456"), .issue,
    .ask (.resume (.numbered 2)), .ask (.revoke "uid-2"), .ask (.resume (.numbered 1))]

theorem sessions_consistent_carol :
    carolServer.sessions = [] ∧ carolServer.current = none ∧
      (run { server := carolServer } carolCalls).Consistent :=
  ⟨rfl, rfl, sessions_consistent carolServer rfl rfl _ carolCalls⟩

end History

end SealedDrive
