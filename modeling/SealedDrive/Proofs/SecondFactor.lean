import SealedDrive.Proofs.Ledger

/-!
The second factor over histories of the drive in memory. That a login still waits for its second
factor is noted for the drive and not for the session: to resume any open session clears it. So data
is answered to sessions that had their second factor exactly as long as no other session is resumed.
-/

namespace SealedDrive.History

/-- Whatever data would be answered on the way, would be answered to a session that had its second
factor while it was the current one. -/
def AnswersConfirmed (start : History) (calls : List DriveCall) : Prop :=
  ∀ before, before <+: calls → ∀ request, request.isData = true →
    ∀ answer, ((start.run before).ask request).1 = some (.ok answer) →
    ∃ uid, (start.run before).server.current = some uid ∧ uid ∈ (start.run before).confirmed

/-- Whichever sessions are resumed, had their second factor. -/
def ResumesConfirmed (start : History) (calls : List DriveCall) : Prop :=
  ∀ before tokens, before ++ [.ask (.resume tokens)] <+: calls →
    ((start.run before).ask (.resume tokens)).1 = some (.ok ()) →
    tokens.uid ∈ (start.run before).confirmed

variable {h h' : History} {event : DriveEvent}

/-- Who is authorized had the second factor. -/
structure Factored (h : History) : Prop where
  code : h.server.twoFactorCode.isSome = true
  confirmed : ∀ uid, h.server.current = some uid → h.server.awaitingTwoFactor = false →
    uid ∈ h.confirmed

namespace Factored

/-- Every call keeps it but a resumption, which has to be of a session that had its factor. -/
theorem effect (hf : h.Factored) (hlog : h'.log = h.log ++ [event])
    (heffect : event.Effect h.server h'.server)
    (hresume : ∀ current tokens, event = .replied current (.resume tokens) (.ok ()) →
      tokens.uid ∈ h.confirmed) : h'.Factored := by
  have hmem {uid : String} (huid : uid ∈ h.confirmed) : uid ∈ h'.confirmed := by
    rw [confirmed_append hlog]
    exact List.mem_append_left _ huid
  generalize hserver : h'.server = server at heffect
  cases heffect with
  | login =>
    refine ⟨by rw [hserver]; exact hf.code, fun uid _ hawaiting => ?_⟩
    rw [hserver] at hawaiting
    cases hf.code.symm.trans hawaiting
  | issue =>
    refine ⟨by rw [hserver]; exact hf.code, fun uid huid hawaiting => ?_⟩
    rw [hserver] at huid hawaiting
    exact hmem (hf.confirmed uid huid hawaiting)
  | confirm =>
    refine ⟨by rw [hserver]; exact hf.code, fun uid huid _ => ?_⟩
    rw [hserver] at huid
    rw [confirmed_append hlog]
    exact List.mem_append_right _ (Option.mem_toList.2 huid)
  | resume =>
    refine ⟨by rw [hserver]; exact hf.code, fun uid huid _ => ?_⟩
    rw [hserver] at huid
    cases huid
    exact hmem (hresume _ _ rfl)
  | revoke =>
    refine ⟨by rw [hserver]; exact hf.code, fun uid huid hawaiting => ?_⟩
    rw [hserver] at huid hawaiting
    refine hmem (hf.confirmed uid ?_ hawaiting)
    dsimp only at huid
    split at huid
    · cases huid
    · exact huid
  | other _ _ _ same =>
    obtain ⟨_, _, _, _, rfl⟩ := same
    refine ⟨by rw [hserver]; exact hf.code, fun uid huid hawaiting => ?_⟩
    rw [hserver] at huid hawaiting
    exact hmem (hf.confirmed uid huid hawaiting)

theorem step (hf : h.Factored) (call : DriveCall)
    (hresume : ∀ tokens, call = .ask (.resume tokens) →
      (h.ask (.resume tokens)).1 = some (.ok ()) → tokens.uid ∈ h.confirmed) :
    (h.step call).Factored := by
  cases call with
  | issue => exact hf.effect rfl .issue nofun
  | ask request =>
    obtain ⟨allowance, server, hask, hsame, hsession⟩ := h.ask_eq request
    show (h.ask request).2.Factored
    rw [hask]
    refine hf.effect rfl (DriveEvent.effect_respond h.server request hsame hsession) ?_
    intro current tokens hevent
    obtain ⟨-, rfl, hreply⟩ := DriveEvent.replied.inj hevent
    exact hresume tokens rfl (by rw [ask_reply, eq_of_heq hreply])

theorem run (hf : h.Factored) {calls : List DriveCall} (hresumes : h.ResumesConfirmed calls) :
    (h.run calls).Factored := by
  induction calls generalizing h with
  | nil => exact hf
  | cons call rest ih =>
    refine ih (hf.step call ?_) fun before tokens hbefore =>
      hresumes (call :: before) tokens (List.cons_prefix_cons.2 ⟨rfl, hbefore⟩)
    rintro tokens rfl
    exact hresumes [] tokens (List.cons_prefix_cons.2 ⟨rfl, List.nil_prefix⟩)

/-- Data is answered to those who had their second factor. -/
theorem answer (hf : h.Factored) {request : Request} (hdata : request.isData = true)
    {answer : request.Answer} (hok : (h.ask request).1 = some (.ok answer)) :
    ∃ uid, h.server.current = some uid ∧ uid ∈ h.confirmed := by
  cases hauthorized : h.server.isAuthorized with
  | false =>
    rw [ask_reply, Server.respond_unauthorized hdata hauthorized] at hok
    cases hok
  | true =>
    obtain ⟨hcurrent, hawaiting⟩ := Bool.and_eq_true_iff.1 hauthorized
    obtain ⟨uid, huid⟩ := Option.isSome_iff_exists.1 hcurrent
    exact ⟨uid, huid, hf.confirmed uid huid ((Bool.not_eq_true' _).mp hawaiting)⟩

end Factored

/-- A session that is resumed is authorized. -/
theorem answered_of_resumed {tokens : Tokens}
    (hok : (h.ask (.resume tokens)).1 = some (.ok ())) :
    ((h.ask (.resume tokens)).2.ask .getUser).1 = some (.ok h.server.user) ∧
      (h.ask (.resume tokens)).2.server.current = some tokens.uid ∧
      (h.ask (.resume tokens)).2.confirmed = h.confirmed := by
  have hserver : (h.ask (.resume tokens)).2.server =
      { h.server with current := some tokens.uid, awaitingTwoFactor := false } := by
    rw [ask_session h rfl]
    show (h.server.resume tokens).2 = _
    unfold Server.resume
    rw [if_pos ((h.ask_resume tokens).1 hok)]
  refine ⟨?_, by rw [hserver], ?_⟩
  · rw [ask_reply, hserver]
    rfl
  · obtain ⟨_, _, hask, -, -⟩ := h.ask_eq (.resume tokens)
    rw [hask, confirmed_append rfl]
    exact List.append_nil _

/-- Against an account with a second factor, data is answered only to sessions that had theirs,
exactly when no other session is resumed. -/
theorem answers_confirmed_iff (start : Server) (hcode : start.twoFactorCode.isSome = true)
    (hcurrent : start.current = none) (allowance : Nat) (calls : List DriveCall) :
    AnswersConfirmed { server := start, allowance } calls ↔
      ResumesConfirmed { server := start, allowance } calls := by
  have hstart : Factored { server := start, allowance } :=
    ⟨hcode, fun uid huid _ => nomatch hcurrent.symm.trans huid⟩
  constructor
  · intro hanswers before tokens hbefore hok
    obtain ⟨huser, hnow, hsame⟩ := answered_of_resumed hok
    have hrun : run { server := start, allowance } (before ++ [.ask (.resume tokens)]) =
        ((run { server := start, allowance } before).ask (.resume tokens)).2 :=
      List.foldl_concat _ _ _ _
    obtain ⟨uid, huid, hmem⟩ := hanswers _ hbefore .getUser rfl _ (by rw [hrun]; exact huser)
    rw [hrun] at huid hmem
    rw [hsame] at hmem
    cases hnow.symm.trans huid
    exact hmem
  · intro hresumes before hbefore request hdata answer hok
    refine (hstart.run fun earlier tokens hearlier => ?_).answer hdata hok
    exact hresumes earlier tokens (hearlier.trans hbefore)

/-- A login that has its second factor. -/
def confirmedCalls : List DriveCall :=
  [.ask (.login "carol" "login-pw"), .ask (.submitTwoFactor "123456")]

theorem answers_confirmed_iff_login :
    carolServer.twoFactorCode.isSome = true ∧ carolServer.current = none ∧
      ((run { server := carolServer } confirmedCalls).ask .getUser).1 =
        some (.ok carolServer.user) ∧
      AnswersConfirmed { server := carolServer } confirmedCalls := by
  refine ⟨rfl, rfl, rfl, (answers_confirmed_iff carolServer rfl rfl _ _).2 ?_⟩
  intro before tokens hbefore _
  have hresume : DriveCall.ask (.resume tokens) ∈ confirmedCalls :=
    hbefore.subset (List.mem_append_right _ (List.mem_singleton_self _))
  simp [confirmedCalls] at hresume

/-- A login whose session is resumed before its second factor. -/
def pendingCalls : List DriveCall :=
  [.ask (.login "carol" "login-pw"), .ask .getUser, .ask (.resume (.numbered 1))]

/-- A login gives out the tokens with which it gets around its second factor. -/
theorem resumed_without_factor :
    carolServer.twoFactorCode = some "123456" ∧ carolServer.sessions = [] ∧
      carolServer.current = none ∧
      ((run { server := carolServer } pendingCalls).ask .getUser).1 =
        some (.ok carolServer.user) ∧
      (run { server := carolServer } pendingCalls).server.current = some "uid-1" ∧
      (run { server := carolServer } pendingCalls).confirmed = [] ∧
      ¬ AnswersConfirmed { server := carolServer } pendingCalls := by
  refine ⟨rfl, rfl, rfl, rfl, rfl, rfl, fun hanswers => ?_⟩
  obtain ⟨uid, -, huid⟩ := hanswers _ (List.prefix_refl _) .getUser rfl _ rfl
  exact List.not_mem_nil huid

end SealedDrive.History
