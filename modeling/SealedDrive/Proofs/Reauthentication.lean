import SealedDrive.Proofs.Entering
import SealedDrive.Proofs.Transcripts

/-!
When to ask for a login again. A restoration that finds no credentials answers that nobody is logged
in, and that is the one error of it that is classified so. A session that the server no longer
accepts is answered with the refusal instead, which is classified so only where it is an error of
the drive itself and not one of a session.
-/

namespace SealedDrive

/-! ## The network phase -/

namespace LockedSession

theorem stopsAt_restore (tokens : Tokens) :
    (restore tokens : ExceptT SessionError (Dialogue Unit) LockedSession).run.StopsAt .api :=
  .bind (isSilent_require _ _).stopsAt fun _ => .bind (isSilent_require _ _).stopsAt fun _ =>
    .bind (isSilent_require _ _).stopsAt fun _ => .bind (Dialogue.stopsAt_fetch _ _) fun _ =>
      .bind (Dialogue.stopsAt_fetch _ _) fun _ =>
        .bind (Dialogue.stopsAt_fetch _ _) fun _ => trivial

/-- An error that is no reason to ask for a login. -/
def KeepsQuiet {α : Type} (answer : Except SessionError α) : Prop :=
  ∀ error, answer = .error error → error.isNotLoggedIn = false

theorem unlock_keepsQuiet (locked : LockedSession) (number : Nat) (keyPass : KeyPass) :
    KeepsQuiet (locked.unlock number keyPass) := by
  intro error h
  unfold unlock at h
  split at h
  · cases h
    rfl
  · split at h
    · cases h
      rfl
    · cases h

/-- Whatever is replied, no error asks for a login. -/
def IsQuiet {α : Type} (p : ExceptT SessionError (Dialogue Unit) α) : Prop :=
  p.run.Meets (.standing fun _ => True) ⟨fun _ => True, fun _ _ => True⟩
    (fun answer _ => KeepsQuiet answer) ()

theorem IsQuiet.bind {α β : Type} {p : ExceptT SessionError (Dialogue Unit) α}
    {f : α → ExceptT SessionError (Dialogue Unit) β} (h : IsQuiet p) (hf : ∀ a, IsQuiet (f a)) :
    IsQuiet (p >>= f) := by
  refine Dialogue.Meets.bindExcept (h.mono fun answer _ _ hquiet => ?_)
  cases answer with
  | ok a => exact hf a
  | error error =>
    rintro _ ⟨⟩
    exact hquiet error rfl

theorem isQuiet_require (value : String) (what : Credential) : IsQuiet (require value what) := by
  unfold require
  split
  · rintro _ ⟨⟩
    rfl
  · exact nofun

theorem isQuiet_fetch (request : Request) : IsQuiet (Dialogue.fetch .api request) := by
  refine Dialogue.meets_fetch request trivial fun _ _ reply _ error h => ?_
  obtain ⟨_, -, rfl⟩ := mapError_eq_error_iff.mp h
  rfl

theorem isQuiet_restore (tokens : Tokens) : IsQuiet (restore tokens) :=
  .bind (isQuiet_require _ _) fun _ => .bind (isQuiet_require _ _) fun _ =>
    .bind (isQuiet_require _ _) fun _ => .bind (isQuiet_fetch _) fun _ =>
      .bind (isQuiet_fetch _) fun _ => .bind (isQuiet_fetch _) fun _ => nofun

end LockedSession

namespace Custody

open LockedSession

variable {τ α : Type}

theorem call_restore (c : Custody τ) (number : Nat) :
    c.call (.restore number) =
      match c.stored with
      | .error error => (some (.error (.store error)), c)
      | .ok none => (some (.error .notLoggedIn), c)
      | .ok (some credentials) =>
        match credentials.keyPass with
        | .error error => (some (.error (.crypto error)), c)
        | .ok keyPass =>
          ((c.phase (LockedSession.restore credentials.tokens).run).1.map fun answer =>
            answer.bind fun locked => c.unlocked number locked keyPass,
            (c.phase (LockedSession.restore credentials.tokens).run).2) := by
  unfold call SessionManager.restore
  dsimp only
  rw [perform_bind, perform_storedCredentials]
  rcases c.stored with error | _ | credentials
  · rfl
  · rfl
  · dsimp only
    have hkeyPass : c.perform (ExceptT.mk (pure (credentials.keyPass.mapError .crypto)) :
        ExceptT SessionError (Activity (τ × Vault)) KeyPass).run =
      (some (credentials.keyPass.mapError .crypto), c) := rfl
    have hphase : c.perform (c.manager.timed ((LockedSession.restore
          credentials.tokens).run.carryAlone c.beside)).run =
        c.phase (LockedSession.restore credentials.tokens).run := rfl
    rw [perform_bind, hkeyPass]
    rcases credentials.keyPass with error | keyPass
    · rfl
    · dsimp only [Except.mapError]
      rw [perform_bind, hphase]
      rcases c.phase (LockedSession.restore credentials.tokens).run with ⟨_ | error | locked, after⟩
      · rfl
      · rfl
      · rfl

theorem keepsQuiet_phase_restore (c : Custody τ) (tokens : Tokens)
    {answer : Except SessionError LockedSession}
    (h : (c.phase (LockedSession.restore tokens).run).1 = some answer) : KeepsQuiet answer := by
  have hgives : c.beside.Gives (fun _ => True) True ⟨fun _ => True, fun _ _ => True⟩ :=
    c.beside.gives_any fun _ _ => trivial
  have hphase : c.manager.timed ((LockedSession.restore tokens).run.carryAlone c.beside) |>.run
      |>.Meets (.standing fun _ => True) True (fun answer _ => KeepsQuiet answer) () :=
    .before ((isQuiet_restore tokens).carryAlone hgives) fun _ _ error herror => by
      cases herror
      rfl
  obtain ⟨_, hquiet⟩ := hphase.exists_post (fun _ _ _ _ => ⟨(), trivial, trivial⟩)
    (s := (c.state, c.vault)) trivial h
  exact hquiet

/-- What was said while a session was restored. -/
def saidRestoring (c : Custody τ) (number : Nat) : List Exchange :=
  (c.recorded.call (.restore number)).2.state.1.said

theorem restore_of_unauthorized (c : Custody τ) (number : Nat) {request : Request}
    (h : ⟨request, .error .unauthorized⟩ ∈ c.saidRestoring number) :
    (c.call (.restore number)).1 = some (.error (.api .unauthorized)) := by
  have hstored : c.recorded.stored = c.stored := rfl
  unfold saidRestoring at h
  rw [call_restore, hstored] at h
  rw [call_restore]
  generalize c.stored = stored at h ⊢
  rcases stored with error | _ | credentials
  · cases h
  · cases h
  dsimp only at h ⊢
  generalize credentials.keyPass = keyPass at h ⊢
  rcases keyPass with error | keyPass
  · cases h
  dsimp only at h ⊢
  obtain ⟨-, answer, ⟨said, rest, hleads, hstops, htranscript⟩, hanswer⟩ :=
    c.phase_recorded (LockedSession.restore credentials.tokens).run
  rw [htranscript] at h
  -- the refusal was the last reply, and the dialogue is over with it
  obtain rfl := hleads.of_refused (stopsAt_restore _) h
  match answer, hstops with
  | some (some _), hstops =>
    cases hstops
    rw [hanswer]
    rfl
  | some none, hstops => cases hstops
  | none, hstops => cases hstops

/-- Where something is stored, whatever goes wrong asks for no login. -/
theorem keepsQuiet_restore (c : Custody τ) (number : Nat) (hstored : c.stored ≠ .ok none)
    {answer : Except SessionError Session} (h : (c.call (.restore number)).1 = some answer) :
    KeepsQuiet answer := by
  rw [call_restore] at h
  generalize c.stored = stored at h hstored
  rcases stored with error | _ | credentials
  · cases h
    rintro _ ⟨⟩
    rfl
  · exact absurd rfl hstored
  dsimp only at h
  generalize credentials.keyPass = keyPass at h
  rcases keyPass with error | keyPass
  · cases h
    rintro _ ⟨⟩
    rfl
  obtain ⟨resumed, hresumed, rfl⟩ := Option.map_eq_some_iff.mp h
  cases resumed with
  | error error =>
    rintro _ ⟨⟩
    exact c.keepsQuiet_phase_restore credentials.tokens hresumed error rfl
  | ok locked => exact unlock_keepsQuiet _ _ _

/-- A restoration asks for a login exactly when nothing is stored. Where the server answers a call
of it that the client is unauthorized, that is its answer, and does not ask for a login. An error of
a session is classified as before inside an error of the drive; of the errors of the server, that
the client is unauthorized asks for a login, but only as an error of the drive itself. -/
theorem isNotLoggedIn_restore (c : Custody τ) (number : Nat) :
    (c.stored = .ok none → (c.call (.restore number)).1 = some (.error .notLoggedIn)) ∧
    (∀ error, (c.call (.restore number)).1 = some (.error error) →
      (error.isNotLoggedIn = true ↔ c.stored = .ok none)) ∧
    (∀ request, ⟨request, .error .unauthorized⟩ ∈ c.saidRestoring number →
      (c.call (.restore number)).1 = some (.error (.api .unauthorized)) ∧
        (SessionError.api .unauthorized).isNotLoggedIn = false) ∧
    (∀ error : SessionError, (DriveError.session error).isNotLoggedIn = error.isNotLoggedIn) ∧
    ∀ error : ApiError, (SessionError.api error).isNotLoggedIn = false ∧
      ((DriveError.api error).isNotLoggedIn = true ↔ error = .unauthorized) := by
  refine ⟨fun h => ?_, fun error h => ⟨fun hlogin => ?_, fun hstored => ?_⟩, fun request h => ?_,
    fun _ => rfl, fun error => ⟨rfl, ?_⟩⟩
  · rw [call_restore, h]
  · by_contra hstored
    rw [c.keepsQuiet_restore number hstored h error rfl] at hlogin
    cases hlogin
  · rw [call_restore, hstored] at h
    cases h
    rfl
  · exact ⟨c.restore_of_unauthorized number h, rfl⟩
  · cases error <;> simp [DriveError.isNotLoggedIn]

/-- The server no longer knows the session that is stored. -/
def revoked : Custody World where
  service := World.service true
  turn := World.turn
  keeping := .memory
  config := {}
  account := "default"
  state := { bench := { account := .create "alice" "pw" none none } }
  vault := { memory := ⟨[("default", ⟨⟨"uid-1", "access-1", "refresh-1"⟩, ""⟩)], by simp⟩ }

/-- That a stored session was revoked asks for no login, although the same refusal does where it is
an error of the drive itself. -/
theorem restore_revoked :
    ⟨.resume ⟨"uid-1", "access-1", "refresh-1"⟩, .error .unauthorized⟩ ∈ revoked.saidRestoring 0 ∧
      (revoked.call (.restore 0)).1 = some (.error (.api .unauthorized)) ∧
      (SessionError.api .unauthorized).isNotLoggedIn = false ∧
      (DriveError.session (.api .unauthorized)).isNotLoggedIn = false ∧
      (DriveError.api .unauthorized).isNotLoggedIn = true := by
  have hsaid : revoked.saidRestoring 0 =
    [⟨.resume ⟨"uid-1", "access-1", "refresh-1"⟩, .error .unauthorized⟩] := rfl
  exact ⟨hsaid ▸ List.mem_singleton.mpr rfl, rfl, rfl, rfl, rfl⟩

end Custody
end SealedDrive
