import SealedDrive.Proofs.Logins
import SealedDrive.Proofs.Sessions

/-!
The drive in memory as a function. What it answers hangs on its state when the request comes: a
request about a session changes the sessions, a request for data only what is counted of loads. A
dialogue that asks only what is answered at once is then a function of the drive as well, and no
bound cuts it short.
-/

namespace SealedDrive

/-- Whether the drive answers at once, whatever delays are set. -/
def Request.isInstant : Request → Bool
  | .getShare _ | .listChildren _ _ _ => false
  | _ => true

namespace Server

/-- What the drive answers to a request, and the drive after it; loads are not counted. -/
def respond (s : Server) : (request : Request) → request.Reply × Server
  | .login username password => s.login username password
  | .submitTwoFactor code => s.submitTwoFactor code
  | .resume tokens => s.resume tokens
  | .revoke uid => s.revoke uid
  | .getUser => (s.guarded (.ok s.user), s)
  | .getAddresses => (s.guarded (.ok s.addresses), s)
  | .getSalts => (s.guarded (.ok s.salts), s)
  | .listVolumes => (s.guarded (.ok s.volumes), s)
  | .getVolume volumeId => (s.guarded (s.findVolume volumeId), s)
  | .listShares all => (s.guarded (.ok (s.listShares all)), s)
  | .getShare shareId => (s.guarded (s.findShare shareId), s)
  | .getLink shareId linkId => (s.guarded (s.findLink shareId linkId), s)
  | .listChildren shareId linkId all => (s.guarded (s.findChildren shareId linkId all), s)

/-- The same drive but for what is counted of loads. -/
def SameButLoads (s s' : Server) : Prop :=
  ∃ shareCalls inFlight departing maxInFlight,
    s' = { s with shareCalls, inFlight, departing, maxInFlight }

variable {s s' : Server} {request : Request}

theorem SameButLoads.refl (s : Server) : s.SameButLoads s := ⟨_, _, _, _, rfl⟩

theorem allows_leaveFlight_loads (s : Server) (how : Leaving) :
    (Discipline.standing s.SameButLoads).Allows (leaveFlight how) := by
  rintro _ s' ⟨_, _, _, _, rfl⟩
  cases how <;> exact ⟨(), trivial, _, _, _, _, rfl⟩

theorem allows_turn_loads (s : Server) :
    (Discipline.standing s.SameButLoads).Allows turn := by
  rintro _ s' ⟨_, _, _, _, rfl⟩
  exact ⟨(), trivial, _, _, _, _, rfl⟩

theorem meets_lookUp_loads {α : Type} (f : Server → Except ApiError α)
    (hf : ∀ s', s.SameButLoads s' → f s' = f s) :
    (lookUp f).Meets (.standing s.SameButLoads) False (fun reply _ => reply = s.guarded (f s))
      () := by
  intro s' hs
  have hfs := hf s' hs
  obtain ⟨_, _, _, _, rfl⟩ := hs
  show guarded _ _ = _
  rw [hfs]
  rfl

/-- The session is checked before the wait and the share is looked up after it, but only loads are
counted in between. -/
theorem meets_loadShare_loads (s : Server) (shareId : String) :
    (loadShare shareId).Meets (.standing s.SameButLoads) False
      (fun reply _ => reply = s.guarded (s.findShare shareId)) () := by
  intro s' hs
  have hauthorized : s'.isAuthorized = s.isAuthorized := by obtain ⟨_, _, _, _, rfl⟩ := hs; rfl
  dsimp only
  rw [hauthorized]
  unfold guarded
  by_cases h : s.isAuthorized = true
  · rw [if_pos h, if_pos h]
    obtain ⟨_, _, _, _, rfl⟩ := hs
    refine ⟨(), trivial, ⟨_, _, _, _, rfl⟩, meets_shareWait s.allows_leaveFlight_loads ?_⟩
    rintro s' ⟨_, _, _, _, rfl⟩
    exact ⟨(), trivial, ⟨_, _, _, _, rfl⟩, rfl⟩
  · rw [if_neg h, if_neg h]
    exact rfl

/-- Data is answered from the records, whatever waits come in between, and only loads are
counted. -/
theorem meets_data (s : Server) (h : request.isData = true) :
    (serve request).Meets (.standing s.SameButLoads) False
      (fun reply _ => reply = (s.respond request).1) () := by
  cases request with
  | login | submitTwoFactor | resume | revoke => cases h
  | getShare shareId => exact s.meets_loadShare_loads shareId
  | listChildren shareId linkId all =>
    have hlookup : (lookUp fun s => s.findChildren shareId linkId all).Meets
        (.standing s.SameButLoads) False
        (fun reply _ => reply = (s.respond (.listChildren shareId linkId all)).1) () :=
      meets_lookUp_loads _ (by rintro _ ⟨_, _, _, _, rfl⟩; rfl)
    intro s' _
    dsimp only
    split
    · exact hlookup
    · exact Activity.Meets.bind (Activity.meets_sleep (fun _ => Discipline.allows_id _)
        fun _ _ => hlookup)
  | _ => exact meets_lookUp_loads _ (by rintro _ ⟨_, _, _, _, rfl⟩; rfl)

/-- A request about a session is answered in one turn. -/
theorem run_session (h : request.isData = false) (turn : Nat → Server → Server) (left : Nat)
    (s : Server) :
    (serve request).run turn left s =
      (some (s.respond request).1, left, (s.respond request).2) := by
  cases request with
  | login | submitTwoFactor | resume | revoke => rfl
  | _ => cases h

theorem respond_data (h : request.isData = true) : (s.respond request).2 = s := by
  cases request with
  | login | submitTwoFactor | resume | revoke => cases h
  | _ => rfl

/-- Whatever is asked is answered. -/
theorem run_serve (s : Server) (request : Request) (left : Nat) :
    ∃ left' s', (serve request).run (fun _ => turn) left s =
        (some (s.respond request).1, left', s') ∧
      (s.respond request).2.SameButLoads s' ∧
      (request.isData = false → left' = left ∧ s' = (s.respond request).2) := by
  cases hdata : request.isData with
  | false => exact ⟨left, _, run_session hdata _ left s, .refl _, fun _ => ⟨rfl, rfl⟩⟩
  | true =>
    obtain ⟨_, -, hsame, hpost, hcrash⟩ :=
      (s.meets_data hdata).run (fun _ => s.allows_turn_loads) left (.refl s)
    rw [respond_data hdata]
    rcases hrun : (serve request).run (fun _ => turn) left s with ⟨reply, left', s'⟩
    rw [hrun] at hsame hpost hcrash
    cases reply with
    | none => exact (hcrash rfl).elim
    | some reply => exact ⟨left', s', by rw [hpost reply rfl], hsame, nofun⟩

/-- What is answered with data is answered from the records. -/
theorem guarded_ok {α : Type} {record answer : α}
    (h : s.guarded (.ok record) = .ok answer) : answer = record := by
  unfold guarded at h
  split at h
  · exact (Except.ok.inj h).symm
  · cases h

/-- What is answered to a request for data, is answered to those who are authorized. -/
theorem respond_unauthorized (h : request.isData = true) (hs : s.isAuthorized = false) :
    (s.respond request).1 = .error .unauthorized := by
  have hrefused {α : Type} (answer : Except ApiError α) :
      s.guarded answer = .error .unauthorized := if_neg (by rw [hs]; decide)
  cases request with
  | login | submitTwoFactor | resume | revoke => cases h
  | _ => exact hrefused _

/-- A request about a session that fails changes nothing. -/
theorem respond_failed (h : request.isData = false) {error : ApiError}
    (herror : (s.respond request).1 = .error error) : (s.respond request).2 = s := by
  cases request with
  | login username password =>
    change (s.login username password).1 = _ at herror
    change (s.login username password).2 = _
    unfold login at herror ⊢
    split
    · rfl
    · next hright =>
      rw [if_neg hright] at herror
      cases herror
  | submitTwoFactor code =>
    change (s.submitTwoFactor code).1 = _ at herror
    change (s.submitTwoFactor code).2 = _
    unfold submitTwoFactor at herror ⊢
    split
    · rfl
    · next hright =>
      rw [if_neg hright] at herror
      cases herror
  | resume tokens =>
    change (s.resume tokens).1 = _ at herror
    change (s.resume tokens).2 = _
    unfold resume at herror ⊢
    split
    · next hright =>
      rw [if_pos hright] at herror
      cases herror
    · rfl
  | revoke uid =>
    change (s.revoke uid).1 = _ at herror
    rcases revoke_cases s uid with ⟨hok, -⟩ | ⟨_, hfailed⟩
    · rw [hok] at herror
      cases herror
    · exact congrArg Prod.snd hfailed
  | _ => cases h

end Server

/-! ## Dialogues -/

theorem World.burst_service {request : Request} (h : request.isInstant = true) (world : World)
    (left : Nat) :
    (World.service true request).burst left world =
      (.done (world.bench.server.respond request).1, left,
        world.withServer (world.bench.server.respond request).2) := by
  cases request with
  | getShare | listChildren => cases h
  | _ => rfl

namespace Dialogue

variable {α β ε : Type}

/-- What a dialogue comes to when the drive answers it. -/
def playOn : Dialogue Unit α → Server → α × Server
  | done a, s => (a, s)
  | ask request next, s => playOn (next (s.respond request).1) (s.respond request).2
  | read next, s => playOn (next ()) s
  | write _ next, s => playOn next s

/-- A dialogue that asks only what is answered at once. -/
def IsInstant (p : Dialogue Unit α) : Prop :=
  p.Meets (.standing fun _ => True) ⟨fun request => request.isInstant = true, fun _ _ => True⟩
    (fun _ _ => True) ()

theorem burst_playOn {p : Dialogue Unit α} (h : p.IsInstant) (world : World) (left : Nat) :
    (p.carryAlone (World.service true)).burst left world =
      (.done (p.playOn world.bench.server).1, left,
        world.withServer (p.playOn world.bench.server).2) := by
  induction p generalizing world with
  | done a => rfl
  | ask request next ih =>
    obtain ⟨hasked, hnext⟩ := h
    refine (Activity.burst_bind _ (World.burst_service hasked world left)).trans ?_
    exact ih _ (hnext () trivial _ trivial) _
  | read next ih => exact ih () (h () trivial) world
  | write memory next ih =>
    obtain ⟨_, -, -, hnext⟩ := h
    exact ih hnext world

theorem playOn_bind (p : Dialogue Unit α) (f : α → Dialogue Unit β) (s : Server) :
    (p.bind f).playOn s = (f (p.playOn s).1).playOn (p.playOn s).2 := by
  induction p generalizing s with
  | done a => rfl
  | ask request next ih => exact ih _ _
  | read next ih => exact ih () s
  | write memory next ih => exact ih s

/-- What comes to an answer in the end has come to one on the way. -/
theorem playOn_bind_ok {p : ExceptT ε (Dialogue Unit) α} {f : α → ExceptT ε (Dialogue Unit) β}
    {s s' : Server} {b : β} (h : (p >>= f).run.playOn s = (.ok b, s')) :
    ∃ a middle, p.run.playOn s = (.ok a, middle) ∧ (f a).run.playOn middle = (.ok b, s') := by
  have hbind := (playOn_bind p.run (ExceptT.bindCont f) s).symm.trans h
  rcases hplay : p.run.playOn s with ⟨_ | a, middle⟩
  · rw [hplay] at hbind
    cases hbind
  · rw [hplay] at hbind
    exact ⟨a, middle, rfl, hbind⟩

theorem playOn_bind_of_ok {p : ExceptT ε (Dialogue Unit) α}
    {f : α → ExceptT ε (Dialogue Unit) β} {s middle : Server} {a : α}
    (h : p.run.playOn s = (.ok a, middle)) :
    (p >>= f).run.playOn s = (f a).run.playOn middle := by
  refine (playOn_bind p.run (ExceptT.bindCont f) s).trans ?_
  rw [h]
  rfl

theorem playOn_fetch (wrap : ApiError → ε) (request : Request) (s : Server) :
    (fetch wrap request).run.playOn s =
      ((s.respond request).1.mapError wrap, (s.respond request).2) := by
  unfold fetch
  show playOn (ask request _) s = _
  unfold playOn
  rcases s.respond request with ⟨_ | _, middle⟩
  · rfl
  · rfl

variable {s s' : Server}

/-- What was fetched is what the drive answers. -/
theorem playOn_fetch_ok {wrap : ApiError → ε} {request : Request} {answer : request.Answer}
    (h : (fetch wrap request).run.playOn s = (.ok answer, s')) :
    (s.respond request).1 = .ok answer ∧ (s.respond request).2 = s' := by
  rw [playOn_fetch] at h
  obtain ⟨hreply, hstate⟩ := Prod.ext_iff.1 h
  refine ⟨?_, hstate⟩
  cases hrespond : (s.respond request).1 with
  | ok _ =>
    rw [hrespond] at hreply
    exact congrArg Except.ok (Except.ok.inj hreply)
  | error _ =>
    rw [hrespond] at hreply
    cases hreply

theorem playOn_fetch_of_ok {wrap : ApiError → ε} {request : Request} {answer : request.Answer}
    (h : s.respond request = (.ok answer, s')) :
    (fetch wrap request).run.playOn s = (.ok answer, s') := by
  rw [playOn_fetch, h]
  rfl

/-! ### Parts of dialogues -/

theorem IsInstant.bind {p : ExceptT ε (Dialogue Unit) α} {f : α → ExceptT ε (Dialogue Unit) β}
    (h : p.run.IsInstant) (hf : ∀ a, (f a).run.IsInstant) : (p >>= f).run.IsInstant := by
  refine Meets.bindExcept (h.mono fun r _ _ _ => ?_)
  cases r with
  | ok a => exact hf a
  | error error => trivial

theorem isInstant_fetch {wrap : ApiError → ε} {request : Request}
    (h : request.isInstant = true) : (fetch wrap request).run.IsInstant :=
  meets_fetch request h fun _ _ _ _ => trivial

/-- A dialogue that asks nothing. -/
def IsSilent (p : Dialogue Unit α) : Prop := ∃ answer, p = done answer

theorem IsSilent.isInstant {p : Dialogue Unit α} (h : p.IsSilent) : p.IsInstant := by
  obtain ⟨answer, rfl⟩ := h
  trivial

theorem IsSilent.playOn {p : Dialogue Unit α} (h : p.IsSilent) {answer : α}
    (hplay : p.playOn s = (answer, s')) : s = s' := by
  obtain ⟨_, rfl⟩ := h
  exact (Prod.ext_iff.1 hplay).2

theorem isSilent_answer (answer : Except ε α) :
    (ExceptT.mk (pure answer) : ExceptT ε (Dialogue Unit) α).run.IsSilent := ⟨answer, rfl⟩

end Dialogue
end SealedDrive
