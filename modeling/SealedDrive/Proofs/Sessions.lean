import SealedDrive.Proofs.Files
import SealedDrive.Proofs.Loading
import SealedDrive.Proofs.Served

/-!
Sessions on the drive are numbered as they are issued. A session that is open was open before or has
a higher number than all before, whatever is asked of the drive in between; so one that was ended
stays ended, because no number comes twice.
-/

namespace SealedDrive

namespace Server

/-- What may have become of the sessions: those that are open were open before, or were issued
since. -/
structure Later (s s' : Server) : Prop where
  issued : s.issued ≤ s'.issued
  active : ∀ uid, s'.isActive uid = true →
    s.isActive uid = true ∨ ∃ n, s.issued < n ∧ n ≤ s'.issued ∧ uid = Plan.label "uid" n

/-- The open sessions have the numbers that were issued. -/
def Numbered (s : Server) : Prop :=
  ∀ uid, s.isActive uid = true → ∃ n ≤ s.issued, uid = Plan.label "uid" n

variable {s s' s'' : Server}

theorem Later.of_eq (hissued : s'.issued = s.issued) (hsessions : s'.sessions = s.sessions) :
    s.Later s' := by
  refine ⟨Nat.le_of_eq hissued.symm, fun uid h => .inl ?_⟩
  rw [isActive, hsessions] at h
  exact h

theorem Later.refl (s : Server) : s.Later s := .of_eq rfl rfl

theorem Later.trans (h : s.Later s') (h' : s'.Later s'') : s.Later s'' := by
  refine ⟨Nat.le_trans h.issued h'.issued, fun uid hactive => ?_⟩
  rcases h'.active uid hactive with hactive | ⟨n, hlt, hle, rfl⟩
  · rcases h.active uid hactive with hactive | ⟨n, hlt, hle, rfl⟩
    · exact .inl hactive
    · exact .inr ⟨n, hlt, Nat.le_trans hle h'.issued, rfl⟩
  · exact .inr ⟨n, Nat.lt_of_le_of_lt h.issued hlt, hle, rfl⟩

theorem Later.numbered (h : s.Later s') (hs : s.Numbered) : s'.Numbered := by
  intro uid hactive
  rcases h.active uid hactive with hactive | ⟨n, -, hle, rfl⟩
  · obtain ⟨n, hle, rfl⟩ := hs uid hactive
    exact ⟨n, Nat.le_trans hle h.issued, rfl⟩
  · exact ⟨n, hle, rfl⟩

/-- A session that was ended stays ended. -/
theorem Later.stays_ended (hs : s.Numbered) {uid : String} (hactive : s.isActive uid = true)
    (h : s.Later s') (hended : s'.isActive uid = false) (h' : s'.Later s'') :
    s''.isActive uid = false := by
  obtain ⟨m, hm, rfl⟩ := hs uid hactive
  refine Bool.eq_false_iff.2 fun hagain => ?_
  rcases h'.active _ hagain with hopen | ⟨n, hlt, -, hlabel⟩
  · rw [hended] at hopen
    cases hopen
  -- Its number was issued before the middle state, and all that opened since have higher ones.
  · have hmn : m = n := Plan.label_inj hlabel
    have hissued := h.issued
    omega

/-! ## Requests -/

theorem later_issueSession (s : Server) : s.Later s.issueSession.2 := by
  refine ⟨Nat.le_succ _, fun uid hactive => ?_⟩
  have hlookup : s.issueSession.2.sessions.lookup uid =
      if uid = Plan.label "uid" (s.issued + 1) then some s.issueSession.1.accessToken
      else s.sessions.lookup uid := lookup_setEntry _ _ _ _
  by_cases huid : uid = Plan.label "uid" (s.issued + 1)
  · exact .inr ⟨s.issued + 1, Nat.lt_succ_self _, Nat.le_refl _, huid⟩
  · rw [if_neg huid] at hlookup
    rw [isActive, hlookup] at hactive
    exact .inl hactive

theorem later_login (s : Server) (username password : String) :
    s.Later (s.login username password).2 := by
  unfold login
  split
  · exact .refl s
  · exact (later_issueSession s).trans (.of_eq rfl rfl)

theorem later_submitTwoFactor (s : Server) (code : String) :
    s.Later (s.submitTwoFactor code).2 := by
  unfold submitTwoFactor
  split
  · exact .refl s
  · exact .of_eq rfl rfl

theorem later_resume (s : Server) (tokens : Tokens) : s.Later (s.resume tokens).2 := by
  unfold resume
  split
  · exact .of_eq rfl rfl
  · exact .refl s

/-- Revoking ends the session that is named, which has to be open, or does nothing. -/
theorem revoke_cases (s : Server) (uid : String) :
    ((s.revoke uid).1 = .ok () ∧ s.isActive uid = true ∧ (s.revoke uid).2.issued = s.issued ∧
      (s.revoke uid).2.sessions = s.sessions.filter (·.1 ≠ uid)) ∨
    ∃ error, s.revoke uid = (.error error, s) := by
  unfold revoke
  split
  · exact .inr ⟨_, rfl⟩
  · split
    · exact .inr ⟨_, rfl⟩
    · next hactive => exact .inl ⟨rfl, by simpa using hactive, rfl, rfl⟩

/-- Only the session that is revoked ends. -/
theorem isActive_revoke {s : Server} {uid : String} (h : (s.revoke uid).1 = .ok ())
    (other : String) :
    (s.revoke uid).2.isActive other = true ↔ s.isActive other = true ∧ other ≠ uid := by
  rcases revoke_cases s uid with ⟨-, -, -, hsessions⟩ | ⟨error, herror⟩
  · unfold isActive
    rw [hsessions, lookup_filter_ne]
    by_cases hother : other = uid
    · simp [hother]
    · simp [hother]
  · rw [herror] at h
    cases h

theorem later_revoke (s : Server) (uid : String) : s.Later (s.revoke uid).2 := by
  rcases revoke_cases s uid with ⟨hok, -, hissued, -⟩ | ⟨error, herror⟩
  · exact ⟨Nat.le_of_eq hissued.symm, fun other h => .inl ((isActive_revoke hok other).1 h).1⟩
  · rw [herror]
    exact .refl s

theorem later_leaveFlight (how : Leaving) (s : Server) : s.Later (s.leaveFlight how) := by
  cases how <;> exact .of_eq rfl rfl

/-! ## Service -/

variable {start : Server}

theorem meets_atOnce {α : Type} {f : Server → α × Server} (h : ∀ s : Server, s.Later (f s).2) :
    (atOnce f).Meets (.standing start.Later) False (fun _ _ => True) () :=
  fun s hs => ⟨(), trivial, hs.trans (h s), trivial⟩

theorem meets_lookUp_later {α : Type} (f : Server → Except ApiError α) :
    (lookUp f).Meets (.standing start.Later) False (fun _ _ => True) () :=
  fun _ _ => trivial

theorem gives_later (start : Server) : serve.Gives start.Later False .any := by
  have hleave (how : Leaving) : (Discipline.standing start.Later).Allows (leaveFlight how) :=
    fun _ s hs => ⟨(), trivial, hs.trans (later_leaveFlight how s)⟩
  intro request _
  cases request with
  | login username password => exact meets_atOnce fun s => later_login s username password
  | submitTwoFactor code => exact meets_atOnce fun s => later_submitTwoFactor s code
  | resume tokens => exact meets_atOnce fun s => later_resume s tokens
  | revoke uid => exact meets_atOnce fun s => later_revoke s uid
  | getShare shareId =>
    intro s hs
    dsimp only
    split
    · exact ⟨(), trivial, hs.trans (.of_eq rfl rfl), meets_shareWait hleave fun s hs =>
        ⟨(), trivial, hs.trans (later_leaveFlight _ s), trivial⟩⟩
    · trivial
  | listChildren shareId linkId all =>
    intro s _
    dsimp only
    split
    · exact meets_lookUp_later _
    · exact Activity.Meets.bind (Activity.meets_sleep (fun _ => Discipline.allows_id _)
        fun _ _ => meets_lookUp_later _)
  | _ => exact meets_lookUp_later _

end Server

namespace World

variable {start : Server}

theorem gives_later (start : Server) :
    (service true).Gives (fun world => start.Later world.bench.server) False .any := by
  intro request ha
  have hbench : (Bench.direct request).Meets
      (.standing fun bench : Bench => start.Later bench.server) False (fun _ _ => True) () :=
    Activity.Meets.focus (fun _ h => h) (fun _ _ _ h => h) (Server.gives_later start request ha)
  exact Activity.Meets.focus (fun _ h => h) (fun _ _ _ h => h) hbench

/-- The turns of the others open and end no sessions. -/
theorem allows_turn_later (millis : Nat) :
    (Discipline.standing fun world : World => start.Later world.bench.server).Allows
      (turn millis) :=
  fun _ _ h => ⟨(), trivial, h.trans (.of_eq rfl rfl)⟩

end World

end SealedDrive
