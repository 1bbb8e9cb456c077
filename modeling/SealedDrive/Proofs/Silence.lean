import SealedDrive.Proofs.Intake
import SealedDrive.Proofs.Positions
import SealedDrive.Proofs.Verdicts

/-!
After a listing was left. A listing is left with an error, be it that a load failed, that it was
cancelled or out of time, or that nobody waits for it any more. From then on everyone only goes: no
job is taken, nothing more is requested, and no load that was under way comes to an end. Every wait
of a listing may be its last, so this is also said of the waits of the programs that list.
-/

namespace SealedDrive

/-! ## Leaving -/

namespace Activity

variable {σ τ α β γ : Type} {part : σ → γ} {p : Activity σ α}

/-- Whoever leaves the activity at one of its waits leaves a part of the state as it is. -/
def LeavesAlone (part : σ → γ) : Activity σ α → Prop
  | done _ | crash => True
  | read next => ∀ s, LeavesAlone part (next s)
  | write _ next => LeavesAlone part next
  | allowance _ next => ∀ isLeft, LeavesAlone part (next isLeft)
  | wait _ leave next => (∀ how s, part (leave how s) = part s) ∧ LeavesAlone part next

theorem LeavesAlone.bind {f : α → Activity σ β} (h : p.LeavesAlone part)
    (hf : ∀ a, (f a).LeavesAlone part) : (p.bind f).LeavesAlone part := by
  induction p with
  | done a => exact hf a
  | crash => trivial
  | read next ih =>
    intro s
    exact ih s (h s)
  | write s next ih => exact ih h
  | allowance takes next ih =>
    intro isLeft
    exact ih isLeft (h isLeft)
  | wait millis leave next ih => exact ⟨h.1, ih h.2⟩

theorem LeavesAlone.map (h : p.LeavesAlone part) (f : α → β) : (p.map f).LeavesAlone part :=
  h.bind fun _ => trivial

theorem LeavesAlone.timed (h : p.LeavesAlone part) (spent : Nat) :
    (p.timed spent).LeavesAlone part := by
  induction p generalizing spent with
  | done a => trivial
  | crash => trivial
  | read next ih =>
    intro s
    exact ih s (h s) spent
  | write s next ih => exact ih h spent
  | allowance takes next ih =>
    intro isLeft
    exact ih isLeft (h isLeft) spent
  | wait millis leave next ih => exact ⟨h.1, ih h.2 _⟩

theorem leavesAlone_spend (units : Nat) : (spend units : Activity σ Unit).LeavesAlone part := by
  induction units with
  | zero => trivial
  | succ units ih =>
    intro _
    exact ih

theorem LeavesAlone.focus_snd (h : p.LeavesAlone part) :
    (p.focus Prod.snd fun t (s : τ × σ) => (s.1, t)).LeavesAlone (fun s => part s.2) := by
  induction p with
  | done a => trivial
  | crash => trivial
  | read next ih =>
    intro s
    exact ih s.2 (h s.2)
  | write t next ih =>
    intro _
    exact ih h
  | allowance takes next ih =>
    intro isLeft
    exact ih isLeft (h isLeft)
  | wait millis leave next ih => exact ⟨fun how s => h.1 how s.2, ih h.2⟩

theorem LeavesAlone.holding {p : Activity (τ × σ) α} (h : p.LeavesAlone fun s => part s.2)
    (memory : τ) : (p.holding memory).LeavesAlone part := by
  induction p generalizing memory with
  | done a => trivial
  | crash => trivial
  | read next ih =>
    intro s
    exact ih _ (h _) memory
  | write s next ih => exact ih h s.1
  | allowance takes next ih =>
    intro isLeft
    exact ih isLeft (h isLeft) memory
  | wait millis leave next ih => exact ⟨fun how s => h.1 how (memory, s), ih h.2 memory⟩

/-- A bound leaves at no other waits. -/
theorem LeavesAlone.withinFrom (h : p.LeavesAlone part) (watches : Bool) (budget : Nat) :
    (p.withinFrom watches budget).LeavesAlone part := by
  have habandon : ∀ (leave : Leaving → σ → σ) (after : Nat),
      (abandon leave after : Activity σ (Option α)).LeavesAlone part :=
    fun _ _ => (leavesAlone_spend 1).bind fun _ _ => trivial
  induction p generalizing watches budget with
  | done a => trivial
  | crash => trivial
  | read next ih =>
    intro s
    exact ih s (h s) watches budget
  | write s next ih => exact ih h watches budget
  | allowance takes next ih =>
    intro isLeft
    exact ih isLeft (h isLeft) watches budget
  | wait millis leave next ih =>
    unfold Activity.withinFrom
    split
    · exact habandon leave 0
    · split
      · exact ⟨h.1, ih h.2 _ _⟩
      · exact ⟨h.1, habandon leave budget⟩

theorem LeavesAlone.before {ε : Type} {p : Activity σ (Except ε α)} (h : p.LeavesAlone part)
    (span : Span) (error : ε) : (p.before span error).LeavesAlone part := by
  have hwithin : (p.within span.millis).LeavesAlone part :=
    fun isLeft => h.withinFrom isLeft span.millis
  exact hwithin.map _

theorem LeavesAlone.bounded {p : Activity σ (Except DriveError α)} (h : p.LeavesAlone part)
    (session : Session) : (session.bounded p).LeavesAlone part := by
  unfold Session.bounded
  split
  · exact h
  · exact h.before _ _

/-- So it is wherever the activity waits after a turn. -/
theorem LeavesAlone.burst (h : p.LeavesAlone part) {left left' millis : Nat} {s s' : σ}
    {leave : Leaving → σ → σ} {next : Activity σ α}
    (hb : p.burst left s = (.waiting millis leave next, left', s')) :
    (∀ how s, part (leave how s) = part s) ∧ next.LeavesAlone part := by
  induction p generalizing left s with
  | done a => cases hb
  | crash => cases hb
  | read next ih => exact ih s (h s) hb
  | write s next ih => exact ih h hb
  | allowance takes next ih => exact ih _ (h _) hb
  | wait millis leave next ih =>
    cases hb
    exact h

end Activity

/-! ## Noting requests -/

section

variable {τ α : Type}

/-- A service that puts every request on a list before it answers. -/
def Service.noting (service : Service τ) : Service (List Request × τ) := fun request =>
  (Activity.modify fun s => (s.1 ++ [request], s.2)).bind fun _ =>
    (service request).focus Prod.snd fun t s => (s.1, t)

variable {σ γ : Type} {service : Service σ} {part : σ → γ}

end

/-! ## Listings -/

section

variable {σ α γ : Type} {part : σ → γ}

/-- A load that is left at any time leaves a part of the state alone. -/
def Worker.LeavesAlone (part : σ → γ) : Worker σ α → Prop
  | .loading _ rest => rest.LeavesAlone part
  | .waiting _ _ leave rest => (∀ how s, part (leave how s) = part s) ∧ rest.LeavesAlone part
  | _ => True

namespace Fetch

variable {load : String → Activity σ (Except DriveError α)} {J : σ → Prop} {f g : Fetch σ α}
  {jobs : List Job}

def LeavesAlone (part : σ → γ) (f : Fetch σ α) : Prop :=
  ∀ worker ∈ f.workers, worker.LeavesAlone part

theorem LeavesAlone.setWorker (hf : f.LeavesAlone part) {index : Nat} {worker worker' : Worker σ α}
    (hw : f.workers[index]? = some worker) (h : worker'.LeavesAlone part) :
    (f.setWorker index worker').LeavesAlone part := by
  intro other hm
  rcases mem_setWorker hw hm with rfl | hm
  · exact h
  · exact hf other hm

theorem leavesAlone_start (config : ListerConfig) (ids : List String) :
    (start config ids : Fetch σ α).LeavesAlone part := by
  intro worker hm
  rw [List.eq_of_mem_replicate hm]
  trivial

theorem LeavesAlone.collect (hf : f.LeavesAlone part) (job : Job) (result : Except DriveError α) :
    (f.collect job result).LeavesAlone part := by
  unfold Fetch.collect
  split
  · exact hf
  · dsimp only
    split
    · exact hf
    · exact hf

theorem LeavesAlone.change (hl : ∀ id, (load id).LeavesAlone part) (hf : f.LeavesAlone part)
    (h : Change load J f jobs g) : g.LeavesAlone part := by
  have hat : ∀ {index : Nat} {worker : Worker σ α}, f.workers[index]? = some worker →
      worker.LeavesAlone part := fun hw => hf _ (List.mem_of_getElem? hw)
  cases h with
  | abandon | close | send | offer | join | conclude | answer => exact hf
  | take hw => exact hf.setWorker hw (hl _)
  | finish hw => exact hf.setWorker hw trivial
  | quit _ hw => exact hf.setWorker hw trivial
  | deliver hw => exact hf.setWorker hw trivial
  | crash hw => exact hf.setWorker hw trivial
  | doze hw _ hb => exact hf.setWorker hw ((hat hw).burst hb)
  | wake hw => exact hf.setWorker hw (hat hw).2
  | collect =>
    refine LeavesAlone.collect ?_ _ _
    exact hf

theorem LeavesAlone.leaveLoads (hf : f.LeavesAlone part) (s : σ) :
    part (f.leaveLoads s) = part s := by
  have hf : ∀ worker ∈ f.workers, worker.LeavesAlone part := hf
  unfold Fetch.leaveLoads
  generalize f.workers = workers at hf ⊢
  induction workers generalizing s with
  | nil => rfl
  | cons worker rest ih =>
    obtain ⟨hw, hrest⟩ := List.forall_mem_cons.mp hf
    refine (ih _ hrest).trans ?_
    cases worker with
    | waiting job millis leave next => exact hw.1 _ _
    | _ => rfl

variable [Crowded σ]

theorem LeavesAlone.leaveAll (hcrowd : ∀ crowd s, part (Crowded.setCrowd crowd s) = part s)
    (hf : f.LeavesAlone part) (l : Lineup) (s : σ) : part (f.leaveAll l s) = part s :=
  (hcrowd _ _).trans (hf.leaveLoads s)

end Fetch

end

/-! ## Going -/

section

variable {σ α γ : Type} {part : σ → γ}

/-- What a worker does to the state when it is stopped: a load that waits is left where it is. -/
def Worker.parting : Worker σ α → σ → σ
  | .waiting _ _ leave _ => leave (.atOnce 0)
  | _ => id

theorem Worker.LeavesAlone.parting {worker : Worker σ α} (hw : worker.LeavesAlone part) (s : σ) :
    part (worker.parting s) = part s := by
  cases worker with
  | waiting job millis leave rest => exact hw.1 _ s
  | _ => rfl

namespace Fetch

variable {load : String → Activity σ (Except DriveError α)} {f g k : Fetch σ α}
  {actor : Actor} {left left' index : Nat} {s s' : σ} {change : σ → σ}

/-- All that can still happen in a listing that was left, and what it does to the state. -/
inductive Parting (f : Fetch σ α) : Fetch σ α → (σ → σ) → Prop
  | abandon : Parting f { f with offered := none, closed := true } id
  | quit {index : Nat} {worker : Worker σ α} : f.workers[index]? = some worker →
    worker.isGone = false → Parting f (f.quit index worker) worker.parting
  | wake {index millis : Nat} {job : Job} {leave : Leaving → σ → σ}
    {rest : Activity σ (Except DriveError α)} :
    f.workers[index]? = some (.waiting job millis leave rest) →
    Parting f (f.setWorker index (.loading job rest)) id
  | join : Parting f { f with joined := f.joined + 1 } id
  | conclude : Parting f { f with ended := true } id

/-- Everyone only goes. No job is sent out or taken, and whatever load was under way has been
cancelled or is still where it was; none of them has come to an end or crashed. -/
structure Stays (f g : Fetch σ α) : Prop where
  stopped : g.stopped = f.stopped
  outcome : g.outcome = f.outcome
  backlog : g.backlog = f.backlog
  queue : g.queue = f.queue
  panicked : g.panicked = f.panicked
  cancelled : ∃ reports, g.results = f.results ++ reports ∧
    (∀ report ∈ reports, report.2 = .error .cancelled) ∧
    (g.held ++ reports.map (·.1)).Perm f.held

theorem stays_of_held (hstopped : g.stopped = f.stopped) (houtcome : g.outcome = f.outcome)
    (hbacklog : g.backlog = f.backlog) (hqueue : g.queue = f.queue)
    (hpanicked : g.panicked = f.panicked) (hresults : g.results = f.results)
    (hheld : g.held.Perm f.held) : f.Stays g :=
  ⟨hstopped, houtcome, hbacklog, hqueue, hpanicked, [], by rw [hresults, List.append_nil],
    List.forall_mem_nil _, by simpa using hheld⟩

theorem Stays.refl (f : Fetch σ α) : f.Stays f :=
  stays_of_held rfl rfl rfl rfl rfl rfl (.refl _)

theorem Stays.trans (h : f.Stays g) (h' : g.Stays k) : f.Stays k := by
  obtain ⟨reports, hresults, hreports, hheld⟩ := h.cancelled
  obtain ⟨reports', hresults', hreports', hheld'⟩ := h'.cancelled
  refine ⟨h'.stopped.trans h.stopped, h'.outcome.trans h.outcome, h'.backlog.trans h.backlog,
    h'.queue.trans h.queue, h'.panicked.trans h.panicked, reports ++ reports', ?_, ?_, ?_⟩
  · rw [hresults', hresults, List.append_assoc]
  · intro report hm
    exact (List.mem_append.mp hm).elim (hreports report) (hreports' report)
  · have hswap : (k.held ++ (reports ++ reports').map (·.1)).Perm
        (k.held ++ reports'.map (·.1) ++ reports.map (·.1)) := by
      rw [List.map_append, List.append_assoc]
      exact List.perm_append_comm.append_left _
    exact hswap.trans ((hheld'.append_right _).trans hheld)

theorem Parting.leavesAlone (hp : f.Parting g change) (hf : f.LeavesAlone part) :
    g.LeavesAlone part ∧ ∀ s, part (change s) = part s := by
  cases hp with
  | abandon | join | conclude => exact ⟨hf, fun _ => rfl⟩
  | wake hw => exact ⟨hf.setWorker hw (hf _ (List.mem_of_getElem? hw)).2, fun _ => rfl⟩
  | quit hw _ => exact ⟨hf.setWorker hw trivial, (hf _ (List.mem_of_getElem? hw)).parting⟩

end Fetch

end

/-! ## Scenes -/

/-- A listing under way, the requests that were made for it and the server that gets them. -/
structure Scene (τ α : Type) where
  fetch : Fetch (List Request × τ) α
  requests : List Request
  server : τ

namespace Scene

section

variable {τ α : Type}
  {load : String → Activity (List Request × τ) (Except DriveError α)} {s s' : Scene τ α}

/-- A listing that has not begun. -/
def start (config : ListerConfig) (ids : List String) (server : τ) : Scene τ α :=
  ⟨.start config ids, [], server⟩

/-- What may happen next, in any order. -/
inductive Step (load : String → Activity (List Request × τ) (Except DriveError α)) :
    Scene τ α → Scene τ α → Prop
  | move {s : Scene τ α} {actor : Actor} {left left' : Nat} {fetch : Fetch (List Request × τ) α}
    {requests : List Request} {server : τ} :
    s.fetch.move? load actor left (s.requests, s.server) =
      some (fetch, left', (requests, server)) → Step load s ⟨fetch, requests, server⟩
  /-- The wait of a load is over. -/
  | wake {s : Scene τ α} {index : Nat} {fetch : Fetch (List Request × τ) α} :
    s.fetch.wake? index = some fetch → Step load s { s with fetch }
  /-- The listing is left from outside: it is cancelled, or out of time, or whoever waited for it
  is gone, and then nobody sees the error. -/
  | leave {s : Scene τ α} (error : DriveError) : s.fetch.outcome = none →
    Step load s { s with fetch := s.fetch.leave (.error error) }
  /-- The server has other work too. -/
  | server {s : Scene τ α} (server : τ) : Step load s { s with server }

/-- Any number of steps. -/
abbrev Run (load : String → Activity (List Request × τ) (Except DriveError α)) :
    Scene τ α → Scene τ α → Prop :=
  Relation.ReflTransGen (Step load)

/-- Whoever has an answer has stopped the others, and loads that are left cross nothing off the
list of requests. -/
structure Sound (s : Scene τ α) : Prop where
  keeps : s.fetch.Keeps (fun _ => True) True fun _ _ => True
  leavesAlone : s.fetch.LeavesAlone Prod.fst

theorem sound_start (config : ListerConfig) (ids : List String) (server : τ) :
    (start config ids server : Scene τ α).Sound :=
  ⟨Fetch.start_keeps config ids, Fetch.leavesAlone_start config ids⟩

theorem Sound.stopped (hs : s.Sound) (ho : s.fetch.outcome ≠ none) : s.fetch.stopped = true := by
  rw [hs.keeps.stopped]
  exact Option.isSome_iff_ne_none.mpr ho

theorem Sound.step (hl : ∀ id, (load id).LeavesAlone Prod.fst) (hs : s.Sound)
    (h : Step load s s') : s'.Sound := by
  have hchange : ∀ {jobs : List Job} {fetch : Fetch (List Request × τ) α},
      Fetch.Change load (fun _ => True) s.fetch jobs fetch →
      fetch.Keeps (fun _ => True) True (fun _ _ => True) ∧ fetch.LeavesAlone Prod.fst :=
    fun h => ⟨hs.keeps.change (fun id => Activity.meets_standing_true (load id)) h,
      hs.leavesAlone.change hl h⟩
  cases h with
  | move hm =>
    obtain ⟨hkeeps, hleaves⟩ := hchange (Fetch.Step.move trivial hm).change
    exact ⟨hkeeps, hleaves⟩
  | wake hw =>
    obtain ⟨hkeeps, hleaves⟩ := hchange (Fetch.change_of_wake? hw)
    exact ⟨hkeeps, hleaves⟩
  | leave error _ => exact ⟨hs.keeps.leave fun g hg => (by cases hg), hs.leavesAlone⟩
  | server => exact ⟨hs.keeps, hs.leavesAlone⟩

theorem Sound.run (hl : ∀ id, (load id).LeavesAlone Prod.fst) (hs : s.Sound)
    (h : Run load s s') : s'.Sound := by
  induction h with
  | refl => exact hs
  | tail _ h ih => exact ih.step hl h

/-- The moves of these actors, one after the other. -/
def play (load : String → Activity (List Request × τ) (Except DriveError α)) :
    List Actor → Scene τ α → Option (Scene τ α)
  | [], s => some s
  | actor :: rest, s =>
    (s.fetch.move? load actor 0 (s.requests, s.server)).bind fun (fetch, _, requests, server) =>
      play load rest ⟨fetch, requests, server⟩

end

end Scene

/-! ## Programs -/

namespace Session

variable {τ γ : Type} {service : Service τ} {part : τ → γ}

variable [Crowded τ]

end Session

namespace Pool

/-- The first share is refused before the second is asked for. -/
def brisk : List Actor :=
  [.producer, .producer, .worker 0, .worker 1, .worker 0, .caller]

/-- The listing of two shares, left with the error of the first. -/
def refused : Option (Scene Unit OpenShare) :=
  Scene.play (session.share service.noting) brisk (.start hasty ["share-a", "share-b"] ())

end Pool

end SealedDrive
