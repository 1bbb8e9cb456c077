import SealedDrive.Proofs.Moves

/-!
Nothing gets into a listing but what its loads answered. Every move of the producer, the workers,
the supervisor and the caller keeps that, so it holds of each order of the moves, and of what a
listing answers however it is bounded, cancelled or left.
-/

namespace SealedDrive

variable {σ α : Type} {load : String → Activity σ (Except DriveError α)} {J : σ → Prop}
  {crashes : Prop} {P : String → Except DriveError α → Prop}

/-- What a load of an id may answer while `J` stands on the state, and whether it may crash. -/
def Loads (J : σ → Prop) (crashes : Prop) (P : String → Except DriveError α → Prop) (id : String)
    (load : Activity σ (Except DriveError α)) : Prop :=
  load.Meets (.standing J) crashes (fun result _ => P id result) ()

/-- A worker in a load will deliver what a load of its job may answer. -/
def Worker.Keeps (J : σ → Prop) (crashes : Prop) (P : String → Except DriveError α → Prop) :
    Worker σ α → Prop
  | .loading job rest => Loads J crashes P job.id rest
  | .waiting job _ leave rest =>
    (∀ how, (Discipline.standing J).Allows (leave how)) ∧ Loads J crashes P job.id rest
  | .panicked => crashes
  | _ => True

/-- Every value was answered by some load. -/
def Gathered.Keeps (P : String → Except DriveError α → Prop) (g : Gathered α) : Prop :=
  ∀ entry ∈ g.loaded, ∃ id, P id (.ok entry.2)

namespace Fetch

/-- Whatever was delivered, collected or answered came out of a load, but for what workers report
that are stopped, once the caller is gone. -/
structure Keeps (J : σ → Prop) (crashes : Prop) (P : String → Except DriveError α → Prop)
    (f : Fetch σ α) : Prop where
  workers : ∀ worker ∈ f.workers, worker.Keeps J crashes P
  stopped : f.stopped = f.outcome.isSome
  results : f.stopped = false → ∀ entry ∈ f.results, P entry.1.id entry.2
  gathered : f.gathered.Keeps P
  outcome : ∀ g, f.outcome = some (.ok g) → g.Keeps P

variable {f g : Fetch σ α} {jobs : List Job}

theorem start_keeps (config : ListerConfig) (ids : List String) :
    (start config ids : Fetch σ α).Keeps J crashes P where
  workers worker hw := by rw [List.eq_of_mem_replicate hw]; trivial
  stopped := rfl
  results _ _ hr := by cases hr
  gathered _ hl := by cases hl
  outcome _ ho := by cases ho

/-! ## Moves -/

theorem Keeps.setWorker (hf : f.Keeps J crashes P) (index : Nat) {worker : Worker σ α}
    (hw : worker.Keeps J crashes P) : (f.setWorker index worker).Keeps J crashes P :=
  { hf with
    workers := fun w hm => by
      rcases List.mem_or_eq_of_mem_set hm with hm | rfl
      · exact hf.workers w hm
      · exact hw }

theorem Keeps.leave (hf : f.Keeps J crashes P) {outcome : Except DriveError (Gathered α)}
    (ho : ∀ g, outcome = .ok g → g.Keeps P) : (f.leave outcome).Keeps J crashes P :=
  { hf with
    stopped := rfl
    results := fun hn => by cases hn
    outcome := fun g hg => ho g (Option.some.inj hg) }

theorem Keeps.finish (hf : f.Keeps J crashes P) {g : Gathered α} (h : f.finish = .ok g) :
    g.Keeps P := by
  unfold Fetch.finish at h
  split at h
  · cases h; exact hf.gathered
  · split at h
    · cases h
    · cases h; exact hf.gathered

theorem Keeps.collect (hf : f.Keeps J crashes P) {job : Job} {result : Except DriveError α}
    (hr : P job.id result) : (f.collect job result).Keeps J crashes P := by
  have hk : Keeps J crashes P { f with seen := f.seen ++ [job.position] } := { hf with }
  unfold Fetch.collect
  cases result with
  | ok value =>
    refine { hk with gathered := fun entry hm => ?_ }
    rcases List.mem_append.mp hm with hm | hm
    · exact hf.gathered entry hm
    · rw [List.mem_singleton.mp hm]
      exact ⟨job.id, hr⟩
  | error error =>
    dsimp only
    split
    · refine hk.leave fun g hg => ?_
      cases hg
    · exact { hk with }

/-- What a load that goes on leaves behind. -/
theorem Keeps.burst (hf : f.Keeps J crashes P) {index : Nat} {job : Job}
    {rest : Activity σ (Except DriveError α)} (hw : f.workers[index]? = some (.loading job rest))
    (left : Nat) {s : σ} (hs : J s) :
    J (rest.burst left s).2.2 ∧ (rest.burst left s).1.Meets (.standing J) crashes
      (fun result _ => P job.id result) () := by
  have hl : Loads J crashes P job.id rest := hf.workers _ (List.mem_of_getElem? hw)
  obtain ⟨_, -, hs, hb⟩ := Activity.Meets.burst hl left (s := s) hs
  exact ⟨hs, hb⟩

/-- No step of anyone brings in anything else, as long as the jobs in the queue do not. -/
theorem Keeps.change_of_queue (hl : ∀ job ∈ f.queue, Loads J crashes P job.id (load job.id))
    (hf : f.Keeps J crashes P) (h : Change load J f jobs g) : g.Keeps J crashes P := by
  cases h with
  | abandon | close | send | offer | join | conclude => exact { hf with }
  | @take index job rest _ _ hq =>
    have hk : (Worker.loading job (load job.id)).Keeps J crashes P :=
      hl job (hq ▸ List.mem_cons_self)
    have ht : Keeps J crashes P { f with queue := rest ++ f.offered.toList, offered := none } :=
      { hf with }
    exact ht.setWorker index hk
  | finish => exact hf.setWorker _ trivial
  | @quit index _ hstopped =>
    have hq : (f.setWorker index .finished).Keeps J crashes P := hf.setWorker index trivial
    exact { hq with results := fun hn => by cases hstopped.symm.trans hn }
  | @deliver index left _ job rest result s _ hw hs hb =>
    have hd := (hf.burst hw left hs).2
    rw [hb] at hd
    have hi : (f.setWorker index .idle).Keeps J crashes P := hf.setWorker index trivial
    refine { hi with results := fun hn entry hm => ?_ }
    rcases List.mem_append.mp hm with hm | hm
    · exact hi.results hn entry hm
    · rw [List.mem_singleton.mp hm]
      exact hd
  | @crash index left _ job rest s _ hw hs hb =>
    have hc := (hf.burst hw left hs).2
    rw [hb] at hc
    exact hf.setWorker index hc
  | @doze index left _ millis job rest next leave s _ hw hs hb =>
    have hd := (hf.burst hw left hs).2
    rw [hb] at hd
    have hk : (Worker.waiting job millis leave next).Keeps J crashes P :=
      ⟨hd.1, hd.2 () trivial⟩
    exact hf.setWorker index hk
  | @wake index millis job rest leave hw =>
    have hk : (Worker.waiting job millis leave rest).Keeps J crashes P :=
      hf.workers _ (List.mem_of_getElem? hw)
    exact hf.setWorker index hk.2
  | @collect job result rest ho hr =>
    have hstopped : f.stopped = false := by rw [hf.stopped, ho]; rfl
    have hresults := hf.results hstopped
    rw [hr, List.forall_mem_cons] at hresults
    have hk : Keeps J crashes P { f with results := rest } :=
      { hf with results := fun _ => hresults.2 }
    exact hk.collect hresults.1
  | answer => exact hf.leave fun g hg => hf.finish hg

theorem Keeps.change (hl : ∀ id, Loads J crashes P id (load id)) (hf : f.Keeps J crashes P)
    (h : Change load J f jobs g) : g.Keeps J crashes P :=
  hf.change_of_queue (fun job _ => hl job.id) h

theorem Keeps.leaveLoads (hf : f.Keeps J crashes P) {s : σ} (hs : J s) : J (f.leaveLoads s) := by
  have hw := hf.workers
  unfold Fetch.leaveLoads
  generalize f.workers = workers at hw
  induction workers generalizing s with
  | nil => exact hs
  | cons worker rest ih =>
    refine ih ?_ fun w hm => hw w (List.mem_cons_of_mem _ hm)
    have hworker := hw worker List.mem_cons_self
    cases worker with
    | waiting job millis leave rest =>
      obtain ⟨_, -, hleft⟩ := hworker.1 .nextTurn () s hs
      exact hleft
    | _ => exact hs

/-- A move leaves the state right. -/
theorem Keeps.state (hf : f.Keeps J crashes P) {actor : Actor} {left left' : Nat} {s s' : σ}
    (hs : J s) (h : f.move? load actor left s = some (g, left', s')) : J s' := by
  cases actor with
  | worker index =>
    replace h : f.work? load index left s = some (g, left', s') := h
    unfold Fetch.work? at h
    split at h
    · cases h
    · cases h
    · cases h
    · split at h
      · cases h; exact hs
      split at h
      · cases h; exact hs
      · split at h
        · cases h; exact hs
        · cases h
    · next hw =>
      split at h
      · cases h; exact hs
      · have hb := (hf.burst hw left hs).1
        unfold Fetch.advance at h
        split at h <;> next he => (rw [he] at hb; cases h; exact hb)
    · next hw =>
      split at h
      · cases h
        obtain ⟨_, -, hleft⟩ := (hf.workers _ (List.mem_of_getElem? hw)).1 (.atOnce 0) () s hs
        exact hleft
      · cases h
  | _ =>
    obtain ⟨g, -, he⟩ := Option.map_eq_some_iff.mp h
    cases he
    exact hs

/-- So it is kept by every move. -/
theorem kept_keeps (hl : ∀ id, Loads J crashes P id (load id)) :
    Kept load J (Keeps J crashes P) where
  move hf hs h := ⟨hf.change hl (Step.move hs h).change, hf.state hs h⟩
  wake hf h := hf.change hl (Step.wake h : Step load J _ _ _).change
  leaveLoads hf hs := hf.leaveLoads hs

/-- What every step keeps is kept beside it by every move. -/
theorem kept_and (hl : ∀ id, Loads J crashes P id (load id)) {I : Fetch σ α → Prop}
    (hI : ∀ f jobs g, I f → Step load J f jobs g → I g) :
    Kept load J fun f => f.Keeps J crashes P ∧ I f where
  move hf hs h := by
    obtain ⟨hg, hs'⟩ := (kept_keeps hl).move hf.1 hs h
    exact ⟨⟨hg, hI _ _ _ hf.2 (.move hs h)⟩, hs'⟩
  wake hf h := ⟨(kept_keeps hl).wake hf.1 h, hI _ _ _ hf.2 (.wake h)⟩
  leaveLoads hf hs := hf.1.leaveLoads hs

/-! ## What a listing answers -/

/-- The answer of a listing holds nothing but what loads answered. -/
def Answers (P : String → Except DriveError α → Prop) (answer : Except DriveError (Gathered α)) :
    Prop :=
  ∀ g, answer = .ok g → g.Keeps P

theorem answers_error (error : DriveError) : Answers P (.error error) := fun _ h => by cases h

/-- A listing that answers so whatever happens meanwhile. -/
abbrev Lists (P : String → Except DriveError α → Prop)
    (listing : Activity σ (Except DriveError (Gathered α))) : Prop :=
  listing.Meets (.standing fun _ => True) True (fun answer _ => Answers P answer) ()

theorem allows_any (change : σ → σ) : (Discipline.standing fun _ : σ => True).Allows change :=
  fun _ _ _ => ⟨(), trivial, trivial⟩

variable [Crowded σ]

/-- Whatever is kept beside it, a listing answers what it has gathered. -/
theorem Kept.lists_run {I : Fetch σ α → Prop} (hk : Kept load (fun _ => True) I)
    (hkeeps : ∀ f, I f → f.Keeps (fun _ => True) True P)
    (hleave : ∀ f, I f → I (f.leave (.error .cancelled))) {config : ListerConfig}
    {ids : List String} (hstart : I (start config ids)) (cancelAfter : Option Nat) :
    Lists P (Fetch.run load config cancelAfter ids) := by
  have hpost : ∀ (f : Fetch σ α) (answer : Except DriveError (Gathered α)),
      I f → f.outcome = some answer → Answers P answer :=
    fun f answer hf ho g hg => (hkeeps f hf).outcome g (hg ▸ ho)
  refine hk.meets_run (fun _ _ _ => trivial) hstart hpost (fun _ g hg => ?_)
    (fun _ => ⟨hleave, answers_error _⟩) fun _ _ => answers_error _
  cases hg
  intro _ hm
  cases hm

theorem lists_run (hl : ∀ id, Loads (fun _ => True) True P id (load id)) (config : ListerConfig)
    (cancelAfter : Option Nat) (ids : List String) :
    Lists P (Fetch.run load config cancelAfter ids) :=
  (kept_keeps hl).lists_run (fun _ hf => hf) (fun _ hf => hf.leave fun g hg => (by cases hg))
    (start_keeps config ids) cancelAfter

theorem meets_whileCancelling {β : Type} {post : β → Prop} {cancelAfter : Option Nat}
    {p : Option Nat → Activity σ β}
    (h : ∀ cancelAfter, (p cancelAfter).Meets (.standing fun _ => True) True
      (fun b _ => post b) ()) :
    (whileCancelling cancelAfter p).Meets (.standing fun _ => True) True (fun b _ => post b)
      () := by
  unfold whileCancelling
  split
  · exact h _
  · exact h _
  · exact .bind fun _ _ => ⟨(), trivial, trivial, h _⟩

end Fetch

/-- Putting a listing in order adds nothing. -/
theorem Gathered.Keeps.inRequestOrder {g : Gathered α} (hg : g.Keeps P) {a : α}
    (h : a ∈ g.inRequestOrder) : ∃ id, P id (.ok a) := by
  obtain ⟨entry, hm, rfl⟩ := List.mem_map.mp h
  exact hg entry (List.mem_mergeSort.mp hm)

end SealedDrive
