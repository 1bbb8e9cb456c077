import Mathlib.Data.List.Perm.Basic
import SealedDrive.Proofs.Listing

/-!
Where the jobs of a listing are. Every job is handed out at most once, in the order of the requests;
from then on it is in a load, delivered, collected, or lost with the worker that crashed at it. So
when the results are closed, each position is accounted for by one value or by one failure, and the
positions that were lost are as many as the workers that crashed, unless all of them did.
-/

namespace SealedDrive

variable {σ α : Type}

/-- The job of a worker in a load. -/
def Worker.job? : Worker σ α → Option Job
  | .loading job _ | .waiting job _ _ _ => some job
  | _ => none

namespace Gathered

/-- What comes of results that are collected in this order. -/
def ofResults (workers : Nat) (results : List (Job × Except DriveError α)) : Gathered α where
  loaded := results.filterMap fun
    | (job, .ok value) => some (job.position, value)
    | (_, .error _) => none
  failures := results.filterMap fun
    | (job, .error error) => some (job.id, error)
    | (_, .ok _) => none
  workers := workers

/-- Take in one more result. -/
def add (g : Gathered α) (job : Job) : Except DriveError α → Gathered α
  | .ok value => { g with loaded := g.loaded ++ [(job.position, value)] }
  | .error error => { g with failures := g.failures ++ [(job.id, error)] }

theorem ofResults_concat (workers : Nat) (results : List (Job × Except DriveError α)) (job : Job)
    (result : Except DriveError α) :
    ofResults workers (results ++ [(job, result)]) =
      (ofResults workers results).add job result := by
  cases result <;> simp [ofResults, add]

end Gathered

namespace Fetch

variable {load : String → Activity σ (Except DriveError α)} {J : σ → Prop}
  {P : String → Except DriveError α → Prop} {f g : Fetch σ α} {ids : List String}
  {log jobs lost : List Job} {collected : List (Job × Except DriveError α)}

/-! ## Jobs -/

/-- One job for each id, in the order of the requests. -/
def jobsOf (ids : List String) : List Job :=
  ids.zipIdx.map fun (id, position) => ⟨position, id⟩

theorem positions_jobsOf (ids : List String) :
    (jobsOf ids).map (·.position) = List.range ids.length := by
  rw [jobsOf, List.map_map, List.range_eq_range', ← List.zipIdx_map_snd 0 ids]
  rfl

theorem ids_jobsOf (ids : List String) : (jobsOf ids).map (·.id) = ids := by
  rw [jobsOf, List.map_map]
  exact List.zipIdx_map_fst 0 ids

theorem id_of_mem_jobsOf {job : Job} (h : job ∈ jobsOf ids) : ids[job.position]? = some job.id := by
  obtain ⟨entry, hm, rfl⟩ := List.mem_map.mp h
  exact List.mem_zipIdx_iff_getElem?.mp hm

theorem nodup_positions (h : log.Sublist (jobsOf ids)) : (log.map (·.position)).Nodup := by
  refine List.Nodup.sublist (h.map _) ?_
  rw [positions_jobsOf]
  exact List.nodup_range

/-- The jobs that were not handed out yet, in the order in which they will be. -/
def pending (f : Fetch σ α) : List Job := f.queue ++ f.offered.toList ++ f.backlog

/-- The jobs that workers are at. -/
def held (f : Fetch σ α) : List Job := f.workers.filterMap (·.job?)

/-- A worker changes and the others do not. -/
theorem setWorker_perm {index : Nat} {worker : Worker σ α} (h : f.workers[index]? = some worker) :
    ∃ others, f.workers.Perm (worker :: others) ∧
      ∀ worker', (f.setWorker index worker').workers.Perm (worker' :: others) := by
  obtain ⟨hlt, rfl⟩ := List.getElem?_eq_some_iff.mp h
  exact ⟨f.workers.eraseIdx index, (List.getElem_cons_eraseIdx_perm hlt).symm,
    fun worker' => List.set_perm_cons_eraseIdx hlt worker'⟩

theorem mem_setWorker {index : Nat} {worker worker' w : Worker σ α}
    (h : f.workers[index]? = some worker) (hm : w ∈ (f.setWorker index worker').workers) :
    w = worker' ∨ w ∈ f.workers := by
  obtain ⟨others, hf, hg⟩ := setWorker_perm h
  rcases List.mem_cons.mp ((hg worker').mem_iff.mp hm) with rfl | hm
  · exact .inl rfl
  · exact .inr (hf.mem_iff.mpr (List.mem_cons_of_mem _ hm))

theorem collect_of_bestEffort (h : f.policy = .bestEffort)
    (rest : List (Job × Except DriveError α)) (job : Job) (result : Except DriveError α) :
    Fetch.collect { f with results := rest } job result =
      { f with
        results := rest
        seen := f.seen ++ [job.position]
        gathered := f.gathered.add job result } := by
  unfold Fetch.collect
  cases result with
  | ok value => rfl
  | error error => simp only [h]; rfl

/-! ## Handing out -/

/-- Jobs are handed out in order, and none is dropped as long as somebody could take it. -/
structure Queued (ids : List String) (log : List Job) (f : Fetch σ α) : Prop where
  order : (log ++ f.pending).Sublist (jobsOf ids)
  whole : (∃ worker ∈ f.workers, worker.isPanicked = false) → log ++ f.pending = jobsOf ids
  closed : f.closed = true → (∃ worker ∈ f.workers, worker.isGone = false) →
    f.offered = none ∧ f.backlog = []
  finished : .finished ∈ f.workers → f.closed = true ∧ f.pending = []
  offered : f.offered.isSome = true → f.queue ≠ []

theorem start_queued (config : ListerConfig) (ids : List String) :
    (start config ids : Fetch σ α).Queued ids [] where
  order := List.Sublist.refl _
  whole _ := rfl
  closed h := by cases h
  finished h := by cases List.eq_of_mem_replicate h
  offered h := by cases h

/-- A worker that is at work and goes on, or crashes, leaves the queue alone. -/
theorem Queued.setWorker (hf : f.Queued ids log) {index : Nat} {worker worker' : Worker σ α}
    (hw : f.workers[index]? = some worker) (hgone : worker.isGone = false)
    (hfinished : .finished ≠ worker') : (Fetch.setWorker f index worker').Queued ids log where
  order := hf.order
  whole _ := hf.whole ⟨worker, List.mem_of_getElem? hw, by cases worker <;> cases hgone <;> rfl⟩
  closed hc _ := hf.closed hc ⟨worker, List.mem_of_getElem? hw, hgone⟩
  finished hm := hf.finished ((mem_setWorker hw hm).resolve_left hfinished)
  offered := hf.offered

theorem Queued.abandon (hf : f.Queued ids log) (hgone : f.workers.all (·.isGone) = true) :
    Queued ids log { f with offered := none, closed := true } where
  order := by
    refine List.Sublist.trans (List.Sublist.append_left ?_ log) hf.order
    simp [pending]
  whole := by
    rintro ⟨worker, hm, hp⟩
    have hfinished : .finished ∈ f.workers := by
      have hworker := List.all_eq_true.mp hgone worker hm
      cases worker with
      | finished => exact hm
      | panicked => cases hp
      | _ => cases hworker
    have hpending := (hf.finished hfinished).2
    rw [← hf.whole ⟨worker, hm, hp⟩, hpending]
    simp only [pending, List.append_eq_nil_iff] at hpending ⊢
    simp [hpending]
  closed := by
    rintro - ⟨worker, hm, hw⟩
    rw [List.all_eq_true.mp hgone worker hm] at hw
    cases hw
  finished hm := by
    have hpending := (hf.finished hm).2
    simp only [pending, List.append_eq_nil_iff] at hpending ⊢
    simp [hpending]
  offered h := by cases h

/-- The producer passes a job on. -/
theorem Queued.pass (hf : f.Queued ids log) (hc : f.closed = false) (hgc : g.closed = false)
    (hw : g.workers = f.workers) (hp : g.pending = f.pending)
    (ho : g.offered.isSome = true → g.queue ≠ []) : g.Queued ids log where
  order := hp ▸ hf.order
  whole h := hp ▸ hf.whole (hw ▸ h)
  closed h := by rw [hgc] at h; cases h
  finished hm := by
    have hclosed := (hf.finished (hw ▸ hm)).1
    rw [hc] at hclosed
    cases hclosed
  offered := ho

/-- A job is handed out. -/
theorem Queued.take (hf : f.Queued ids log) {index : Nat} {job : Job} {rest : List Job}
    {load : Activity σ (Except DriveError α)} (hw : f.workers[index]? = some .idle)
    (hq : f.queue = job :: rest) :
    Queued ids (log ++ [job])
      (Fetch.setWorker { f with queue := rest ++ f.offered.toList, offered := none } index
        (.loading job load)) := by
  have hpending : log ++ f.pending = log ++ [job] ++ ((rest ++ f.offered.toList) ++ f.backlog) := by
    simp [pending, hq]
  have hidle : Worker.isGone (.idle : Worker σ α) = false := rfl
  refine ⟨?_, fun _ => ?_, fun hc _ => ⟨rfl, (hf.closed hc ⟨_, List.mem_of_getElem? hw, hidle⟩).2⟩,
    fun hm => ?_, fun h => by cases h⟩
  · have ho := hf.order
    rw [hpending] at ho
    simpa [pending, Fetch.setWorker] using ho
  · rw [← hf.whole ⟨_, List.mem_of_getElem? hw, rfl⟩, hpending]
    simp [pending, Fetch.setWorker]
  · have hnone := (hf.finished ((mem_setWorker hw hm).resolve_left (by simp))).2
    rw [pending, hq] at hnone
    cases hnone

/-- A worker goes, because nothing is left to take. -/
theorem Queued.finish (hf : f.Queued ids log) {index : Nat} (hw : f.workers[index]? = some .idle)
    (hq : f.queue = []) (hc : f.closed = true) :
    (Fetch.setWorker f index .finished).Queued ids log := by
  have hidle : (.idle : Worker σ α) ∈ f.workers := List.mem_of_getElem? hw
  have hnone := hf.closed hc ⟨_, hidle, rfl⟩
  have hpending : f.pending = [] := by simp [pending, hq, hnone]
  exact ⟨hf.order, fun _ => hf.whole ⟨_, hidle, rfl⟩, fun _ _ => hnone, fun _ => ⟨hc, hpending⟩,
    hf.offered⟩

theorem Queued.change (hf : f.Queued ids log) (hs : f.stopped = false)
    (hp : f.policy = .bestEffort) (h : Change load J f jobs g) : g.Queued ids (log ++ jobs) := by
  cases h
  case take hw _ hq => exact hf.take hw hq
  all_goals rw [List.append_nil]
  case abandon hc hgone =>
    rw [hs] at hgone
    exact hf.abandon (hgone.resolve_left Bool.false_ne_true)
  case close hc ho hb => exact { hf with closed := fun _ _ => ⟨ho, hb⟩
                                         finished := fun hm => ⟨rfl, (hf.finished hm).2⟩ }
  case send hc ho hb => exact hf.pass hc hc rfl (by simp [pending, ho, hb]) (by simp [ho])
  case offer hc ho hb hq => exact hf.pass hc hc rfl (by simp [pending, ho, hb]) fun _ => hq
  case finish hw hq hc => exact hf.finish hw hq hc
  case quit hstopped _ _ =>
    rw [hs] at hstopped
    cases hstopped
  case deliver hw _ _ =>
    have hi : (Fetch.setWorker f _ .idle).Queued ids log := hf.setWorker hw rfl (by simp)
    exact { hi with }
  case crash hw _ _ => exact hf.setWorker hw rfl (by simp)
  case doze hw _ _ => exact hf.setWorker hw rfl (by simp)
  case wake hw => exact hf.setWorker hw rfl (by simp)
  case join => exact { hf with }
  case conclude => exact { hf with }
  case collect => rw [collect_of_bestEffort hp]; exact { hf with }
  case answer => exact { hf with }

/-! ## Where a job is -/

/-- Every job that was handed out is in a load, delivered, collected or lost with its worker. -/
structure Tallied (P : String → Except DriveError α → Prop) (log : List Job)
    (collected : List (Job × Except DriveError α)) (lost : List Job) (f : Fetch σ α) : Prop where
  handed : log.Perm (f.held ++ (f.results.map (·.1) ++ (collected.map (·.1) ++ lost)))
  panicked : lost.length = f.panicked
  seen : f.seen = collected.map (·.1.position)
  gathered : f.gathered = .ofResults f.workers.length collected
  collected : ∀ entry ∈ collected, P entry.1.id entry.2

theorem start_tallied (config : ListerConfig) (ids : List String) :
    (start config ids : Fetch σ α).Tallied P [] [] [] where
  handed := by simp [start, held, Worker.job?]
  panicked := by simp [start, panicked, List.countP_replicate, Worker.isPanicked]
  seen := rfl
  gathered := by simp [start, Gathered.ofResults]
  collected _ h := by cases h

/-- The jobs of the workers but one do not depend on what it does. -/
theorem held_setWorker {index : Nat} {worker : Worker σ α} (h : f.workers[index]? = some worker) :
    ∃ others : List Job, f.held.Perm (worker.job?.toList ++ others) ∧
      ∀ worker', (f.setWorker index worker').held.Perm (worker'.job?.toList ++ others) := by
  obtain ⟨others, hf, hg⟩ := setWorker_perm h
  have hcons : ∀ w : Worker σ α,
      (w :: others).filterMap (·.job?) = w.job?.toList ++ others.filterMap (·.job?) := by
    intro w
    cases hw : w.job? <;> simp [hw]
  exact ⟨others.filterMap (·.job?), hcons _ ▸ hf.filterMap _,
    fun worker' => hcons _ ▸ (hg worker').filterMap _⟩

theorem panicked_setWorker {index : Nat} {worker : Worker σ α}
    (h : f.workers[index]? = some worker) (worker' : Worker σ α) :
    (f.setWorker index worker').panicked + worker.isPanicked.toNat =
      f.panicked + worker'.isPanicked.toNat := by
  obtain ⟨others, hf, hg⟩ := setWorker_perm h
  simp only [panicked, hf.countP_eq, (hg worker').countP_eq, List.countP_cons]
  cases worker.isPanicked <;> cases worker'.isPanicked <;> simp

theorem length_setWorker (f : Fetch σ α) (index : Nat) (worker : Worker σ α) :
    (f.setWorker index worker).workers.length = f.workers.length :=
  List.length_set

/-- A worker changes, and its job stays where it is, comes from the queue or goes to `lost`. -/
theorem Tallied.setWorker (hf : f.Tallied P log collected lost) {index : Nat}
    {worker worker' : Worker σ α} (hw : f.workers[index]? = some worker) {lost' : List Job}
    (hjobs : ∀ job, jobs.count job + worker.job?.toList.count job + lost.count job =
      worker'.job?.toList.count job + lost'.count job)
    (hlost : lost'.length + worker.isPanicked.toNat = lost.length + worker'.isPanicked.toNat) :
    (Fetch.setWorker f index worker').Tallied P (log ++ jobs) collected lost' where
  handed := by
    obtain ⟨others, hheld, hheld'⟩ := held_setWorker hw
    refine List.perm_iff_count.mpr fun job => ?_
    have hj := hjobs job
    have hh := hf.handed.count_eq job
    simp only [List.count_append, hheld.count_eq job, (hheld' worker').count_eq job] at hh ⊢
    simp only [Fetch.setWorker]
    omega
  panicked := by
    have hp := panicked_setWorker hw worker'
    have hl := hf.panicked
    omega
  seen := hf.seen
  gathered := (length_setWorker f index worker').symm ▸ hf.gathered
  collected := hf.collected

/-- A worker delivers the result of its load. -/
theorem Tallied.deliver (hf : f.Tallied P log collected lost) {index : Nat} {job : Job}
    {rest : Activity σ (Except DriveError α)} (hw : f.workers[index]? = some (.loading job rest))
    (result : Except DriveError α) :
    Tallied P log collected lost
      { Fetch.setWorker f index .idle with results := f.results ++ [(job, result)] } where
  handed := by
    obtain ⟨others, hheld, hheld'⟩ := held_setWorker hw
    refine List.perm_iff_count.mpr fun other => ?_
    have hh := hf.handed.count_eq other
    have hidle := (hheld' .idle).count_eq other
    simp only [List.count_append, hheld.count_eq other, List.map_append, List.map_cons,
      List.map_nil] at hh ⊢
    simp only [held, Fetch.setWorker, Worker.job?, Option.toList_some, Option.toList_none,
      List.count_append, List.count_nil] at hh hidle ⊢
    omega
  panicked := by
    have hp := panicked_setWorker hw .idle
    exact hf.panicked.trans hp.symm
  seen := hf.seen
  gathered := (length_setWorker f index .idle).symm ▸ hf.gathered
  collected := hf.collected

/-- The caller collects a result. -/
theorem Tallied.collect (hf : f.Tallied P log collected lost) {job : Job}
    {result : Except DriveError α} {rest : List (Job × Except DriveError α)}
    (hr : f.results = (job, result) :: rest) (hresult : P job.id result) :
    Tallied P log (collected ++ [(job, result)]) lost
      { f with
        results := rest
        seen := f.seen ++ [job.position]
        gathered := f.gathered.add job result } where
  handed := by
    refine List.perm_iff_count.mpr fun other => ?_
    have hh := hf.handed.count_eq other
    simp only [hr, List.map_cons, List.count_append, List.count_cons, List.map_append,
      List.map_nil, List.count_nil] at hh ⊢
    simp only [held] at hh ⊢
    omega
  panicked := hf.panicked
  seen := by simp [hf.seen]
  gathered := by rw [Gathered.ofResults_concat, ← hf.gathered]
  collected entry hm := by
    rcases List.mem_append.mp hm with hm | hm
    · exact hf.collected entry hm
    · rw [List.mem_singleton.mp hm]
      exact hresult

/-- What a step delivers: what the results have grown by. -/
def delivered (f g : Fetch σ α) : List (Job × Except DriveError α) :=
  g.results.drop f.results.length

theorem delivered_of_append {more : List (Job × Except DriveError α)}
    (h : g.results = f.results ++ more) : delivered f g = more := by
  rw [delivered, h, List.drop_left]

theorem delivered_of_eq (h : g.results = f.results) : delivered f g = [] :=
  delivered_of_append (h.trans (List.append_nil _).symm)

/-- What is delivered is collected in the same order. -/
theorem Tallied.change (hf : f.Tallied P log collected lost) (hs : f.stopped = false)
    (hp : f.policy = .bestEffort) (hresults : ∀ entry ∈ f.results, P entry.1.id entry.2)
    (h : Change load J f jobs g) :
    ∃ collected' lost', g.Tallied P (log ++ jobs) collected' lost' ∧
      collected' ++ g.results = collected ++ f.results ++ delivered f g := by
  have hsame : ∀ {g : Fetch σ α}, g.results = f.results →
      collected ++ g.results = collected ++ f.results ++ delivered f g := fun h => by
    rw [delivered_of_eq h, h, List.append_nil]
  cases h
  case take job rest hw _ hq =>
    have ht : Tallied P log collected lost
        { f with queue := rest ++ f.offered.toList, offered := none } := { hf with }
    exact ⟨_, _, ht.setWorker hw (by simp [Worker.job?, Nat.add_comm]) rfl, hsame rfl⟩
  case crash job _ _ _ hw _ _ =>
    exact ⟨_, job :: lost, hf.setWorker hw
      (by simp [Worker.job?, List.count_cons, Nat.add_comm]) rfl, hsame rfl⟩
  case finish hw _ _ => exact ⟨_, _, hf.setWorker hw (fun _ => rfl) rfl, hsame rfl⟩
  case doze hw _ _ => exact ⟨_, _, hf.setWorker hw (by simp [Worker.job?]) rfl, hsame rfl⟩
  case wake hw => exact ⟨_, _, hf.setWorker hw (by simp [Worker.job?]) rfl, hsame rfl⟩
  all_goals rw [List.append_nil]
  case deliver hw _ _ =>
    refine ⟨_, _, hf.deliver hw _, ?_⟩
    rw [delivered_of_append rfl, List.append_assoc]
  case collect job result rest _ hr =>
    rw [collect_of_bestEffort hp]
    refine ⟨_, _, hf.collect hr (hresults (job, result) (hr ▸ List.mem_cons_self)), ?_⟩
    simp [delivered, hr]
  case quit hstopped _ _ =>
    rw [hs] at hstopped
    cases hstopped
  all_goals exact ⟨_, _, { hf with }, hsame rfl⟩

end Fetch
end SealedDrive
