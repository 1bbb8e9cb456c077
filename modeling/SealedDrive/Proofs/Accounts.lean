import SealedDrive.Proofs.Positions

/-!
What a best-effort listing answers. The caller answers once, when the supervisor has seen every
worker go; then each position of the request is in exactly one place of the answer, by a value or
by a failure, and what is missing among the results was lost with the workers that crashed.
-/

namespace SealedDrive

variable {σ α : Type}

/-- Whether this is the error for an id that was lost with its worker. -/
def DriveError.isWorkerPanicked : DriveError → Bool
  | .workerPanicked _ => true
  | _ => false

namespace Gathered

/-- The jobs that failed among results that are collected in this order. -/
def failed (results : List (Job × Except DriveError α)) : List Job :=
  results.filterMap fun
    | (job, .error _) => some job
    | (_, .ok _) => none

theorem ids_failed (workers : Nat) (results : List (Job × Except DriveError α)) :
    (ofResults workers results).failures.map (·.1) = (failed results).map (·.id) := by
  simp only [ofResults, failed, List.map_filterMap]
  congr 1
  funext entry
  obtain ⟨job, result⟩ := entry
  cases result <;> rfl

theorem mem_loaded {workers : Nat} {results : List (Job × Except DriveError α)} {entry : Nat × α}
    (h : entry ∈ (ofResults workers results).loaded) :
    ∃ job : Job, (job, .ok entry.2) ∈ results ∧ job.position = entry.1 := by
  obtain ⟨⟨job, result⟩, hm, he⟩ := List.mem_filterMap.mp h
  cases result <;> cases he
  exact ⟨job, hm, rfl⟩

theorem mem_failures {workers : Nat} {results : List (Job × Except DriveError α)}
    {failure : String × DriveError} (h : failure ∈ (ofResults workers results).failures) :
    ∃ job : Job, (job, .error failure.2) ∈ results ∧ job.id = failure.1 := by
  obtain ⟨⟨job, result⟩, hm, he⟩ := List.mem_filterMap.mp h
  cases result <;> cases he
  exact ⟨job, hm, rfl⟩

theorem mem_failed {results : List (Job × Except DriveError α)} {job : Job}
    (h : job ∈ failed results) : ∃ result, (job, result) ∈ results := by
  obtain ⟨⟨_, result⟩, hm, he⟩ := List.mem_filterMap.mp h
  cases result <;> cases he
  exact ⟨_, hm⟩

/-- Each result is either a value or a failure. -/
theorem positions_ofResults (workers : Nat) (results : List (Job × Except DriveError α)) :
    ((ofResults workers results).loaded.map (·.1) ++ (failed results).map (·.position)).Perm
      (results.map (·.1.position)) := by
  induction results with
  | nil => exact .refl _
  | cons entry rest ih =>
    obtain ⟨job, result⟩ := entry
    cases result with
    | ok value => exact .cons _ ih
    | error error => exact List.perm_middle.trans (.cons _ ih)

/-- Every position is accounted for once, by a value that was loaded for its id or by a failure of
its id; only what was lost to a worker that crashed did not fail by itself. -/
structure Accounts (P : String → Except DriveError α → Prop) (ids : List String) (panicked : Nat)
    (g : Gathered α) : Prop where
  once : ∃ failed : List Nat, (g.loaded.map (·.1) ++ failed).Perm (List.range ids.length) ∧
    failed.map (ids[·]?) = g.failures.map fun failure => some failure.1
  loaded : ∀ entry ∈ g.loaded, ∃ id, ids[entry.1]? = some id ∧ P id (.ok entry.2)
  failures : ∀ failure ∈ g.failures,
    P failure.1 (.error failure.2) ∨ failure.2 = .workerPanicked panicked

/-- The failures of ids that were lost with their workers. -/
def lost (g : Gathered α) : List (String × DriveError) := g.failures.filter (·.2.isWorkerPanicked)

end Gathered

namespace Fetch

variable {load : String → Activity σ (Except DriveError α)} {J : σ → Prop} {crashes : Prop}
  {P : String → Except DriveError α → Prop} {config : ListerConfig} {ids : List String}
  {f g : Fetch σ α} {log jobs : List Job}

/-! ## Until the caller answers -/

/-- A best-effort listing that the caller has not left; the supervisor has seen only workers go
that are gone. -/
structure Attended (config : ListerConfig) (ids : List String) (f : Fetch σ α) : Prop where
  ids_eq : f.ids = ids
  policy : f.policy = .bestEffort
  count : f.workers.length = workersFor config ids.length
  outcome : f.outcome = none
  stopped : f.stopped = false
  joined : ∀ worker ∈ f.workers.take f.joined, worker.isGone = true
  ended : f.ended = true → f.workers.length ≤ f.joined

theorem start_attended (hp : config.policy = .bestEffort) (ids : List String) :
    (start config ids : Fetch σ α).Attended config ids where
  ids_eq := rfl
  policy := hp
  count := List.length_replicate
  outcome := rfl
  stopped := rfl
  joined _ h := by cases h
  ended h := by cases h

/-- Workers that are gone stay so. -/
theorem Attended.setWorker (hf : f.Attended config ids) {index : Nat} {worker : Worker σ α}
    (hw : f.workers[index]? = some worker) (hgone : worker.isGone = false)
    (worker' : Worker σ α) : (Fetch.setWorker f index worker').Attended config ids :=
  { hf with
    count := (length_setWorker f index worker').trans hf.count
    joined := by
      have hle : f.joined ≤ index := by
        by_contra hlt
        have hm : worker ∈ f.workers.take f.joined := by
          refine List.mem_of_getElem? (i := index) ?_
          rw [List.getElem?_take_of_lt (by omega), hw]
        rw [hf.joined worker hm] at hgone
        cases hgone
      simp only [Fetch.setWorker, List.take_set_of_le hle]
      exact hf.joined
    ended := fun h => (length_setWorker f index worker').symm ▸ hf.ended h }

theorem Attended.join (hf : f.Attended config ids) {worker : Worker σ α}
    (hw : f.workers[f.joined]? = some worker) (hgone : worker.isGone = true) :
    Attended config ids { f with joined := f.joined + 1 } :=
  { hf with
    joined := fun other hm => by
      simp only [List.take_add_one, hw] at hm
      rcases List.mem_append.mp hm with hm | hm
      · exact hf.joined other hm
      · rw [List.mem_singleton.mp hm]
        exact hgone
    ended := fun h => Nat.le_succ_of_le (hf.ended h) }

/-- Once the results are closed, every worker is gone. -/
theorem Attended.gone (hf : f.Attended config ids) (he : f.ended = true) :
    ∀ worker ∈ f.workers, worker.isGone = true := by
  have hj := hf.joined
  rwa [List.take_of_length_le (hf.ended he)] at hj

/-- Only the answer ends that. -/
theorem Attended.change (hf : f.Attended config ids) (h : Change load J f jobs g) :
    g.Attended config ids ∨
      f.results = [] ∧ f.ended = true ∧ g = f.leave f.finish ∧ jobs = [] := by
  cases h
  case answer _ hr he => exact .inr ⟨hr, he, rfl, rfl⟩
  all_goals refine .inl ?_
  case take hw _ _ => exact { hf.setWorker hw rfl _ with }
  case finish hw _ _ => exact hf.setWorker hw rfl _
  case quit hw hgone => exact { hf.setWorker hw hgone .finished with }
  case deliver hw _ _ => exact { hf.setWorker hw rfl .idle with }
  case crash hw _ _ => exact hf.setWorker hw rfl _
  case doze hw _ _ => exact hf.setWorker hw rfl _
  case wake hw => exact hf.setWorker hw rfl _
  case join hw hgone => exact hf.join hw hgone
  case conclude hle _ => exact { hf with ended := fun _ => hle }
  case collect => rw [collect_of_bestEffort hf.policy]; exact { hf with }
  all_goals exact { hf with }

/-- A listing that the caller has not left yet, with what it keeps. -/
structure Going (J : σ → Prop) (crashes : Prop) (P : String → Except DriveError α → Prop)
    (config : ListerConfig) (ids : List String) (log : List Job) (f : Fetch σ α) : Prop where
  attended : f.Attended config ids
  keeps : f.Keeps J crashes P
  queued : f.Queued ids log
  tallied : ∃ collected lost, f.Tallied P log collected lost

theorem start_going (hp : config.policy = .bestEffort) (ids : List String) :
    (start config ids : Fetch σ α).Going J crashes P config ids [] where
  attended := start_attended hp ids
  keeps := start_keeps config ids
  queued := start_queued config ids
  tallied := ⟨[], [], start_tallied config ids⟩

theorem Going.change (hl : ∀ id, Loads J crashes P id (load id))
    (hf : f.Going J crashes P config ids log) (h : Change load J f jobs g) :
    g.Going J crashes P config ids (log ++ jobs) ∨
      f.results = [] ∧ f.ended = true ∧ g = f.leave f.finish ∧ jobs = [] := by
  rcases hf.attended.change h with ha | hanswer
  · obtain ⟨collected, lost, ht⟩ := hf.tallied
    have hs := hf.attended.stopped
    have hp := hf.attended.policy
    obtain ⟨collected, lost, ht, -⟩ := ht.change hs hp (hf.keeps.results hs) h
    exact .inl ⟨ha, hf.keeps.change hl h, hf.queued.change hs hp h, collected, lost, ht⟩
  · exact .inr hanswer

/-! ## The answer -/

/-- A listing that the caller answered: everyone else is gone or has nothing left to do. -/
structure Answered (J : σ → Prop) (crashes : Prop) (P : String → Except DriveError α → Prop)
    (config : ListerConfig) (ids : List String) (log : List Job) (f : Fetch σ α) : Prop where
  stopped : f.stopped = true
  gone : ∀ worker ∈ f.workers, worker.isGone = true
  answer : ∃ g : Fetch σ α, g.Going J crashes P config ids log ∧ g.results = [] ∧
    g.ended = true ∧ f.workers = g.workers ∧ f.outcome = some g.finish

theorem Going.answered (hf : f.Going J crashes P config ids log) (hr : f.results = [])
    (he : f.ended = true) : (f.leave f.finish).Answered J crashes P config ids log where
  stopped := rfl
  gone := hf.attended.gone he
  answer := ⟨f, hf, hr, he, rfl, rfl⟩

/-- When the caller has its answer and every worker is gone, nothing changes any more but for the
producer and the supervisor. -/
theorem Change.still (h : Change load J f jobs g)
    (hgone : ∀ worker ∈ f.workers, worker.isGone = true) (ho : f.outcome ≠ none) :
    jobs = [] ∧ g.results = f.results ∧ g.workers = f.workers ∧ g.stopped = f.stopped ∧
      g.outcome = f.outcome := by
  have hmoves : ∀ {index : Nat} {worker : Worker σ α}, f.workers[index]? = some worker →
      worker.isGone ≠ false := fun hw hgoes => by
    rw [hgone _ (List.mem_of_getElem? hw)] at hgoes
    cases hgoes
  cases h with
  | take hw | finish hw | deliver hw | crash hw | doze hw | wake hw => exact absurd rfl (hmoves hw)
  | quit _ hw hgoes => exact absurd hgoes (hmoves hw)
  | collect hn | answer hn => exact absurd hn ho
  | abandon | close | send | offer | join | conclude => exact ⟨rfl, rfl, rfl, rfl, rfl⟩

/-- After the answer no worker moves. -/
theorem Answered.change (hf : f.Answered J crashes P config ids log)
    (h : Change load J f jobs g) : g.Answered J crashes P config ids (log ++ jobs) := by
  have houtcome : f.outcome ≠ none := by
    obtain ⟨_, -, -, -, -, ho⟩ := hf.answer
    simp [ho]
  obtain ⟨rfl, -, hworkers, hstopped, ho⟩ := h.still hf.gone houtcome
  rw [List.append_nil]
  exact ⟨hstopped.trans hf.stopped, hworkers ▸ hf.gone, by rw [hworkers, ho]; exact hf.answer⟩

/-- Whatever order the moves come in, a listing is under way or answered. -/
theorem Run.settled (hl : ∀ id, Loads J crashes P id (load id))
    (hp : config.policy = .bestEffort) (h : Run load J (start config ids) log f) :
    f.Going J crashes P config ids log ∨ f.Answered J crashes P config ids log := by
  generalize hstart : start config ids = first at h
  induction h with
  | refl => exact .inl (hstart ▸ start_going hp ids)
  | tail _ hs ih =>
    rcases ih with hg | ha
    · rcases hg.change hl hs.change with hg' | ⟨hr, he, rfl, rfl⟩
      · exact .inl hg'
      · rw [List.append_nil]
        exact .inr (hg.answered hr he)
    · exact .inr (ha.change hs.change)

/-! ## What is missing at the end -/

/-- The jobs that the caller has not collected. -/
def missed (f : Fetch σ α) : List Job :=
  (jobsOf f.ids).filter fun job => !f.seen.contains job.position

theorem lost_eq (f : Fetch σ α) : f.lost = f.missed.map (·.id) := by
  simp only [lost, missed, jobsOf, List.filter_map, List.map_map]
  rfl

theorem finish_of_bestEffort (h : f.policy = .bestEffort) :
    f.finish = .ok { f.gathered with
      failures := f.gathered.failures ++
        f.missed.map fun job => (job.id, .workerPanicked f.panicked) } := by
  unfold Fetch.finish
  rw [lost_eq]
  split
  · next hl => simp [List.map_eq_nil_iff.mp (List.isEmpty_iff.mp hl)]
  · simp only [h, List.map_map]
    rfl

theorem held_of_gone (h : ∀ worker ∈ f.workers, worker.isGone = true) : f.held = [] := by
  refine List.filterMap_eq_nil_iff.mpr fun worker hm => ?_
  have hgone := h worker hm
  cases worker with
  | finished | panicked => rfl
  | idle | loading | waiting => cases hgone

/-- At the end, what was handed out was collected or lost. -/
theorem Tallied.ended {collected : List (Job × Except DriveError α)} {lost : List Job}
    (hf : f.Tallied P log collected lost) (hgone : ∀ worker ∈ f.workers, worker.isGone = true)
    (hr : f.results = []) : log.Perm (collected.map (·.1) ++ lost) := by
  have hh := hf.handed
  rwa [held_of_gone hgone, hr] at hh

/-- The positions seen and those missed are all positions. -/
theorem seen_missed (hs : f.seen.Nodup) (hlt : ∀ position ∈ f.seen, position < f.ids.length) :
    (f.seen ++ f.missed.map (·.position)).Perm (List.range f.ids.length) := by
  have hmissed : f.missed.map (·.position) =
      (List.range f.ids.length).filter fun position => !f.seen.contains position := by
    rw [← positions_jobsOf, List.filter_map]
    rfl
  have hseen : f.seen.Perm
      ((List.range f.ids.length).filter fun position => f.seen.contains position) := by
    refine (List.perm_ext_iff_of_nodup hs (List.nodup_range.filter _)).mpr fun position => ?_
    simp only [List.mem_filter, List.mem_range, List.contains_iff_mem]
    exact ⟨fun hm => ⟨hlt position hm, hm⟩, fun hm => hm.2⟩
  rw [hmissed]
  exact (hseen.append_right _).trans (List.filter_append_perm _ _)

theorem Going.sublist (hf : f.Going J crashes P config ids log) : log.Sublist (jobsOf ids) :=
  (List.sublist_append_left _ _).trans hf.queued.order

/-- What the caller collected are jobs of the request, each once. -/
theorem Going.collected (hf : f.Going J crashes P config ids log)
    {collected : List (Job × Except DriveError α)} {lost : List Job}
    (ht : f.Tallied P log collected lost) :
    f.seen.Nodup ∧ ∀ entry ∈ collected, entry.1 ∈ jobsOf ids := by
  have hsub : (collected.map (·.1)).Subperm log := by
    refine List.Subperm.trans ?_ ht.handed.symm.subperm
    exact ((List.sublist_append_left _ _).trans
      ((List.sublist_append_right _ _).trans (List.sublist_append_right _ _))).subperm
  constructor
  · have hseen : f.seen = (collected.map (·.1)).map (·.position) := by
      rw [ht.seen, List.map_map]
      rfl
    obtain ⟨some, hperm, hsome⟩ := hsub
    rw [hseen, ← (hperm.map (·.position)).nodup_iff]
    exact (nodup_positions hf.sublist).sublist (hsome.map _)
  · exact fun entry hm => hf.sublist.subset (hsub.subset (List.mem_map_of_mem hm))

theorem Going.missed (hf : f.Going J crashes P config ids log) {job : Job} (h : job ∈ f.missed) :
    job ∈ jobsOf ids :=
  hf.attended.ids_eq ▸ List.mem_of_mem_filter h

/-- What the caller collected and what it missed are at all positions, each once. -/
theorem Going.seen_missed (hf : f.Going J crashes P config ids log) :
    (f.seen ++ f.missed.map (·.position)).Perm (List.range ids.length) := by
  obtain ⟨collected, lost, ht⟩ := hf.tallied
  obtain ⟨hnodup, hjobs⟩ := hf.collected ht
  rw [← hf.attended.ids_eq]
  refine Fetch.seen_missed hnodup fun position hm => ?_
  obtain ⟨entry, hentry, rfl⟩ := List.mem_map.mp (ht.seen ▸ hm)
  rw [hf.attended.ids_eq]
  exact (List.getElem?_eq_some_iff.mp (id_of_mem_jobsOf (hjobs entry hentry))).1

/-- The values and the failures are at all positions, each once. -/
theorem Going.positions (hf : f.Going J crashes P config ids log)
    {collected : List (Job × Except DriveError α)} {lost : List Job}
    (ht : f.Tallied P log collected lost) :
    (f.gathered.loaded.map (·.1) ++ ((Gathered.failed collected).map (·.position) ++
      f.missed.map (·.position))).Perm (List.range ids.length) := by
  have hcollected := Gathered.positions_ofResults f.workers.length collected
  rw [← ht.gathered, ← ht.seen] at hcollected
  rw [← List.append_assoc]
  exact (hcollected.append_right _).trans hf.seen_missed

/-- The answer accounts for every position. -/
theorem Going.accounts (hf : f.Going J crashes P config ids log) :
    ∃ g, f.finish = .ok g ∧ g.Accounts P ids f.panicked := by
  obtain ⟨collected, lost, ht⟩ := hf.tallied
  have hjobs := (hf.collected ht).2
  have hids : ∀ jobs : List Job, (∀ job ∈ jobs, job ∈ jobsOf ids) →
      (jobs.map (·.position)).map (ids[·]?) = (jobs.map (·.id)).map some := by
    intro jobs hm
    rw [List.map_map, List.map_map]
    exact List.map_congr_left fun job hj => id_of_mem_jobsOf (hm job hj)
  refine ⟨_, finish_of_bestEffort hf.attended.policy, ⟨_, hf.positions ht, ?_⟩, ?_, ?_⟩
  · rw [List.map_append, hids _ fun job hm => ?_, hids _ fun job => hf.missed,
      ← Gathered.ids_failed f.workers.length, ← ht.gathered]
    · simp only [List.map_append, List.map_map]
      rfl
    · obtain ⟨result, hm⟩ := Gathered.mem_failed hm
      exact hjobs _ hm
  · intro entry hentry
    have hentry : entry ∈ f.gathered.loaded := hentry
    rw [ht.gathered] at hentry
    obtain ⟨job, hm, hposition⟩ := Gathered.mem_loaded hentry
    exact ⟨job.id, hposition ▸ id_of_mem_jobsOf (hjobs _ hm), ht.collected _ hm⟩
  · intro failure hm
    rcases List.mem_append.mp hm with hm | hm
    · rw [ht.gathered] at hm
      obtain ⟨job, hm, hid⟩ := Gathered.mem_failures hm
      exact .inl (hid ▸ ht.collected _ hm)
    · obtain ⟨job, -, rfl⟩ := List.mem_map.mp hm
      exact .inr rfl

/-- At the end a worker that did not crash has found nothing left to take. -/
theorem Going.handedOut (hf : f.Going J crashes P config ids log) (he : f.ended = true)
    (hp : f.panicked < f.workers.length) : log = jobsOf ids := by
  obtain ⟨worker, hm, hworker⟩ : ∃ worker ∈ f.workers, worker.isPanicked = false := by
    by_contra hall
    have hcount : f.panicked = f.workers.length :=
      List.countP_eq_length.mpr fun worker hm => by
        cases hworker : worker.isPanicked with
        | true => rfl
        | false => exact absurd ⟨worker, hm, hworker⟩ hall
    omega
  have hfinished : .finished ∈ f.workers := by
    have hgone := hf.attended.gone he worker hm
    cases worker with
    | finished => exact hm
    | panicked => cases hworker
    | _ => cases hgone
  have hw := hf.queued.whole ⟨worker, hm, hworker⟩
  rwa [(hf.queued.finished hfinished).2, List.append_nil] at hw

/-- Then as many positions are missing as workers crashed. -/
theorem Going.missed_length (hf : f.Going J crashes P config ids log) (hr : f.results = [])
    (he : f.ended = true) (hp : f.panicked < f.workers.length) :
    f.missed.length = f.panicked := by
  obtain ⟨collected, lost, ht⟩ := hf.tallied
  have hlog := (ht.ended (hf.attended.gone he) hr).length_eq
  rw [hf.handedOut he hp] at hlog
  have hpositions := (hf.positions ht).length_eq
  have hcollected := (Gathered.positions_ofResults f.workers.length collected).length_eq
  have hjobs : (jobsOf ids).length = ids.length := by simp [jobsOf]
  rw [← ht.gathered] at hcollected
  simp only [List.length_append, List.length_map, List.length_range] at hlog hpositions hcollected
  have hlost := ht.panicked
  omega

/-- So, if loads do not fail like that by themselves, the failures of lost ids are as many as the
workers that crashed. -/
theorem Going.lost_length (hf : f.Going J crashes P config ids log)
    (hP : ∀ id error, P id (.error error) → error.isWorkerPanicked = false) (hr : f.results = [])
    (he : f.ended = true) (hp : f.panicked < f.workers.length) {g : Gathered α}
    (h : f.finish = .ok g) : g.lost.length = f.panicked := by
  obtain ⟨collected, lost, ht⟩ := hf.tallied
  have hcollected : f.gathered.failures.filter (·.2.isWorkerPanicked) = [] := by
    refine List.filter_eq_nil_iff.mpr fun failure hm => ?_
    obtain ⟨job, hm, -⟩ := Gathered.mem_failures (ht.gathered ▸ hm)
    simp [hP _ _ (ht.collected _ hm)]
  have hmissed := hf.missed_length hr he hp
  rw [finish_of_bestEffort hf.attended.policy] at h
  cases h
  rw [Gathered.lost, List.filter_append, hcollected, List.nil_append,
    List.filter_eq_self.mpr fun failure hm => ?_, List.length_map, hmissed]
  obtain ⟨job, -, rfl⟩ := List.mem_map.mp hm
  rfl

end Fetch
end SealedDrive
