import SealedDrive.Proofs.Sequential

/-!
Listings that the first failure ends. Until the caller collects a failure, such a listing goes
through what a best-effort listing goes through, so what is known of that one is known of it. It
ends with the error of a load that failed, or when none did, with all values; and an id that was
lost with its worker is a failure as well.
-/

namespace SealedDrive

variable {σ α : Type}

namespace Fetch

variable {load : String → Activity σ (Except DriveError α)} {J : σ → Prop} {crashes : Prop}
  {P : String → Except DriveError α → Prop} {config : ListerConfig} {ids : List String}
  {f g : Fetch σ α} {log jobs : List Job}

/-- The same listing, if failures did not end it. -/
def lenient (f : Fetch σ α) : Fetch σ α := { f with policy := .bestEffort }

/-! ## One step -/

/-- An answer stays. -/
theorem Change.outcome {answer : Except DriveError (Gathered α)} (h : Change load J f jobs g)
    (ho : f.outcome = some answer) : g.outcome = some answer := by
  cases h
  case collect hn _ =>
    rw [ho] at hn
    cases hn
  case answer hn _ _ =>
    rw [ho] at hn
    cases hn
  all_goals exact ho

/-- What the next step does to a listing that the first failure ends and that has none yet. -/
inductive Stricter (load : String → Activity σ (Except DriveError α)) (J : σ → Prop)
    (f : Fetch σ α) (jobs : List Job) (g : Fetch σ α) : Prop
  | goesOn : Change load J f.lenient jobs g.lenient → g.policy = .failFast →
    g.gathered.failures = f.gathered.failures → g.outcome = f.outcome → Stricter load J f jobs g
  | fails {job : Job} {error : DriveError} {rest : List (Job × Except DriveError α)} :
    f.results = (job, .error error) :: rest → g.outcome = some (.error error) →
    Stricter load J f jobs g
  | answers : f.results = [] → f.ended = true → g = f.leave f.finish → Stricter load J f jobs g

theorem Change.stricter (h : Change load J f jobs g) (hp : f.policy = .failFast) :
    Stricter load J f jobs g := by
  cases h
  case abandon hc hgone => exact .goesOn (.abandon hc hgone) hp rfl rfl
  case close hc ho hb => exact .goesOn (.close hc ho hb) hp rfl rfl
  case send hc ho hb => exact .goesOn (.send hc ho hb) hp rfl rfl
  case offer hc ho hb hq => exact .goesOn (.offer hc ho hb hq) hp rfl rfl
  case take hw hs hq => exact .goesOn (.take hw hs hq) hp rfl rfl
  case finish hw hq hc => exact .goesOn (.finish hw hq hc) hp rfl rfl
  case quit hs hw hgone => exact .goesOn (.quit hs hw hgone) hp rfl rfl
  case deliver hw hs hb => exact .goesOn (.deliver hw hs hb) hp rfl rfl
  case crash hw hs hb => exact .goesOn (.crash hw hs hb) hp rfl rfl
  case doze hw hs hb => exact .goesOn (.doze hw hs hb) hp rfl rfl
  case wake hw => exact .goesOn (.wake hw) hp rfl rfl
  case join hw hgone => exact .goesOn (.join hw hgone) hp rfl rfl
  case conclude hle he => exact .goesOn (.conclude hle he) hp rfl rfl
  case answer ho hr he => exact .answers hr he rfl
  case collect job result rest ho hr =>
    cases result with
    | ok value => exact .goesOn (.collect (f := f.lenient) ho hr) hp rfl rfl
    | error error =>
      refine .fails hr ?_
      simp only [Fetch.collect, hp]
      rfl

/-! ## What it may answer -/

/-- What a listing may answer: what the loads of all ids come to, or the error of one of them that
ended it. -/
inductive Told (policy : ListPolicy) (Q : String → Except DriveError α → Prop)
    (ids : List String) : Except DriveError (Gathered α) → Prop
  | whole {g : Gathered α} {results : List (Except DriveError α)} : List.Forall₂ Q ids results →
    g.Tells ids results → (policy = .failFast → g.failures = []) → Told policy Q ids (.ok g)
  | failed {id : String} {error : DriveError} : policy = .failFast → id ∈ ids →
    Q id (.error error) → Told policy Q ids (.error error)

/-- A listing that the first failure ends and that has none yet. -/
structure Strict (J : σ → Prop) (crashes : Prop) (P : String → Except DriveError α → Prop)
    (config : ListerConfig) (ids : List String) (log : List Job) (f : Fetch σ α) : Prop where
  policy : f.policy = .failFast
  going : f.lenient.Going J crashes P { config with policy := .bestEffort } ids log
  failures : f.gathered.failures = []

theorem start_strict (hp : config.policy = .failFast) (ids : List String) :
    (start config ids : Fetch σ α).Strict J crashes P config ids [] where
  policy := hp
  going := start_going rfl ids
  failures := rfl

/-- A delivered result is one of an id of the request. -/
theorem Going.mem_results (hf : f.Going J crashes P config ids log)
    {entry : Job × Except DriveError α} (h : entry ∈ f.results) : entry.1.id ∈ ids := by
  obtain ⟨collected, lost, ht⟩ := hf.tallied
  have hlog : entry.1 ∈ log := by
    refine ht.handed.mem_iff.mpr (List.mem_append_right _ (List.mem_append_left _ ?_))
    exact List.mem_map_of_mem h
  exact List.mem_of_getElem? (id_of_mem_jobsOf (hf.sublist.subset hlog))

/-- When the results are closed and none failed, only lost ids can be missing. -/
theorem Strict.told_finish (hf : f.Strict J crashes P config ids log) (hr : f.results = [])
    (he : f.ended = true) : Told .failFast (OrLost crashes P) ids f.finish := by
  obtain ⟨g, results, hg, hresults, ht⟩ := hf.going.tells hr he
  have hlost : f.lost = f.missed.map (·.id) := lost_eq f
  unfold Fetch.finish
  split
  · next hempty =>
    -- nothing is missing, so the answer is that of the best-effort listing
    have hmissed : f.missed = [] :=
      List.map_eq_nil_iff.mp (hlost ▸ List.isEmpty_iff.mp hempty)
    have hlenient : f.lenient.missed = [] := hmissed
    rw [finish_of_bestEffort rfl, hlenient, List.map_nil, List.append_nil] at hg
    cases hg
    exact .whole hresults ht fun _ => hf.failures
  · next hnonempty =>
    simp only [hf.policy]
    cases hm : f.missed with
    | nil => exact absurd (by rw [hlost, hm]; rfl) hnonempty
    | cons job rest =>
      have hmissed : job ∈ f.missed := hm ▸ List.mem_cons_self
      refine .failed rfl
        (List.mem_of_getElem? (id_of_mem_jobsOf (hf.going.missed (f := f.lenient) hmissed)))
        (.inr ⟨?_, _, rfl⟩)
      by_contra hc
      have hnone : f.missed = [] := hf.going.missed_eq_nil hr he hc
      rw [hnone] at hmissed
      cases hmissed

/-- The failure that ends a listing is that of an id of the request. -/
theorem Strict.failing (hf : f.Strict J crashes P config ids log) {job : Job} {error : DriveError}
    {rest : List (Job × Except DriveError α)} (hr : f.results = (job, .error error) :: rest) :
    job.id ∈ ids ∧ P job.id (.error error) := by
  have hm : (job, .error error) ∈ f.lenient.results := hr ▸ List.mem_cons_self
  exact ⟨hf.going.mem_results hm, hf.going.keeps.results hf.going.attended.stopped _ hm⟩

theorem Strict.change (hl : ∀ id, Loads J crashes P id (load id))
    (hf : f.Strict J crashes P config ids log) (h : Change load J f jobs g) :
    g.Strict J crashes P config ids (log ++ jobs) ∨
      ∃ answer, g.outcome = some answer ∧ Told .failFast (OrLost crashes P) ids answer := by
  cases h.stricter hf.policy with
  | goesOn hc hp hfailures ho =>
    rcases hf.going.change hl hc with hg | ⟨-, -, hleft, -⟩
    · exact .inl ⟨hp, hg, hfailures.trans hf.failures⟩
    · have hsome : g.outcome = some f.lenient.finish := congrArg Fetch.outcome hleft
      have hnone : f.outcome = none := hf.going.attended.outcome
      rw [ho, hnone] at hsome
      cases hsome
  | fails hr ho =>
    obtain ⟨hid, hP⟩ := hf.failing hr
    exact .inr ⟨_, ho, .failed rfl hid (.inl hP)⟩
  | answers hr he hg => exact .inr ⟨_, hg ▸ rfl, hf.told_finish hr he⟩

/-- Whatever order the moves come in, there is no failure yet or an answer. -/
theorem Run.strict (hl : ∀ id, Loads J crashes P id (load id)) (hp : config.policy = .failFast)
    (h : Run load J (start config ids) log f) :
    f.Strict J crashes P config ids log ∨
      ∃ answer, f.outcome = some answer ∧ Told .failFast (OrLost crashes P) ids answer := by
  generalize hstart : start config ids = first at h
  induction h with
  | refl => exact .inl (hstart ▸ start_strict hp ids)
  | tail _ hs ih =>
    rcases ih with hf | ⟨answer, ho, ht⟩
    · exact hf.change hl hs.change
    · exact .inr ⟨answer, hs.change.outcome ho, ht⟩

/-- Until the caller has its answer, somebody can go on. -/
theorem Strict.step (hf : f.Strict J crashes P config ids log) {s : σ} (hs : J s) :
    ∃ jobs g, Step load J f jobs g :=
  exists_step hf.going.attended.stopped hf.going.queued.offered hf.going.attended.outcome hs

/-! ## Whatever the settings -/

/-- What the caller may get, whether or not the first failure ends the listing. -/
theorem MayAnswer.told {result : Except DriveError (Gathered α)}
    (hl : ∀ id, Loads J crashes P id (load id)) (h : MayAnswer load J config ids result) :
    Told config.policy (OrLost crashes P) ids result := by
  cases hp : config.policy with
  | bestEffort =>
    obtain ⟨g, results, rfl, hresults, ht⟩ := h.tells hl hp
    exact .whole hresults ht fun hf => by cases hf
  | failFast =>
    obtain ⟨log, f, hr, ho⟩ := h
    rcases hr.strict hl hp with hf | ⟨answer, ho', ht⟩
    · have hnone : f.outcome = none := hf.going.attended.outcome
      rw [hnone] at ho
      cases ho
    · rw [ho] at ho'
      cases ho'
      exact ht

/-- A listing does end. -/
theorem ends_of_loads (hl : ∀ id, Loads J crashes P id (load id)) {s : σ} (hs : J s)
    {post : Except DriveError (Gathered α) → Prop}
    (h : ∀ answer, Told config.policy (OrLost crashes P) ids answer → post answer) :
    Ends load J config ids post where
  ends := wellFounded_step load J
  goesOn log f hr ho := by
    cases hp : config.policy with
    | bestEffort => exact (ends_of_bestEffort hl hs hp fun _ _ => trivial).goesOn log f hr ho
    | failFast =>
      rcases hr.strict hl hp with hf | ⟨answer, ha, -⟩
      · exact hf.step hs
      · rw [ha] at ho
        cases ho
  answers answer ha := h answer (ha.told hl)

end Fetch
end SealedDrive
