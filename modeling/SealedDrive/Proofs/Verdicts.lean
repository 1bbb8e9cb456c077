import SealedDrive.Proofs.Firsts
import SealedDrive.Proofs.Strict

/-!
What ends a listing that fails fast. Results arrive in the order in which they are delivered, from
loads that end as well as from loads that are aborted when the listing stops. The answer is whole
when every position has arrived with a value; else it is the first failure to arrive; and if none
arrived, it counts the workers that crashed. Since nobody is stopped before the caller has its
answer, what aborted loads report never becomes the answer.
-/

namespace SealedDrive

variable {σ α : Type}

namespace Fetch

/-- Any number of moves in any order, with all results that arrive, in their order. -/
inductive Arrivals (load : String → Activity σ (Except DriveError α)) (J : σ → Prop) :
    Fetch σ α → List (Job × Except DriveError α) → Fetch σ α → Prop
  | refl (f : Fetch σ α) : Arrivals load J f [] f
  | tail {f g h : Fetch σ α} {arrived : List (Job × Except DriveError α)} {jobs : List Job} :
    Arrivals load J f arrived g → Step load J g jobs h →
    Arrivals load J f (arrived ++ delivered g h) h

/-- A result of a load that failed. -/
def Failing (entry : Job × Except DriveError α) : Prop := ∃ error, entry.2 = .error error

/-- What a listing answers that fails fast, when these results arrived and so many workers
crashed. -/
inductive Verdict (P : String → Except DriveError α → Prop) (ids : List String)
    (arrived : List (Job × Except DriveError α)) (panicked : Nat) :
    Except DriveError (Gathered α) → Prop
  /-- Every position has arrived with a value, and those are in the order of the requests. -/
  | whole {g : Gathered α} : (∀ entry ∈ arrived, ¬Failing entry) → panicked = 0 →
    g.failures = [] →
    List.Forall₂ (fun job value => (job, .ok value) ∈ arrived ∧ P job.id (.ok value)) (jobsOf ids)
      g.inRequestOrder → Verdict P ids arrived panicked (.ok g)
  | failed {job : Job} {error : DriveError} : IsFirst Failing arrived (job, .error error) →
    job.id ∈ ids → P job.id (.error error) → Verdict P ids arrived panicked (.error error)
  | lost : (∀ entry ∈ arrived, ¬Failing entry) → 0 < panicked →
    Verdict P ids arrived panicked (.error (.workerPanicked panicked))

variable {load : String → Activity σ (Except DriveError α)} {J : σ → Prop} {crashes : Prop}
  {P : String → Except DriveError α → Prop} {config : ListerConfig} {ids : List String}
  {f g : Fetch σ α} {log jobs : List Job} {arrived : List (Job × Except DriveError α)}
  {answer : Except DriveError (Gathered α)}

theorem Run.arrivals (h : Run load J f log g) : ∃ arrived, Arrivals load J f arrived g := by
  induction h with
  | refl => exact ⟨[], .refl _⟩
  | tail _ hs ih =>
    obtain ⟨arrived, ha⟩ := ih
    exact ⟨_, ha.tail hs⟩

/-! ## What is missing -/

/-- As many positions are missing as workers crashed, or more. -/
theorem Going.panicked_le (hf : f.Going J crashes P config ids log) (hr : f.results = [])
    (he : f.ended = true) : f.panicked ≤ f.missed.length := by
  obtain ⟨collected, lost, ht⟩ := hf.tallied
  have hended := (ht.ended (hf.attended.gone he) hr).length_eq
  have hlog := hf.sublist.length_le
  have hall := hf.seen_missed.length_eq
  have hlost := ht.panicked
  rw [ht.seen] at hall
  simp only [jobsOf, List.length_append, List.length_map, List.length_zipIdx,
    List.length_range] at hended hlog hall
  omega

/-- Positions are missing only if workers crashed. -/
theorem Going.panicked_pos (hf : f.Going J crashes P config ids log) (hr : f.results = [])
    (he : f.ended = true) (hm : f.missed ≠ []) : 0 < f.panicked := by
  obtain ⟨job, hjob⟩ := List.exists_mem_of_ne_nil _ hm
  have hids : 0 < ids.length :=
    List.length_pos_of_mem (List.mem_of_getElem? (id_of_mem_jobsOf (hf.missed hjob)))
  by_cases hlt : f.panicked < f.workers.length
  · rw [← hf.missed_length hr he hlt]
    exact List.length_pos_iff.mpr hm
  · rw [hf.attended.count, workersFor] at hlt
    omega

/-- When nothing is missing and nothing failed, the values are those of the requests. -/
theorem Going.whole (hf : f.Going J crashes P config ids log)
    {collected : List (Job × Except DriveError α)} {lost : List Job}
    (ht : f.Tallied P log collected lost) (hm : f.missed = [])
    (hok : ∀ entry ∈ collected, ¬Failing entry) :
    List.Forall₂ (fun job value => (job, .ok value) ∈ collected ∧ P job.id (.ok value))
      (jobsOf ids) f.gathered.inRequestOrder := by
  obtain ⟨entries, hperm, hjobs⟩ := hf.inOrder ht
  have hnone : f.missedResults = [] := by rw [missedResults, hm, List.map_nil]
  rw [hnone, List.append_nil] at hperm
  have htells : (Gathered.ofResults f.workers.length collected).Tells ids (entries.map (·.2)) :=
    Gathered.tells_ofResults hperm hjobs
  rw [ht.gathered, htells.values, ← hjobs]
  have hsub : ∀ entry ∈ entries, entry ∈ collected := fun entry hm => hperm.mem_iff.mpr hm
  clear hperm hjobs htells
  induction entries with
  | nil => exact .nil
  | cons entry rest ih =>
    obtain ⟨hentry, hrest⟩ := List.forall_mem_cons.mp hsub
    obtain ⟨job, result⟩ := entry
    cases result with
    | error error => exact absurd ⟨error, rfl⟩ (hok _ hentry)
    | ok value => exact .cons ⟨hentry, ht.collected _ hentry⟩ (ih hrest)

/-! ## Until the caller answers -/

/-- A listing that fails fast and of which no failure was collected yet: what arrived was collected
or is still to be. -/
structure Unfailed (J : σ → Prop) (crashes : Prop) (P : String → Except DriveError α → Prop)
    (config : ListerConfig) (ids : List String) (arrived : List (Job × Except DriveError α))
    (log : List Job) (f : Fetch σ α) : Prop where
  strict : f.Strict J crashes P config ids log
  arrived : ∃ collected lost, f.lenient.Tallied P log collected lost ∧
    collected ++ f.results = arrived

theorem start_unfailed (hp : config.policy = .failFast) (ids : List String) :
    (start config ids : Fetch σ α).Unfailed J crashes P config ids [] [] where
  strict := start_strict hp ids
  arrived := ⟨[], [], start_tallied { config with policy := .bestEffort } ids, rfl⟩

/-- Nothing failed of what was collected. -/
theorem Unfailed.not_failing (hf : f.Unfailed J crashes P config ids arrived log)
    {collected : List (Job × Except DriveError α)} {lost : List Job}
    (ht : f.lenient.Tallied P log collected lost) : ∀ entry ∈ collected, ¬Failing entry := by
  rintro ⟨job, result⟩ hm ⟨error, rfl⟩
  have hgathered : f.gathered = .ofResults f.workers.length collected := ht.gathered
  have hfailures := hf.strict.failures
  rw [hgathered] at hfailures
  exact absurd (List.filterMap_eq_nil_iff.mp hfailures _ hm) (Option.some_ne_none _)

/-- The answer once everyone is gone. -/
theorem Unfailed.verdict_finish (hf : f.Unfailed J crashes P config ids arrived log)
    (hr : f.results = []) (he : f.ended = true) : Verdict P ids arrived f.panicked f.finish := by
  obtain ⟨collected, lost, ht, rfl⟩ := hf.arrived
  have hgoing := hf.strict.going
  have hok := hf.not_failing ht
  rw [hr, List.append_nil]
  unfold Fetch.finish
  split
  · next hempty =>
    have hmissed : f.missed = [] := by
      rw [lost_eq, List.isEmpty_iff, List.map_eq_nil_iff] at hempty
      exact hempty
    have hpanicked := hgoing.panicked_le hr he
    rw [show f.lenient.missed = [] from hmissed] at hpanicked
    exact .whole hok (Nat.le_zero.mp hpanicked) hf.strict.failures (hgoing.whole ht hmissed hok)
  · next hnonempty =>
    simp only [hf.strict.policy]
    refine .lost hok (hgoing.panicked_pos hr he fun hmissed => hnonempty ?_)
    rw [lost_eq, show f.missed = [] from hmissed]
    rfl

/-- A listing that the caller has answered, so that nothing else can change it. -/
structure Decided (P : String → Except DriveError α → Prop) (ids : List String)
    (arrived : List (Job × Except DriveError α)) (answer : Except DriveError (Gathered α))
    (f : Fetch σ α) : Prop where
  outcome : f.outcome = some answer
  verdict : Verdict P ids arrived f.panicked answer
  settled : (∃ entry ∈ arrived, Failing entry) ∨ ∀ worker ∈ f.workers, worker.isGone = true

theorem Decided.change (hf : f.Decided P ids arrived answer) (h : Change load J f jobs g) :
    g.Decided P ids (arrived ++ delivered f g) answer := by
  have ho := h.outcome hf.outcome
  rcases hf.settled with hfailed | hgone
  · obtain ⟨entry, hm, hfailing⟩ := hfailed
    have hm' : entry ∈ arrived ++ delivered f g := List.mem_append_left _ hm
    cases hf.verdict with
    | whole hok | lost hok => exact absurd hfailing (hok entry hm)
    | failed hfirst hid hP =>
      exact ⟨ho, .failed (hfirst.append _) hid hP, .inl ⟨entry, hm', hfailing⟩⟩
  · obtain ⟨-, hresults, hworkers, -⟩ := h.still hgone (hf.outcome ▸ Option.some_ne_none _)
    rw [delivered_of_eq hresults, List.append_nil]
    refine ⟨ho, ?_, .inr (hworkers ▸ hgone)⟩
    rw [panicked, hworkers]
    exact hf.verdict

theorem Unfailed.change (hl : ∀ id, Loads J crashes P id (load id))
    (hf : f.Unfailed J crashes P config ids arrived log) (h : Change load J f jobs g) :
    g.Unfailed J crashes P config ids (arrived ++ delivered f g) (log ++ jobs) ∨
      ∃ answer, g.Decided P ids (arrived ++ delivered f g) answer := by
  obtain ⟨collected, lost, ht, rfl⟩ := hf.arrived
  have hgoing := hf.strict.going
  have hok := hf.not_failing ht
  cases h.stricter hf.strict.policy with
  | goesOn hc hp hfailures ho =>
    obtain ⟨collected', lost', ht', harrived⟩ := ht.change hgoing.attended.stopped rfl
      (hgoing.keeps.results hgoing.attended.stopped) hc
    rcases hf.strict.change hl h with hg | ⟨answer, hanswer, -⟩
    · exact .inl ⟨hg, collected', lost', ht', harrived⟩
    · have hnone : f.outcome = none := hgoing.attended.outcome
      rw [ho, hnone] at hanswer
      cases hanswer
  | @fails job error rest hr ho =>
    obtain ⟨hid, hP⟩ := hf.strict.failing hr
    have hfirst : IsFirst Failing (collected ++ f.results) (job, .error error) :=
      .after hok (hr ▸ .here ⟨error, rfl⟩)
    have hfirst' := hfirst.append (delivered f g)
    exact .inr ⟨_, ho, .failed hfirst' hid hP, .inl ⟨_, hfirst'.mem, hfirst'.holds⟩⟩
  | answers hr he hg =>
    subst hg
    rw [delivered_of_eq (f := f) (g := f.leave f.finish) rfl, List.append_nil]
    exact .inr ⟨f.finish, rfl, hf.verdict_finish hr he, .inr (hgoing.attended.gone he)⟩

/-- Whatever order the moves come in, nothing failed yet or the caller has its answer. -/
theorem Arrivals.decided (hl : ∀ id, Loads J crashes P id (load id))
    (hp : config.policy = .failFast) (h : Arrivals load J (start config ids) arrived f) :
    (∃ log, f.Unfailed J crashes P config ids arrived log) ∨
      ∃ answer, f.Decided P ids arrived answer := by
  generalize hstart : start config ids = first at h
  induction h with
  | refl => exact .inl ⟨[], hstart ▸ start_unfailed hp ids⟩
  | tail _ hs ih =>
    rcases ih with ⟨log, hf⟩ | ⟨answer, hf⟩
    · exact (hf.change hl hs.change).imp_left fun hg => ⟨_, hg⟩
    · exact .inr ⟨answer, hf.change hs.change⟩

/-! ## What a listing answers that fails fast -/

theorem Verdict.mono {Q : String → Except DriveError α → Prop} {panicked : Nat}
    (h : Verdict P ids arrived panicked answer) (hPQ : ∀ id result, P id result → Q id result) :
    Verdict Q ids arrived panicked answer := by
  cases h with
  | whole hok hpanicked hfailures hall =>
    exact .whole hok hpanicked hfailures (hall.imp fun _ _ h => ⟨h.1, hPQ _ _ h.2⟩)
  | failed hfirst hid hP => exact .failed hfirst hid (hPQ _ _ hP)
  | lost hok hpanicked => exact .lost hok hpanicked

/-- When a load failed or crashed, the answer is an error. -/
theorem Verdict.exists_error {panicked : Nat} (h : Verdict P ids arrived panicked answer)
    (hfails : (∃ entry ∈ arrived, Failing entry) ∨ 0 < panicked) :
    ∃ error, answer = .error error := by
  cases h with
  | whole hok hpanicked =>
    rcases hfails with ⟨entry, hm, hfailing⟩ | hpos
    · exact absurd hfailing (hok entry hm)
    · exact absurd hpanicked (Nat.ne_of_gt hpos)
  | failed => exact ⟨_, rfl⟩
  | lost => exact ⟨_, rfl⟩

/-- A listing that fails fast, in any order of the moves, when these results have arrived. `P` is
what is known of the answers of loads. -/
structure FailsFast (load : String → Activity σ (Except DriveError α)) (J : σ → Prop)
    (P : String → Except DriveError α → Prop) (ids : List String)
    (arrived : List (Job × Except DriveError α)) (f : Fetch σ α) : Prop where
  goesOn : f.outcome = none → ∃ jobs g, Step load J f jobs g
  verdict : ∀ answer, f.outcome = some answer → Verdict P ids arrived f.panicked answer
  fails : f.outcome ≠ none → (∃ entry ∈ arrived, Failing entry) ∨ 0 < f.panicked →
    ∃ error, f.outcome = some (.error error)
  uncancelled : f.outcome ≠ some (.error .cancelled)

theorem Arrivals.failsFast
    (hl : ∀ id, Loads J crashes (fun id result => P id result ∧
      ∀ error, result = .error error → error.isOfLoad = true) id (load id)) {s : σ} (hs : J s)
    (hp : config.policy = .failFast) (h : Arrivals load J (start config ids) arrived f) :
    f.FailsFast load J P ids arrived := by
  rcases h.decided hl hp with ⟨log, hf⟩ | ⟨answer, hf⟩
  · have hnone : f.outcome = none := hf.strict.going.attended.outcome
    exact ⟨fun _ => hf.strict.step hs, fun answer ho => (by rw [hnone] at ho; cases ho),
      fun hsome => absurd hnone hsome, fun ho => (by rw [hnone] at ho; cases ho)⟩
  · refine ⟨fun hnone => (by rw [hf.outcome] at hnone; cases hnone), fun other ho => ?_,
      fun _ hfails => ?_, fun ho => ?_⟩
    · cases hf.outcome.symm.trans ho
      exact hf.verdict.mono fun _ _ h => h.1
    · obtain ⟨error, rfl⟩ := hf.verdict.exists_error hfails
      exact ⟨error, hf.outcome⟩
    · cases hf.outcome.symm.trans ho
      cases hf.verdict with
      | failed _ _ hP => cases hP.2 _ rfl

/-- However a listing is cancelled or bounded, the values it answers with are those of some order
of the moves. -/
theorem meets_mayAnswer_ok [Crowded σ] (hl : ∀ id, Loads J crashes P id (load id))
    (hcrowd : ∀ crowd s, J s → J (Crowded.setCrowd crowd s)) {s : σ} (hs : J s)
    (cancelAfter : Option Nat) {patience : Nat} :
    (Fetch.run load config cancelAfter ids patience).Meets (.standing J) True
      (fun answer _ => ∀ g, answer = .ok g → MayAnswer load J config ids (.ok g)) () := by
  have hkept : Kept load J fun f => f.Keeps J crashes P ∧
      ((∃ log, Run load J (start config ids) log f) ∨ f.outcome = some (.error .cancelled)) :=
    kept_and hl fun f jobs g h hstep => h.imp (fun ⟨_, hr⟩ => ⟨_, hr.tail hstep⟩)
      hstep.change.outcome
  refine hkept.meets_run hcrowd ⟨start_keeps config ids, .inl ⟨[], .refl _⟩⟩ ?_ ?_ ?_ ?_
  · rintro f answer ⟨-, ⟨log, hr⟩ | hcancelled⟩ ho g rfl
    · exact ⟨log, f, hr, ho⟩
    · rw [hcancelled] at ho
      cases ho
  · rintro rfl g hg
    cases hg
    exact mayAnswer_nil hs config
  · exact fun _ => ⟨fun f hf => ⟨hf.1.leave fun g hg => (by cases hg), .inr rfl⟩,
      fun g hg => (by cases hg)⟩
  · exact fun span _ g hg => (by cases hg)

theorem MayAnswer.exists_arrivals (h : MayAnswer load J config ids answer) :
    ∃ arrived f, Arrivals load J (start config ids) arrived f ∧ f.outcome = some answer := by
  obtain ⟨log, f, hr, ho⟩ := h
  obtain ⟨arrived, ha⟩ := hr.arrivals
  exact ⟨arrived, f, ha, ho⟩

/-- What the program answers, some order of the moves answers to what arrives. -/
theorem meets_arrivals [Crowded σ] (hl : ∀ id, Loads J crashes P id (load id))
    (hcrowd : ∀ crowd s, J s → J (Crowded.setCrowd crowd s)) {s : σ} (hs : J s)
    (hd : config.deadline = none) (patience : Nat) :
    (Fetch.run load config none ids patience).Meets (.standing J) True
      (fun answer _ => ∃ arrived f, Arrivals load J (start config ids) arrived f ∧
        f.outcome = some answer) () :=
  (meets_mayAnswer hl hcrowd hs hd).mono id fun _ _ _ h => h.exists_arrivals

theorem meets_arrivals_ok [Crowded σ] (hl : ∀ id, Loads J crashes P id (load id))
    (hcrowd : ∀ crowd s, J s → J (Crowded.setCrowd crowd s)) {s : σ} (hs : J s)
    (cancelAfter : Option Nat) (patience : Nat) :
    (Fetch.run load config cancelAfter ids patience).Meets (.standing J) True
      (fun answer _ => ∀ g, answer = .ok g → ∃ arrived f,
        Arrivals load J (start config ids) arrived f ∧ f.outcome = some (.ok g)) () :=
  (meets_mayAnswer_ok hl hcrowd hs cancelAfter).mono id fun _ _ _ h g hg => (h g hg).exists_arrivals

end Fetch

/-! ## Shares -/

section

variable {τ : Type} [Crowded τ] [Nonempty τ]

/-- A listing of shares that fails fast: no order of the moves goes on for ever, in none does it get
stuck, and what it answers is settled by what arrives. The program answers what some order answers;
cancelled or bounded it still answers no values but those. With enough patience it does answer. -/
theorem fails_fast (service : Service τ) (session : Session) {config : ListerConfig}
    (hp : config.policy = .failFast) (ids : List String)
    {P : String → Except DriveError OpenShare → Prop}
    (hP : ∀ id, Loads (fun _ => True) True P id (session.share service id)) :
    (WellFounded fun g f : Fetch τ OpenShare =>
      ∃ jobs, Fetch.Step (session.share service) (fun _ => True) f jobs g) ∧
    (∀ arrived f, Fetch.Arrivals (session.share service) (fun _ => True) (.start config ids)
        arrived f → f.FailsFast (session.share service) (fun _ => True) P ids arrived) ∧
    (config.deadline = none → (session.fetchShares service config none ids).Meets
      (.standing fun _ => True) True
      (fun answer _ => ∃ arrived f, Fetch.Arrivals (session.share service) (fun _ => True)
        (.start config ids) arrived f ∧ f.outcome = some answer) ()) ∧
    (∀ cancelAfter, (session.fetchShares service config cancelAfter ids).Meets
      (.standing fun _ => True) True
      (fun answer _ => ∀ listing, answer = .ok listing → ∃ arrived f,
        Fetch.Arrivals (session.share service) (fun _ => True) (.start config ids) arrived f ∧
          f.outcome = some (.ok listing)) ()) ∧
    (config.deadline = none → Activity.Settles (fun _ => True) False
      (fun answer => ∃ arrived f, Fetch.Arrivals (session.share service) (fun _ => True)
        (.start config ids) arrived f ∧ f.outcome = some answer)
      fun patience => session.fetchShares service config none ids patience) ∧
    ∀ cancelAfter, Activity.Settles (fun _ => True) False
      (fun answer => ∀ listing, answer = .ok listing → ∃ arrived f,
        Fetch.Arrivals (session.share service) (fun _ => True) (.start config ids) arrived f ∧
          f.outcome = some (.ok listing))
      fun patience => session.fetchShares service config cancelAfter ids patience := by
  obtain ⟨server⟩ := ‹Nonempty τ›
  have hl : ∀ id, Loads (fun _ => True) True (fun id result => P id result ∧
      ∀ error, result = .error error → error.isOfLoad = true) id (session.share service id) :=
    fun id => (hP id).and (meets_share_isOfLoad service session id)
  have hcrowd : ∀ (_ : Crowd) (server : τ), True → True := fun _ _ => id
  refine ⟨Fetch.wellFounded_step _ _, fun arrived f ha => ha.failsFast hl (s := server) trivial hp,
    fun hd => ?_, fun cancelAfter => ?_, fun hd => ?_, fun cancelAfter => ?_⟩
  · exact Fetch.meets_arrivals hP hcrowd (s := server) trivial hd _
  · exact Fetch.meets_whileCancelling fun cancelAfter =>
      Fetch.meets_arrivals_ok hP hcrowd (s := server) trivial cancelAfter _
  · exact Fetch.settles_run (Fetch.meets_arrivals hP hcrowd (s := server) trivial hd)
  · exact Fetch.settles_whileCancelling hcrowd (fun cancelAfter => Fetch.settles_run
      (Fetch.meets_arrivals_ok hP hcrowd (s := server) trivial cancelAfter)) cancelAfter

end

namespace Pool

def hasty : ListerConfig := { maxWorkers := 2, policy := .failFast }

/-- One load fails before the other has ended. -/
def hastyActors : List Actor :=
  [.producer, .producer, .worker 0, .worker 1, .worker 0, .caller, .worker 1]

theorem play_hasty :
    (Fetch.play (session.share service) () hastyActors []
      (.start hasty ["share-a", "share-b"])).map
        (fun x => (x.2.outcome, x.2.results)) =
      some (some (.error (.api .unauthorized)), [(⟨1, "share-b"⟩, .error .cancelled)]) := by
  rfl

/-- The other load reports that it was cancelled, too late to become the answer. -/
theorem fails_fast_hasty :
    ∃ arrived f, Fetch.Arrivals (session.share service) (fun _ => True)
        (.start hasty ["share-a", "share-b"]) arrived f ∧
      f.outcome = some (.error (.api .unauthorized)) ∧
      f.results = [(⟨1, "share-b"⟩, .error .cancelled)] ∧
      ∃ job, IsFirst Fetch.Failing arrived (job, .error (.api .unauthorized)) := by
  obtain ⟨⟨log, f⟩, hplay, hf⟩ := Option.map_eq_some_iff.mp play_hasty
  obtain ⟨ho, hresults⟩ := Prod.mk.inj hf
  have hr : Fetch.Run (session.share service) (fun _ => True)
      (.start hasty ["share-a", "share-b"]) log f :=
    Fetch.Run.play trivial (.refl _) hplay
  obtain ⟨arrived, ha⟩ := hr.arrivals
  have hp : hasty.policy = .failFast := rfl
  obtain ⟨-, hall, -⟩ := fails_fast service session hp ["share-a", "share-b"] fun id =>
    Activity.meets_standing_true _
  refine ⟨arrived, f, ha, ho, hresults, ?_⟩
  cases (hall arrived f ha).verdict _ ho with
  | failed hfirst => exact ⟨_, hfirst⟩

end Pool

end SealedDrive
