import Mathlib.Logic.Hydra
import SealedDrive.Proofs.Accounts

/-!
Every listing comes to its end, whatever the settings and in whatever order the moves come. A move
takes a job out of the queue, brings one worker nearer to its next job, or does one of the chores of
which no move makes more without doing one of the others. And as long as the caller of a best-effort
listing has no answer, somebody can go on.
-/

namespace SealedDrive

variable {σ α : Type}

/-- What may become of a worker that takes no job. -/
inductive Worker.After : Worker σ α → Worker σ α → Prop
  | gone {worker worker' : Worker σ α} : worker.isGone = false → worker'.isGone = true →
    After worker' worker
  | delivered {job : Job} {rest : Activity σ (Except DriveError α)} :
    After .idle (.loading job rest)
  | dozed {job : Job} {rest next : Activity σ (Except DriveError α)} {left left' millis : Nat}
    {leave : Leaving → σ → σ} {s s' : σ} :
    rest.burst left s = (.waiting millis leave next, left', s') →
    After (.waiting job millis leave next) (.loading job rest)
  | woke {job : Job} {rest : Activity σ (Except DriveError α)} {millis : Nat}
    {leave : Leaving → σ → σ} : After (.loading job rest) (.waiting job millis leave rest)

namespace Worker

theorem acc_of_isGone {worker : Worker σ α} (h : worker.isGone = true) : Acc After worker := by
  refine .intro _ fun worker' ha => ?_
  cases ha with
  | gone hgoes _ => rw [h] at hgoes; cases hgoes
  | delivered | dozed | woke => cases h

theorem acc_idle : Acc After (.idle : Worker σ α) := by
  refine .intro _ fun worker' ha => ?_
  cases ha with
  | gone _ h => exact acc_of_isGone h

theorem acc_waiting {job : Job} {rest : Activity σ (Except DriveError α)}
    (h : Acc After (loading job rest)) (millis : Nat) (leave : Leaving → σ → σ) :
    Acc After (waiting job millis leave rest) := by
  refine .intro _ fun worker' ha => ?_
  cases ha with
  | gone _ h => exact acc_of_isGone h
  | woke => exact h

/-- A load ends if it ends from each of its waits. -/
theorem acc_loading {job : Job} {rest : Activity σ (Except DriveError α)}
    (h : ∀ {left s millis leave next left' s'},
      rest.burst left s = (.waiting millis leave next, left', s') →
        Acc After (loading job next)) :
    Acc After (loading job rest) := by
  refine .intro _ fun worker' ha => ?_
  cases ha with
  | gone _ h => exact acc_of_isGone h
  | delivered => exact acc_idle
  | dozed hb => exact acc_waiting (h hb) _ _

/-- What follows a wait is a part of the load. -/
theorem acc_of_burst {job : Job} {rest next : Activity σ (Except DriveError α)}
    {left left' millis : Nat} {leave : Leaving → σ → σ} {s s' : σ}
    (h : rest.burst left s = (.waiting millis leave next, left', s')) :
    Acc After (loading job next) := by
  induction rest generalizing left s next left' millis leave s' with
  | done => cases h
  | crash => cases h
  | read _ ih => exact ih _ h
  | write _ _ ih => exact ih h
  | allowance _ _ ih => exact ih _ h
  | wait _ _ _ ih =>
    cases h
    exact acc_loading ih

theorem wellFounded_after : WellFounded (After : Worker σ α → Worker σ α → Prop) := by
  refine ⟨fun worker => ?_⟩
  cases worker with
  | idle => exact acc_idle
  | loading => exact acc_loading acc_of_burst
  | waiting => exact acc_waiting (acc_loading acc_of_burst) _ _
  | finished => exact acc_of_isGone rfl
  | panicked => exact acc_of_isGone rfl

end Worker

namespace Fetch

variable {load : String → Activity σ (Except DriveError α)} {J : σ → Prop} {crashes : Prop}
  {P : String → Except DriveError α → Prop} {config : ListerConfig} {ids : List String}
  {f g : Fetch σ α} {log jobs : List Job}

/-! ## No endless runs -/

/-- What is left to do apart from the loads. -/
def chores (f : Fetch σ α) : Nat :=
  f.backlog.length + f.results.length + (f.workers.length - f.joined) + (!f.ended).toNat
    + (!f.closed).toNat + f.outcome.isNone.toNat

/-- How far a listing is from its end: jobs to be taken first, then the workers, then chores. -/
def distance (f : Fetch σ α) : Nat × Multiset (Worker σ α) × Nat :=
  (f.pending.length, f.workers, f.chores)

/-- Nearer to the end. -/
def Nearer : Nat × Multiset (Worker σ α) × Nat → Nat × Multiset (Worker σ α) × Nat → Prop :=
  Prod.Lex (· < ·) (Prod.Lex (Relation.CutExpand Worker.After) (· < ·))

theorem wellFounded_nearer :
    WellFounded (Nearer : _ → Nat × Multiset (Worker σ α) × Nat → Prop) :=
  Nat.lt_wfRel.wf.prod_lex (Worker.wellFounded_after.cutExpand.prod_lex Nat.lt_wfRel.wf)

theorem nearer_of_pending (h : g.pending.length < f.pending.length) :
    Nearer g.distance f.distance :=
  .left _ _ h

theorem nearer_of_chores (hp : g.pending.length = f.pending.length) (hw : g.workers = f.workers)
    (h : g.chores < f.chores) : Nearer g.distance f.distance := by
  unfold distance
  rw [hp, hw]
  exact .right _ (.right _ h)

theorem nearer_of_after (hp : g.pending.length = f.pending.length) {index : Nat}
    {worker worker' : Worker σ α} (hw : f.workers[index]? = some worker)
    (hg : g.workers = (f.setWorker index worker').workers) (h : worker'.After worker) :
    Nearer g.distance f.distance := by
  obtain ⟨others, hf, hf'⟩ := setWorker_perm hw
  have hcut : Relation.CutExpand Worker.After (g.workers : Multiset (Worker σ α)) f.workers := by
    rw [hg, Multiset.coe_eq_coe.mpr hf, Multiset.coe_eq_coe.mpr (hf' worker'),
      ← Multiset.cons_coe, ← Multiset.cons_coe, ← Multiset.singleton_add,
      ← Multiset.singleton_add]
    exact Relation.cutExpand_single_add h _
  unfold distance
  rw [hp]
  exact .right _ (.left _ _ hcut)

theorem Change.nearer (h : Change load J f jobs g) : Nearer g.distance f.distance := by
  cases h
  case abandon hc _ =>
    cases ho : f.offered with
    | some job => exact nearer_of_pending (by simp [pending, ho])
    | none => exact nearer_of_chores (by simp [pending, ho]) rfl (by simp [chores, hc])
  case close hc _ _ => exact nearer_of_chores rfl rfl (by simp [chores, hc])
  case send hc ho hb =>
    exact nearer_of_chores (by simp [pending, ho, hb]) rfl (by simp [chores, hb])
  case offer hc ho hb _ =>
    exact nearer_of_chores (by simp [pending, ho, hb]) rfl (by simp [chores, hb])
  case take hw _ hq => exact nearer_of_pending (by simp [pending, hq, Fetch.setWorker])
  case finish hw _ _ => exact nearer_of_after rfl hw rfl (.gone rfl rfl)
  case quit _ hw hgone => exact nearer_of_after rfl hw rfl (.gone hgone rfl)
  case deliver hw _ _ => exact nearer_of_after rfl hw rfl .delivered
  case crash hw _ _ => exact nearer_of_after rfl hw rfl (.gone rfl rfl)
  case doze hw _ hb => exact nearer_of_after rfl hw rfl (.dozed hb)
  case wake hw => exact nearer_of_after rfl hw rfl .woke
  case join hw _ =>
    have hlt := (List.getElem?_eq_some_iff.mp hw).1
    exact nearer_of_chores rfl rfl (by simp only [chores]; omega)
  case conclude he => exact nearer_of_chores rfl rfl (by simp [chores, he])
  case collect job result rest ho hr =>
    unfold Fetch.collect
    cases result with
    | ok value => exact nearer_of_chores rfl rfl (by simp [chores, hr])
    | error error =>
      dsimp only
      split
      · refine nearer_of_chores rfl rfl ?_
        simp only [chores, leave, hr, ho, List.length_cons, Option.isNone_none, Option.isNone_some,
          Bool.toNat_true, Bool.toNat_false]
        omega
      · exact nearer_of_chores rfl rfl (by simp [chores, hr])
  case answer ho _ _ => exact nearer_of_chores rfl rfl (by simp [chores, ho, leave])

/-- No order of the moves goes on for ever. -/
theorem wellFounded_step (load : String → Activity σ (Except DriveError α)) (J : σ → Prop) :
    WellFounded fun g f : Fetch σ α => ∃ jobs, Step load J f jobs g :=
  Subrelation.wf (fun ⟨_, h⟩ => h.change.nearer) (InvImage.wf distance wellFounded_nearer)

/-! ## No standstill -/

/-- A worker that is not gone can go on, or else the producer can. -/
theorem step_of_worker (hstopped : f.stopped = false)
    (hoffered : f.offered.isSome = true → f.queue ≠ [])
    (load : String → Activity σ (Except DriveError α)) {worker : Worker σ α} {index : Nat}
    (hw : f.workers[index]? = some worker) (hgone : worker.isGone = false) (s : σ) :
    (f.move? load (.worker index) 0 s).isSome = true ∨ (f.wake? index).isSome = true ∨
      f.produce?.isSome = true := by
  cases worker with
  | idle =>
    cases hq : f.queue with
    | cons job rest => exact .inl (by simp [move?, work?, hw, hstopped, takeJob?, hq])
    | nil =>
      cases hc : f.closed with
      | true => exact .inl (by simp [move?, work?, hw, hstopped, takeJob?, hq, hc])
      | false =>
        have ho : f.offered = none := by
          by_contra hsome
          exact hoffered (Option.isSome_iff_ne_none.mpr hsome) hq
        refine .inr (.inr ?_)
        unfold Fetch.produce?
        rw [hc, ho]
        split
        · contradiction
        split
        · rfl
        · cases hb : f.backlog with
          | nil => rfl
          | cons => dsimp only; split <;> rfl
  | loading => exact .inl (by simp [move?, work?, hw, hstopped])
  | waiting => exact .inr (.inl (by simp [wake?, hw]))
  | finished | panicked => cases hgone

/-- When all workers are gone, the supervisor can go on, or else the caller can. -/
theorem step_of_gone (ho : f.outcome = none) (hgone : ∀ worker ∈ f.workers, worker.isGone = true) :
    f.supervise?.isSome = true ∨ f.call?.isSome = true := by
  cases hw : f.workers[f.joined]? with
  | some worker =>
    exact .inl (by simp [supervise?, hw, hgone worker (List.mem_of_getElem? hw)])
  | none =>
    cases he : f.ended with
    | false => exact .inl (by simp [supervise?, hw, he])
    | true =>
      refine .inr ?_
      unfold Fetch.call?
      rw [ho, he]
      cases f.results <;> rfl

/-- Until the caller has its answer, somebody can go on. -/
theorem exists_step (hstopped : f.stopped = false)
    (hoffered : f.offered.isSome = true → f.queue ≠ []) (ho : f.outcome = none) {s : σ} (hs : J s) :
    ∃ jobs g, Step load J f jobs g := by
  have hmove : ∀ actor, (f.move? load actor 0 s).isSome = true → ∃ jobs g, Step load J f jobs g :=
    fun actor h => ⟨_, _, .move hs (Option.some_get h).symm⟩
  by_cases hgone : ∀ worker ∈ f.workers, worker.isGone = true
  · rcases step_of_gone ho hgone with h | h
    · exact hmove .supervisor (by rwa [move?, Option.isSome_map])
    · exact hmove .caller (by rwa [move?, Option.isSome_map])
  · push Not at hgone
    obtain ⟨worker, hm, hgone⟩ := hgone
    obtain ⟨index, hw⟩ := List.mem_iff_getElem?.mp hm
    rcases step_of_worker hstopped hoffered load hw (by simpa using hgone) s with h | h | h
    · exact hmove _ h
    · exact ⟨_, _, .wake (Option.some_get h).symm⟩
    · exact hmove .producer (by rwa [move?, Option.isSome_map])

theorem Going.step (hf : f.Going J crashes P config ids log) {s : σ} (hs : J s) :
    ∃ jobs g, Step load J f jobs g :=
  exists_step hf.attended.stopped hf.queued.offered hf.attended.outcome hs

end Fetch
end SealedDrive
