import Mathlib.Logic.Relation
import SealedDrive.Proofs.Ending

/-!
No listing comes to a standstill, whatever its policy. The caller may leave at any time, because it
is cancelled, out of time or not waited for any more. Until it has its answer, only a load that has
not ended can keep everyone waiting; after that nobody waits for a load. Since every step also
brings the listing nearer to its end, the caller returns and everyone else goes, in whatever order
the steps come.
-/

namespace SealedDrive

variable {σ α : Type}

/-- Whether a worker is in a load that waits. -/
def Worker.isWaiting : Worker σ α → Bool
  | .waiting _ _ _ _ => true
  | _ => false

namespace Fetch

/-- What may happen next: anyone moves, a wait ends, or the caller leaves with an error. -/
inductive Next (load : String → Activity σ (Except DriveError α)) :
    Fetch σ α → Fetch σ α → Prop
  | step {f g : Fetch σ α} {jobs : List Job} : Step load (fun _ => True) f jobs g → Next load f g
  | leave {f : Fetch σ α} (error : DriveError) : f.outcome = none →
    Next load f (f.leave (.error error))

/-- The caller has returned, and the producer, all workers and the supervisor are gone. -/
structure IsOver (f : Fetch σ α) : Prop where
  returned : f.outcome ≠ none
  closed : f.closed = true
  gone : ∀ worker ∈ f.workers, worker.isGone = true
  ended : f.ended = true

/-- It comes to this in whatever order the steps come, and without anyone leaving. -/
inductive Inevitable (load : String → Activity σ (Except DriveError α))
    (goal : Fetch σ α → Prop) : Fetch σ α → Prop
  | here {f : Fetch σ α} : goal f → Inevitable load goal f
  | next {f : Fetch σ α} : (∃ jobs g, Step load (fun _ => True) f jobs g) →
    (∀ g, Next load f g → Inevitable load goal g) → Inevitable load goal f

variable {load : String → Activity σ (Except DriveError α)} {J : σ → Prop} {config : ListerConfig}
  {ids : List String} {f g : Fetch σ α} {jobs : List Job}

/-! ## Order -/

/-- What everyone relies on: the others are stopped exactly when the caller is gone, a job is held
out only beside a full queue, and the supervisor goes after all workers. -/
structure Orderly (f : Fetch σ α) : Prop where
  stopped : f.stopped = f.outcome.isSome
  offered : f.offered.isSome = true → f.queue ≠ []
  ended : f.ended = true → f.workers.length ≤ f.joined

theorem start_orderly (config : ListerConfig) (ids : List String) :
    (start config ids : Fetch σ α).Orderly where
  stopped := rfl
  offered h := by cases h
  ended h := by cases h

theorem Orderly.setWorker (hf : f.Orderly) (index : Nat) (worker : Worker σ α) :
    (Fetch.setWorker f index worker).Orderly :=
  { hf with ended := fun h => (length_setWorker f index worker).symm ▸ hf.ended h }

theorem Orderly.leave (hf : f.Orderly) (outcome : Except DriveError (Gathered α)) :
    (f.leave outcome).Orderly :=
  { hf with stopped := rfl }

theorem Orderly.collect (hf : f.Orderly) (job : Job) (result : Except DriveError α) :
    (f.collect job result).Orderly := by
  have hseen : Orderly { f with seen := f.seen ++ [job.position] } := { hf with }
  unfold Fetch.collect
  cases result with
  | ok value => exact { hseen with }
  | error error =>
    dsimp only
    split
    · exact hseen.leave _
    · exact { hseen with }

theorem Orderly.change (hf : f.Orderly) (h : Change load J f jobs g) : g.Orderly := by
  cases h with
  | abandon => exact { hf with offered := fun h => by cases h }
  | close => exact { hf with }
  | send _ ho _ => exact { hf with offered := fun h => by rw [ho] at h; cases h }
  | offer _ _ _ hq => exact { hf with offered := fun _ => hq }
  | @take index job rest _ _ _ =>
    have ht : Orderly { f with queue := rest ++ f.offered.toList, offered := none } :=
      { hf with offered := fun h => by cases h }
    exact ht.setWorker _ _
  | finish | crash | doze | wake => exact hf.setWorker _ _
  | @quit index =>
    have hq : (Fetch.setWorker f index .finished).Orderly := hf.setWorker index .finished
    exact { hq with }
  | @deliver index =>
    have hi : (Fetch.setWorker f index .idle).Orderly := hf.setWorker index .idle
    exact { hi with }
  | join => exact { hf with ended := fun h => Nat.le_succ_of_le (hf.ended h) }
  | conclude hle _ => exact { hf with ended := fun _ => hle }
  | @collect job result rest _ _ =>
    have hrest : Orderly { f with results := rest } := { hf with }
    exact hrest.collect job result
  | answer => exact hf.leave _

theorem Orderly.next (hf : f.Orderly) (h : Next load f g) : g.Orderly := by
  cases h with
  | step h => exact hf.change h.change
  | leave error _ => exact hf.leave _

theorem orderly_of_reach (h : Relation.ReflTransGen (Next load) (start config ids) f) :
    f.Orderly := by
  induction h with
  | refl => exact start_orderly config ids
  | tail _ hnext ih => exact ih.next hnext

/-! ## Nearer to the end -/

theorem Next.nearer (h : Next load f g) : Nearer g.distance f.distance := by
  cases h with
  | step h => exact h.change.nearer
  | leave error ho => exact nearer_of_chores rfl rfl (by simp [chores, ho, Fetch.leave])

theorem wellFounded_next (load : String → Activity σ (Except DriveError α)) :
    WellFounded fun g f : Fetch σ α => Next load f g :=
  Subrelation.wf (fun h => h.nearer) (InvImage.wf distance wellFounded_nearer)

/-! ## Somebody can move -/

/-- Whether an actor can move depends neither on its allowance nor on the state. -/
theorem isSome_move? (load : String → Activity σ (Except DriveError α)) (actor : Actor)
    (f : Fetch σ α) (left left' : Nat) (s s' : σ) :
    (f.move? load actor left s).isSome = (f.move? load actor left' s').isSome := by
  cases actor with
  | worker index =>
    simp only [move?, work?]
    split
    · rfl
    · rfl
    · rfl
    · split
      · rfl
      · split
        · rfl
        · split <;> rfl
    · split <;> rfl
    · split <;> rfl
  | producer | supervisor | caller => simp only [move?, Option.isSome_map]

/-- Until the caller has its answer, somebody can move, unless a load waits. -/
theorem Orderly.exists_move (hf : f.Orderly) (ho : f.outcome = none)
    (hwaits : ∀ worker ∈ f.workers, worker.isWaiting = false)
    (load : String → Activity σ (Except DriveError α)) (left : Nat) (s : σ) :
    ∃ actor, (f.move? load actor left s).isSome = true := by
  have hstopped : f.stopped = false := by rw [hf.stopped, ho]; rfl
  by_cases hgone : ∀ worker ∈ f.workers, worker.isGone = true
  · rcases step_of_gone ho hgone with h | h
    · exact ⟨.supervisor, by rwa [move?, Option.isSome_map]⟩
    · exact ⟨.caller, by rwa [move?, Option.isSome_map]⟩
  · push Not at hgone
    obtain ⟨worker, hm, hgone⟩ := hgone
    obtain ⟨index, hw⟩ := List.mem_iff_getElem?.mp hm
    rcases step_of_worker hstopped hf.offered load hw (by simpa using hgone) s with h | h | h
    · exact ⟨.worker index, isSome_move? load _ f left 0 s s ▸ h⟩
    · have hwait := hwaits worker hm
      unfold wake? at h
      rw [hw] at h
      cases worker with
      | waiting => cases hwait
      | _ => cases h
    · exact ⟨.producer, by rwa [move?, Option.isSome_map]⟩

/-- A worker that is not gone goes once the caller is gone, wherever its load is. -/
theorem work?_of_stopped (hstopped : f.stopped = true) {worker : Worker σ α} {index : Nat}
    (hw : f.workers[index]? = some worker) (hgone : worker.isGone = false)
    (load : String → Activity σ (Except DriveError α)) (left : Nat) (s : σ) :
    (f.move? load (.worker index) left s).isSome = true := by
  cases worker with
  | idle | loading | waiting => simp [move?, work?, hw, hstopped]
  | finished | panicked => cases hgone

/-- Once the caller is gone, somebody can move until everyone is. -/
theorem Orderly.over_or_move (hf : f.Orderly) (ho : f.outcome ≠ none)
    (load : String → Activity σ (Except DriveError α)) (left : Nat) (s : σ) :
    f.IsOver ∨ ∃ actor, (f.move? load actor left s).isSome = true := by
  have hstopped : f.stopped = true := by rw [hf.stopped, Option.isSome_iff_ne_none]; exact ho
  by_cases hgone : ∀ worker ∈ f.workers, worker.isGone = true
  · cases he : f.ended with
    | false =>
      refine .inr ⟨.supervisor, ?_⟩
      rw [move?, Option.isSome_map, supervise?]
      cases hw : f.workers[f.joined]? with
      | some worker => simp [hgone worker (List.mem_of_getElem? hw)]
      | none => simp [he]
    | true =>
      cases hc : f.closed with
      | false => exact .inr ⟨.producer, by simp [move?, produce?, hc, hstopped]⟩
      | true => exact .inl ⟨ho, hc, hgone, he⟩
  · push Not at hgone
    obtain ⟨worker, hm, hgone⟩ := hgone
    obtain ⟨index, hw⟩ := List.mem_iff_getElem?.mp hm
    exact .inr ⟨.worker index, work?_of_stopped hstopped hw (by simpa using hgone) load left s⟩

theorem step_of_move {actor : Actor} {left : Nat} {s : σ}
    (h : (f.move? load actor left s).isSome = true) :
    ∃ jobs g, Step load (fun _ => True) f jobs g :=
  ⟨_, _, .move trivial (Option.some_get h).symm⟩

/-- As long as not everyone is gone, somebody can go on. -/
theorem Orderly.over_or_step (hf : f.Orderly) (load : String → Activity σ (Except DriveError α))
    (s : σ) : f.IsOver ∨ ∃ jobs g, Step load (fun _ => True) f jobs g := by
  cases ho : f.outcome with
  | none =>
    have hstopped : f.stopped = false := by rw [hf.stopped, ho]; rfl
    exact .inr (exists_step hstopped hf.offered ho (s := s) trivial)
  | some answer =>
    refine (hf.over_or_move (by rw [ho]; exact Option.some_ne_none _) load 0 s).imp_right ?_
    rintro ⟨actor, h⟩
    exact step_of_move h

/-- When everyone is gone, nothing happens any more. -/
theorem IsOver.not_next (h : f.IsOver) (hf : f.Orderly) : ¬Next load f g := by
  have hgone : ∀ {index : Nat} {worker : Worker σ α}, f.workers[index]? = some worker →
      worker.isGone ≠ false := by
    intro index worker hw hgoes
    rw [h.gone worker (List.mem_of_getElem? hw)] at hgoes
    cases hgoes
  have hopen : f.closed ≠ false := by
    rw [h.closed]
    exact Bool.noConfusion
  rintro (hstep | ⟨_, ho⟩)
  · cases hstep.change with
    | abandon hc | close hc | send hc | offer hc => exact hopen hc
    | take hw | finish hw | deliver hw | crash hw | doze hw | wake hw => exact hgone hw rfl
    | quit _ hw hgoes => exact hgone hw hgoes
    | join hw _ =>
      have hlt := (List.getElem?_eq_some_iff.mp hw).1
      have hle := hf.ended h.ended
      omega
    | conclude _ he =>
      rw [h.ended] at he
      cases he
    | collect ho _ | answer ho => exact h.returned ho
  · exact h.returned ho

theorem Orderly.inevitable (hf : f.Orderly) (load : String → Activity σ (Except DriveError α))
    (s : σ) : Inevitable load IsOver f := by
  induction f using (wellFounded_next load).induction with
  | _ f ih =>
    rcases hf.over_or_step load s with hover | hstep
    · exact .here hover
    · exact .next hstep fun g hnext => ih g hnext (hf.next hnext)

/-! ## The end -/

/-- A listing that goes on to its end. -/
structure Proceeds (load : String → Activity σ (Except DriveError α)) (f : Fetch σ α) : Prop where
  underWay : f.outcome = none → (∀ worker ∈ f.workers, worker.isWaiting = false) →
    ∀ left s, ∃ actor, (f.move? load actor left s).isSome = true
  /-- After the caller has returned, nobody waits for a load. -/
  returned : f.outcome ≠ none →
    f.IsOver ∨ ∀ left s, ∃ actor, (f.move? load actor left s).isSome = true
  rests : f.IsOver ↔ ∀ g, ¬Next load f g
  ends : Inevitable load IsOver f

/-- In whatever order everyone moves, whichever loads crash and whenever the caller leaves: each
step brings the listing nearer to its end, nobody is stuck before the end, and the end comes. -/
theorem fetch_ends (load : String → Activity σ (Except DriveError α)) (config : ListerConfig)
    (ids : List String) (s : σ) :
    WellFounded (Nearer : _ → Nat × Multiset (Worker σ α) × Nat → Prop) ∧
    (∀ f g, Next load f g → Nearer g.distance f.distance) ∧
    ∀ f, Relation.ReflTransGen (Next load) (start config ids) f → f.Proceeds load := by
  refine ⟨wellFounded_nearer, fun f g => Next.nearer, fun f hreach => ?_⟩
  have hf := orderly_of_reach hreach
  refine ⟨fun ho hwaits => hf.exists_move ho hwaits load, fun ho => ?_, ?_,
    hf.inevitable load s⟩
  · by_cases hover : f.IsOver
    · exact .inl hover
    · exact .inr fun left s => (hf.over_or_move ho load left s).resolve_left hover
  · constructor
    · intro hover g
      exact hover.not_next hf
    · intro hnone
      refine (hf.over_or_step load s).resolve_right ?_
      rintro ⟨jobs, g, hstep⟩
      exact hnone g (.step hstep)

end Fetch
end SealedDrive
