import SealedDrive.Proofs.Passers
import SealedDrive.Proofs.Standstill

/-!
Nobody is left out of the line. Until the caller has its answer, everyone who could go on stands in
line or is asleep, but for the workers that the next turn of the producer calls. A turn keeps this:
it ends where the actor cannot move or has to give way, and whoever it lets go on is called.
-/

namespace SealedDrive

variable {ι σ α : Type}

/-! ## Lines -/

namespace Line

/-- Everyone in a line, ready or asleep. -/
def everyone (l : Line ι) : List ι := l.ready ++ l.asleep.map (·.2)

theorem everyone_join (i : ι) (l : Line ι) : (l.join i).everyone.Perm (i :: l.everyone) := by
  simp only [everyone, join, List.append_assoc, List.singleton_append]
  exact List.perm_middle

theorem everyone_doze (millis : Nat) (i : ι) (l : Line ι) :
    (l.doze millis i).everyone.Perm (i :: l.everyone) := by
  simp only [everyone, doze, List.map_append, List.map_cons, List.map_nil, ← List.append_assoc]
  exact List.perm_append_singleton i _

theorem everyone_elapse (millis : Nat) (l : Line ι) :
    (l.elapse millis).everyone.Perm l.everyone := by
  have hsplit := (List.filter_append_perm (fun x : Nat × ι => x.1 ≤ millis) l.asleep).map (·.2)
  simp only [elapse, everyone, List.partition_eq_filter_filter, List.map_map, List.append_assoc]
  refine List.Perm.append_left _ (List.Perm.trans ?_ (List.map_append ▸ hsplit))
  refine List.Perm.append ?_ (List.Perm.of_eq ?_)
  · split
    · exact (List.reverse_perm _).map _
    · exact .refl _
  · simp [Function.comp_def]

/-- Unless the line is empty, somebody stands ready after the pause. -/
theorem ready_elapse_pause (l : Line ι) (h : l.everyone ≠ []) : (l.elapse l.pause).ready ≠ [] := by
  unfold pause elapse
  simp only [List.partition_eq_filter_filter]
  cases hready : l.ready with
  | cons i rest => simp
  | nil =>
    have hasleep : l.asleep.map (·.1) ≠ [] := by
      intro hnil
      exact h (by simp [everyone, hready, List.map_eq_nil_iff.mp hnil])
    obtain ⟨first, hfirst⟩ := Option.isSome_iff_exists.mp (List.isSome_min?_of_ne_nil hasleep)
    obtain ⟨entry, hm, he⟩ := List.mem_map.mp (List.min?_mem hfirst)
    have hwoken : entry ∈ l.asleep.filter fun x => x.1 ≤ first :=
      List.mem_filter.mpr ⟨hm, by simp [he]⟩
    simp only [List.isEmpty_nil, if_true, hfirst, Option.getD_some, List.nil_append, ne_eq,
      List.map_eq_nil_iff]
    split
    · simpa using List.ne_nil_of_mem hwoken
    · exact List.ne_nil_of_mem hwoken

end Line

namespace Fetch

variable {load : String → Activity σ (Except DriveError α)} {f g : Fetch σ α} {actor : Actor}
  {index left left' : Nat} {s s' : σ}

/-! ## Moves of one actor -/

/-- What the producer may change. -/
def Produced (f g : Fetch σ α) : Prop :=
  ∃ backlog queue offered closed, g = { f with backlog, queue, offered, closed }

/-- What the supervisor may change. -/
def Supervised (f g : Fetch σ α) : Prop := ∃ joined ended, g = { f with joined, ended }

/-- What the caller may change before it has its answer. -/
def Collected (f g : Fetch σ α) : Prop :=
  ∃ results gathered seen, g = { f with results, gathered, seen }

/-- What one worker may change. It puts nothing into an empty queue, and holds out no job. -/
structure Worked (index : Nat) (f g : Fetch σ α) : Prop where
  others : ∀ other, other ≠ index → g.workers[other]? = f.workers[other]?
  length_eq : g.workers.length = f.workers.length
  closed : g.closed = f.closed
  joined : g.joined = f.joined
  ended : g.ended = f.ended
  outcome : g.outcome = f.outcome
  queue : f.queue = [] → g.queue = []
  offered : f.offered = none → g.offered = none

theorem Worked.refl (index : Nat) (f : Fetch σ α) : f.Worked index f :=
  ⟨fun _ _ => rfl, rfl, rfl, rfl, rfl, rfl, fun h => h, fun h => h⟩

theorem Worked.trans {h : Fetch σ α} (hg : f.Worked index g) (hh : g.Worked index h) :
    f.Worked index h where
  others other hne := (hh.others other hne).trans (hg.others other hne)
  length_eq := hh.length_eq.trans hg.length_eq
  closed := hh.closed.trans hg.closed
  joined := hh.joined.trans hg.joined
  ended := hh.ended.trans hg.ended
  outcome := hh.outcome.trans hg.outcome
  queue hq := hh.queue (hg.queue hq)
  offered ho := hh.offered (hg.offered ho)

theorem worked_setWorker (f : Fetch σ α) (index : Nat) (worker : Worker σ α) :
    f.Worked index (f.setWorker index worker) :=
  { Worked.refl index f with
    others := fun _ hne => List.getElem?_set_ne hne.symm
    length_eq := length_setWorker f index worker }

theorem worked_of_work? (h : f.work? load index left s = some (g, left', s')) :
    f.Worked index g := by
  unfold Fetch.work? at h
  split at h
  · cases h
  · cases h
  · cases h
  · split at h
    · cases h
      exact { worked_setWorker f index .finished with }
    · cases hq : f.queue with
      | nil =>
        simp only [takeJob?, hq] at h
        split at h
        · cases h
          exact worked_setWorker f index .finished
        · cases h
      | cons job rest =>
        simp only [takeJob?, hq] at h
        cases h
        exact { worked_setWorker f index _ with
          queue := fun hnil => by rw [hq] at hnil; cases hnil
          offered := fun _ => rfl }
  · split at h
    · cases h
      exact { worked_setWorker f index .finished with }
    · unfold Fetch.advance at h
      split at h
      · cases h
        exact { worked_setWorker f index .idle with }
      · cases h
        exact worked_setWorker f index _
      · cases h
        exact worked_setWorker f index _
  · split at h
    · cases h
      exact { worked_setWorker f index .finished with }
    · cases h

theorem produced_of_produce? (h : f.produce? = some g) : f.Produced g := by
  unfold Fetch.produce? at h
  split at h
  · cases h
  split at h
  · cases h
    exact ⟨_, _, _, _, rfl⟩
  split at h
  · cases h
  · cases h
    exact ⟨_, _, _, _, rfl⟩
  · split at h
    · cases h
      exact ⟨_, _, _, _, rfl⟩
    · cases h
      exact ⟨_, _, _, _, rfl⟩

theorem supervised_of_supervise? (h : f.supervise? = some g) : f.Supervised g := by
  unfold Fetch.supervise? at h
  split at h
  · split at h
    · cases h
      exact ⟨_, _, rfl⟩
    · cases h
  · split at h
    · cases h
    · cases h
      exact ⟨_, _, rfl⟩

theorem collected_of_call? (h : f.call? = some g) (ho : g.outcome = none) : f.Collected g := by
  unfold Fetch.call? at h
  split at h
  · cases h
  split at h
  · next job result rest hr =>
    cases h
    unfold Fetch.collect at ho ⊢
    cases result with
    | ok value => exact ⟨_, _, _, rfl⟩
    | error error =>
      dsimp only at ho ⊢
      split
      · next hp =>
        simp only [hp] at ho
        cases ho
      · exact ⟨_, _, _, rfl⟩
  · split at h
    · cases h
      cases ho
    · cases h

/-- What every move of an actor keeps is kept by its turn. -/
theorem movesFor_keeps {I : Fetch σ α → Prop}
    (hk : ∀ {f g : Fetch σ α} {left left' : Nat} {s s' : σ}, I f →
      f.move? load actor left s = some (g, left', s') → I g)
    (hf : I f) (fuel left : Nat) (s : σ) : I (movesFor load actor fuel f left s).2.1 := by
  induction fuel generalizing f left s with
  | zero => exact hf
  | succ fuel ih =>
    unfold movesFor
    split
    · exact hf
    split
    · exact hf
    · next hm => exact ih (hk hf hm) _ _

theorem produced_movesFor (fuel left : Nat) (f : Fetch σ α) (s : σ) :
    f.Produced (movesFor load .producer fuel f left s).2.1 := by
  refine movesFor_keeps (I := f.Produced) (fun {g h left left' s s'} hg hm => ?_)
    ⟨_, _, _, _, rfl⟩ fuel left s
  obtain ⟨h, hp, he⟩ := Option.map_eq_some_iff.mp hm
  cases he
  obtain ⟨_, _, _, _, rfl⟩ := hg
  obtain ⟨_, _, _, _, rfl⟩ := produced_of_produce? hp
  exact ⟨_, _, _, _, rfl⟩

theorem supervised_movesFor (fuel left : Nat) (f : Fetch σ α) (s : σ) :
    f.Supervised (movesFor load .supervisor fuel f left s).2.1 := by
  refine movesFor_keeps (I := f.Supervised) (fun {g h left left' s s'} hg hm => ?_)
    ⟨_, _, rfl⟩ fuel left s
  obtain ⟨h, hp, he⟩ := Option.map_eq_some_iff.mp hm
  cases he
  obtain ⟨_, _, rfl⟩ := hg
  obtain ⟨_, _, rfl⟩ := supervised_of_supervise? hp
  exact ⟨_, _, rfl⟩

theorem worked_movesFor (index fuel left : Nat) (f : Fetch σ α) (s : σ) :
    f.Worked index (movesFor load (.worker index) fuel f left s).2.1 := by
  refine movesFor_keeps (I := f.Worked index) (fun hg hm => ?_) (.refl index f) fuel left s
  exact hg.trans (worked_of_work? hm)

/-! ## The end of a turn -/

/-- Fewer steps remain after a worker has become another. -/
theorem remaining_setWorker {worker : Worker σ α} (hw : f.workers[index]? = some worker)
    (worker' : Worker σ α) :
    (f.setWorker index worker').remaining + worker.remaining =
      f.remaining + worker'.remaining := by
  obtain ⟨others, hf, hf'⟩ := setWorker_perm hw
  have hsum (workers : List (Worker σ α)) :
      workers.foldr (fun worker n => worker.remaining + n) 0 =
        (workers.map Worker.remaining).sum := by
    induction workers with
    | nil => rfl
    | cons worker rest ih => simp [ih]
  have hbefore := (hf.map Worker.remaining).sum_eq
  have hafter := ((hf' worker').map Worker.remaining).sum_eq
  simp only [List.map_cons, List.sum_cons, ← hsum] at hbefore hafter
  unfold Fetch.remaining
  rw [length_setWorker, hafter, hbefore]
  show _ + _ + (f.workers.length - f.joined) + (if f.ended then 0 else 1) +
    (if f.closed then 0 else 1) + _ = _
  dsimp only [Fetch.setWorker]
  omega

theorem remaining_setWorker_lt {worker worker' : Worker σ α}
    (hw : f.workers[index]? = some worker) (h : worker'.remaining < worker.remaining) :
    (f.setWorker index worker').remaining < f.remaining := by
  have hset := remaining_setWorker hw worker'
  omega

theorem remaining_quit_lt {worker : Worker σ α} (hw : f.workers[index]? = some worker)
    (h : worker.isGone = false) : (f.quit index worker).remaining < f.remaining := by
  have hlt : (f.setWorker index .finished).remaining < f.remaining := by
    refine remaining_setWorker_lt hw ?_
    cases worker with
    | finished | panicked => cases h
    | _ => simp [Worker.remaining]
  exact hlt

theorem remaining_lt_of_work? (h : f.work? load index left s = some (g, left', s')) :
    g.remaining < f.remaining := by
  unfold Fetch.work? at h
  split at h
  · cases h
  · cases h
  · cases h
  · next hw =>
    split at h
    · cases h
      exact remaining_quit_lt hw rfl
    · cases hq : f.queue with
      | nil =>
        simp only [takeJob?, hq] at h
        split at h
        · cases h
          exact remaining_setWorker_lt hw (Nat.zero_lt_one)
        · cases h
      | cons job rest =>
        simp only [takeJob?, hq] at h
        cases h
        -- the job that is taken counts for more than the worker that has it
        have hset := remaining_setWorker
          (f := { f with queue := rest ++ f.offered.toList, offered := none }) hw
          (.loading job (load job.id))
        have htaken : Fetch.remaining
            { f with queue := rest ++ f.offered.toList, offered := none } + 3 = f.remaining := by
          simp [Fetch.remaining, hq]
          omega
        simp only [Worker.remaining] at hset
        omega
  · next hw =>
    split at h
    · cases h
      exact remaining_quit_lt hw rfl
    · unfold Fetch.advance at h
      split at h
      · cases h
        have hlt : (f.setWorker index .idle).remaining < f.remaining :=
          remaining_setWorker_lt hw (Nat.lt_succ_self 1)
        exact hlt
      · cases h
        exact remaining_setWorker_lt hw (Nat.zero_lt_succ 1)
      · cases h
        exact remaining_setWorker_lt hw (Nat.lt_succ_self 1)
  · next hw =>
    split at h
    · cases h
      exact remaining_quit_lt hw rfl
    · cases h

theorem remaining_lt_of_produce? (h : f.produce? = some g) : g.remaining < f.remaining := by
  unfold Fetch.produce? at h
  split at h
  · cases h
  next hc =>
  have hopen : (if f.closed = true then 0 else 1) = 1 := if_neg hc
  unfold Fetch.remaining
  split at h
  · cases h
    simp only [hopen, if_true, Option.toList_none, List.length_nil]
    omega
  split at h
  · cases h
  · cases h
    simp only [hopen, if_true]
    omega
  · next hb =>
    split at h
    · cases h
      simp only [hopen, hb, List.length_cons, List.length_append, List.length_nil]
      omega
    · cases h
      simp only [hopen, hb, Option.toList_some, List.length_cons, List.length_nil]
      omega

theorem remaining_lt (ha : actor ≠ .caller)
    (h : f.move? load actor left s = some (g, left', s')) :
    g.remaining < f.remaining := by
  cases actor with
  | caller => exact absurd rfl ha
  | worker index => exact remaining_lt_of_work? h
  | producer =>
    obtain ⟨g, hp, he⟩ := Option.map_eq_some_iff.mp h
    cases he
    exact remaining_lt_of_produce? hp
  | supervisor =>
    obtain ⟨g, hp, he⟩ := Option.map_eq_some_iff.mp h
    cases he
    unfold Fetch.supervise? at hp
    split at hp
    · next hw =>
      have hlt := (List.getElem?_eq_some_iff.mp hw).1
      split at hp
      · cases hp
        simp only [Fetch.remaining]
        omega
      · cases hp
    · split at hp
      · cases hp
      · next he =>
        cases hp
        simp [Fetch.remaining, he]

/-- A turn ends because its allowance is used up, or because the actor cannot move. -/
theorem movesFor_stops (load : String → Activity σ (Except DriveError α)) {actor : Actor}
    (ha : actor ≠ .caller) {fuel : Nat} (h : f.remaining ≤ fuel) (left : Nat) (s : σ) :
    (movesFor load actor fuel f left s).1 = true ∧
        (∃ left', (movesFor load actor fuel f left s).2.1.isSpent actor left' = true) ∨
      (movesFor load actor fuel f left s).1 = false ∧
        ∃ left' s', (movesFor load actor fuel f left s).2.1.move? load actor left' s' = none := by
  induction fuel generalizing f left s with
  | zero =>
    have hnone : f.move? load actor left s = none := by
      by_contra hmoves
      obtain ⟨⟨g, left', s'⟩, hm⟩ := Option.ne_none_iff_exists'.mp hmoves
      have hlt := remaining_lt ha hm
      omega
    exact .inr ⟨rfl, left, s, hnone⟩
  | succ fuel ih =>
    unfold movesFor
    split
    · next hspent => exact .inl ⟨rfl, left, hspent⟩
    split
    · next hnone => exact .inr ⟨rfl, left, s, hnone⟩
    · next hm =>
      have hlt := remaining_lt ha hm
      exact ih (by omega) _ _

theorem Orderly.movesFor (hf : f.Orderly) (actor : Actor) (fuel left : Nat) (s : σ) :
    (Fetch.movesFor load actor fuel f left s).2.1.Orderly :=
  movesFor_keeps (fun {g _ _ _ _ _} (hg : g.Orderly) hm =>
    hg.change (Step.move (J := fun _ => True) trivial hm).change) hf fuel left s

/-! ## Nobody is left out -/

namespace Lineup

variable {l : Lineup}

/-- Whether an actor is in line, ready or asleep. -/
def Has (actor : Actor) (l : Lineup) : Prop := Stander.member actor ∈ l.line.everyone

theorem Has.grows {l' : Lineup} (h : l.Has actor) (hg : l.line.Grows l'.line) : l'.Has actor := by
  rcases List.mem_append.mp h with h | h
  · exact List.mem_append_left _ (hg.ready h)
  · obtain ⟨entry, hm, he⟩ := List.mem_map.mp h
    exact List.mem_append_right _ (List.mem_map.mpr ⟨entry, hg.asleep hm, he⟩)

theorem has_join (actor : Actor) (l : Lineup) : (l.join actor).Has actor := by
  unfold Lineup.join
  split
  · next hin =>
    rcases Bool.or_eq_true_iff.mp hin with hready | hasleep
    · exact List.mem_append_left _ (List.contains_iff_mem.mp hready)
    · obtain ⟨entry, hm, he⟩ := List.any_eq_true.mp hasleep
      exact List.mem_append_right _ (List.mem_map.mpr ⟨entry, hm, of_decide_eq_true he⟩)
  · exact (Line.everyone_join _ _).mem_iff.mpr List.mem_cons_self

theorem has_doze (millis : Nat) (actor : Actor) (l : Lineup) : (l.doze millis actor).Has actor :=
  (Line.everyone_doze _ _ _).mem_iff.mpr List.mem_cons_self

theorem idle_join (actor : Actor) (l : Lineup) : (l.join actor).idle = l.idle := by
  unfold Lineup.join
  split <;> rfl

theorem idle_seat (f : Fetch σ α) (index : Nat) (l : Lineup) : l.idle ⊆ (l.seat f index).idle := by
  unfold Lineup.seat
  split
  · exact List.subset_append_left _ _
  · exact fun _ h => h
  · dsimp only
    split <;> split <;> simp [idle_join]

/-- Whoever joins brings nobody else into line. -/
theorem has_of_join {other : Actor} (h : (l.join other).Has actor) :
    l.Has actor ∨ actor = other := by
  unfold Lineup.join at h
  split at h
  · exact .inl h
  · rcases List.mem_cons.mp ((Line.everyone_join _ _).mem_iff.mp h) with he | h
    · exact .inr (Stander.member.inj he)
    · exact .inl h

theorem has_of_doze {other : Actor} {millis : Nat} (h : (l.doze millis other).Has actor) :
    l.Has actor ∨ actor = other := by
  rcases List.mem_cons.mp ((Line.everyone_doze _ _ _).mem_iff.mp h) with he | h
  · exact .inr (Stander.member.inj he)
  · exact .inl h

theorem not_has_caller_join {other : Actor} (hne : other ≠ .caller) (h : ¬l.Has .caller) :
    ¬(l.join other).Has .caller :=
  fun hhas => (has_of_join hhas).elim h fun he => hne he.symm

theorem not_has_caller_doze {other : Actor} (hne : other ≠ .caller) (h : ¬l.Has .caller)
    (millis : Nat) : ¬(l.doze millis other).Has .caller :=
  fun hhas => (has_of_doze hhas).elim h fun he => hne he.symm

theorem not_has_caller_seat (h : ¬l.Has .caller) (f : Fetch σ α) (index : Nat) :
    ¬(l.seat f index).Has .caller := by
  unfold Lineup.seat
  split
  · exact h
  · exact not_has_caller_doze (by simp) h _
  · dsimp only
    split <;> split
    · exact not_has_caller_join (by simp) (not_has_caller_join (by simp) h)
    · exact not_has_caller_join (by simp) h
    · exact not_has_caller_join (by simp) h
    · exact h

/-- In its turn the producer calls all workers that wait for a job. -/
theorem everyone_afterTurn_producer (isSpent : Bool) (f g : Fetch σ α) (l : Lineup) :
    (l.afterTurn .producer isSpent f g).line.everyone.Perm
      (l.idle.map (.member ∘ .worker) ++ l.line.everyone) := by
  unfold Lineup.afterTurn Line.everyone
  rw [List.append_assoc]
  exact List.perm_append_comm_assoc _ _ _

/-- The turn of another does not bring the caller into line. -/
theorem not_has_caller_afterTurn (hne : actor ≠ .caller) (h : ¬l.Has .caller) (isSpent : Bool)
    (f g : Fetch σ α) : ¬(l.afterTurn actor isSpent f g).Has .caller := by
  cases actor with
  | caller => exact absurd rfl hne
  | producer =>
    intro hhas
    have hin := (everyone_afterTurn_producer isSpent f g l).mem_iff.mp hhas
    rcases List.mem_append.mp hin with hcalled | hstays
    · simp at hcalled
    · exact h hstays
  | supervisor =>
    simp only [Lineup.afterTurn]
    split
    · exact not_has_caller_doze (by simp) h _
    · exact h
  | worker index =>
    have hcalled : ¬(if f.offered.isSome && g.offered.isNone then l.join .producer
        else l).Has .caller := by
      split
      · exact not_has_caller_join (by simp) h
      · exact h
    simp only [Lineup.afterTurn]
    split
    · exact not_has_caller_doze (by simp) hcalled _
    · exact not_has_caller_seat hcalled g index

end Lineup

/-- A listing without an answer in which nobody who can go on is left out of the line. -/
structure Manned (f : Fetch σ α) (l : Lineup) : Prop where
  orderly : f.Orderly
  outcome : f.outcome = none
  /-- A worker that is out of line waits for a job, and gets into line after the producer's turn. -/
  workers : ∀ {index : Nat} {worker : Worker σ α}, f.workers[index]? = some worker →
    worker.isGone = false → l.Has (.worker index) ∨
      worker = .idle ∧ index ∈ l.idle ∧ f.queue = [] ∧ f.closed = false
  producer : f.produce?.isSome = true → l.Has .producer
  supervisor : f.supervise?.isSome = true → l.Has .supervisor
  /-- The caller has its turns between the rounds. -/
  caller : ¬l.Has .caller

theorem isSome_produce?_iff (hstopped : f.stopped = false) :
    f.produce?.isSome = true ↔
      f.closed = false ∧ (f.workers.all (·.isGone) = true ∨ f.offered = none) := by
  unfold Fetch.produce?
  rw [hstopped]
  cases f.closed with
  | true => simp
  | false =>
    cases f.workers.all (·.isGone) with
    | true => simp
    | false =>
      cases f.offered with
      | some job => simp
      | none =>
        cases f.backlog with
        | nil => simp
        | cons job rest =>
          simp only [Bool.false_eq_true, if_false, Bool.or_false]
          split <;> simp

theorem isSome_supervise?_iff : f.supervise?.isSome = true ↔
    (∃ worker, f.workers[f.joined]? = some worker ∧ worker.isGone = true) ∨
      f.workers[f.joined]? = none ∧ f.ended = false := by
  unfold Fetch.supervise?
  cases f.workers[f.joined]? with
  | none => cases f.ended <;> simp
  | some worker => cases hw : worker.isGone <;> simp [hw]

theorem start_manned (config : ListerConfig) (ids : List String) (crowd : Crowd) :
    (start config ids : Fetch σ α).Manned
      (.start crowd (start config ids : Fetch σ α).workers.length) := by
  have hhas : ∀ {actor : Actor},
      actor ∈ Lineup.newcomers (start config ids : Fetch σ α).workers.length →
      (Lineup.start crowd (start config ids : Fetch σ α).workers.length).Has actor := fun hm =>
    List.mem_append_left _ (List.mem_append_left _
      (List.mem_append_right _ (List.mem_map_of_mem hm)))
  refine ⟨start_orderly config ids, rfl, fun hw _ => .inl (hhas ?_), fun _ => hhas ?_,
    fun _ => hhas ?_, fun hcaller => ?_⟩
  · have hlt := (List.getElem?_eq_some_iff.mp hw).1
    exact List.mem_append_left _ (List.mem_cons_of_mem _
      (List.mem_map_of_mem (List.mem_range.mpr hlt)))
  · exact List.mem_append_left _ List.mem_cons_self
  · exact List.mem_append_right _ (List.mem_singleton_self _)
  · simp [Lineup.Has, Lineup.start, Line.everyone, Crowd.joinedBy, Lineup.newcomers] at hcaller

variable {l l' : Lineup}

theorem Manned.stopped (hf : f.Manned l) : f.stopped = false := by
  rw [hf.orderly.stopped, hf.outcome]
  rfl

/-- Nobody who was in line is sent away. -/
theorem Manned.grows (hf : f.Manned l) (hg : l.line.Grows l'.line) (hidle : l.idle ⊆ l'.idle)
    (hcaller : ¬l'.Has .caller) : f.Manned l' :=
  { hf with
    workers := fun hw hgone => (hf.workers hw hgone).imp (·.grows hg)
      fun ⟨hi, hm, hrest⟩ => ⟨hi, hidle hm, hrest⟩
    producer := fun h => (hf.producer h).grows hg
    supervisor := fun h => (hf.supervisor h).grows hg
    caller := hcaller }

/-- The same people in another order. -/
theorem Manned.perm (hf : f.Manned l) (hp : l'.line.everyone.Perm l.line.everyone)
    (hidle : l'.idle = l.idle) : f.Manned l' := by
  have hhas : ∀ {actor : Actor}, l'.Has actor ↔ l.Has actor := hp.mem_iff
  exact
    { hf with
      workers := fun hw hgone => (hf.workers hw hgone).imp hhas.mpr fun h => hidle ▸ h
      producer := fun h => hhas.mpr (hf.producer h)
      supervisor := fun h => hhas.mpr (hf.supervisor h)
      caller := fun h => hf.caller (hhas.mp h) }

/-- The caller takes in what came, and has no answer yet. -/
theorem Manned.collected (hf : f.Manned l) (hg : f.Collected g) (hord : g.Orderly) :
    g.Manned l := by
  obtain ⟨results, gathered, seen, rfl⟩ := hg
  refine ⟨hord, hf.outcome, hf.workers, fun h => ?_, fun h => ?_, hf.caller⟩
  · have hmoves := (isSome_produce?_iff (by exact hf.stopped)).mp h
    exact hf.producer ((isSome_produce?_iff hf.stopped).mpr hmoves)
  · have hmoves := isSome_supervise?_iff.mp h
    exact hf.supervisor (isSome_supervise?_iff.mpr hmoves)

/-- All but the first in line. -/
def Lineup.tail (l : Lineup) : Lineup :=
  { l with line := { l.line with ready := l.line.ready.tail } }

section

variable {first : Stander Actor} {rest : List (Stander Actor)}

theorem Lineup.Has.tail (h : l.Has actor) (hready : l.line.ready = first :: rest)
    (hne : first ≠ .member actor) : l.tail.Has actor := by
  unfold Lineup.Has Line.everyone at h
  rw [hready, List.cons_append, List.mem_cons] at h
  unfold Lineup.Has Lineup.tail Line.everyone
  rw [hready]
  exact h.resolve_left fun he => hne he.symm

theorem Lineup.has_of_tail (h : l.tail.Has actor) : l.Has actor := by
  rcases List.mem_append.mp h with h | h
  · exact List.mem_append_left _ (List.mem_of_mem_tail h)
  · exact List.mem_append_right _ h

/-- The caller is not among those that are left either. -/
theorem Manned.not_has_caller_tail (hf : f.Manned l) : ¬l.tail.Has .caller :=
  fun h => hf.caller (Lineup.has_of_tail h)

/-- After the turn of a passer. -/
theorem Manned.afterPasser {waits : Passer} (hf : f.Manned l)
    (hready : l.line.ready = .passer waits :: rest) :
    f.Manned { l.tail with line := waits.pass .passer l.tail.line } := by
  have htail : f.Manned l.tail :=
    { hf with
      workers := fun hw hgone => (hf.workers hw hgone).imp_left (·.tail hready (by simp))
      producer := fun h => (hf.producer h).tail hready (by simp)
      supervisor := fun h => (hf.supervisor h).tail hready (by simp)
      caller := hf.not_has_caller_tail }
  refine htail.grows (l.tail.line.grows_pass _ _) (fun _ h => h) ?_
  cases waits with
  | nil => exact htail.caller
  | cons millis waits =>
    intro h
    rcases List.mem_cons.mp ((Line.everyone_doze _ _ _).mem_iff.mp h) with he | h
    · cases he
    · exact htail.caller h

/-- After its turn the producer cannot move, and all workers that waited for a job are in line. -/
theorem Manned.afterProducer (hf : f.Manned l) (hready : l.line.ready = .member .producer :: rest)
    (hg : f.Produced g) (hord : g.Orderly) (hstuck : g.produce? = none) (isSpent : Bool) :
    g.Manned (l.tail.afterTurn .producer isSpent f g) := by
  have hgrows := Lineup.grows_afterTurn .producer isSpent f g l.tail
  obtain ⟨backlog, queue, offered, closed, rfl⟩ := hg
  refine ⟨hord, hf.outcome, fun hw hgone => .inl ?_, fun h => ?_, fun h => ?_,
    Lineup.not_has_caller_afterTurn (by simp) hf.not_has_caller_tail isSpent _ _⟩
  · rcases hf.workers hw hgone with hhas | ⟨-, hm, -⟩
    · exact (hhas.tail hready (by simp)).grows hgrows
    · exact List.mem_append_left _ (List.mem_append_right _ (List.mem_map_of_mem hm))
  · rw [hstuck] at h
    cases h
  · have hmoves := isSome_supervise?_iff.mp h
    have hhas := hf.supervisor (isSome_supervise?_iff.mpr hmoves)
    exact (hhas.tail hready (by simp)).grows hgrows

theorem Manned.afterSupervisor (hf : f.Manned l)
    (hready : l.line.ready = .member .supervisor :: rest) (hg : f.Supervised g) (hord : g.Orderly)
    {isSpent : Bool} (hstuck : isSpent = true ∨ g.supervise? = none) :
    g.Manned (l.tail.afterTurn .supervisor isSpent f g) := by
  have hgrows := Lineup.grows_afterTurn .supervisor isSpent f g l.tail
  obtain ⟨joined, ended, rfl⟩ := hg
  have hidle : (l.tail.afterTurn .supervisor isSpent f { f with joined, ended }).idle = l.idle := by
    cases isSpent <;> rfl
  refine ⟨hord, hf.outcome, fun hw hgone => ?_, fun h => ?_, fun h => ?_,
    Lineup.not_has_caller_afterTurn (by simp) hf.not_has_caller_tail isSpent _ _⟩
  · rw [hidle]
    exact (hf.workers hw hgone).imp_left fun h => (h.tail hready (by simp)).grows hgrows
  · have hmoves := (isSome_produce?_iff (by exact hf.stopped)).mp h
    have hhas := hf.producer ((isSome_produce?_iff hf.stopped).mpr hmoves)
    exact (hhas.tail hready (by simp)).grows hgrows
  · cases isSpent with
    | true => exact Lineup.has_doze _ _ _
    | false =>
      rw [hstuck.resolve_left Bool.false_ne_true] at h
      cases h

end

/-! ### After the turn of a worker -/

section

variable {rest : List (Stander Actor)} {isSpent : Bool}

/-- How a worker stands after its turn: out of allowance between two jobs, or where it cannot
move. -/
def Rests (load : String → Activity σ (Except DriveError α)) (index : Nat) (isSpent : Bool)
    (g : Fetch σ α) : Prop :=
  isSpent = true ∧ g.workers[index]? = some .idle ∨
    isSpent = false ∧ ∃ left s, g.move? load (.worker index) left s = none

/-- The producer is called when the job that it held out was taken. -/
def Lineup.called (f g : Fetch σ α) (l : Lineup) : Lineup :=
  if f.offered.isSome && g.offered.isNone then l.join .producer else l

theorem Lineup.afterTurn_worker (index : Nat) (isSpent : Bool) (f g : Fetch σ α) (l : Lineup) :
    l.afterTurn (.worker index) isSpent f g =
      if isSpent then (l.called f g).doze 0 (.worker index) else (l.called f g).seat g index := rfl

theorem Lineup.idle_called (f g : Fetch σ α) (l : Lineup) : (l.called f g).idle = l.idle := by
  unfold Lineup.called
  split
  · exact idle_join _ _
  · rfl

theorem Lineup.called_grows_afterTurn (index : Nat) (isSpent : Bool) (f g : Fetch σ α)
    (l : Lineup) : (l.called f g).line.Grows (l.afterTurn (.worker index) isSpent f g).line := by
  rw [afterTurn_worker]
  split
  · exact Line.grows_doze _ _ _
  · exact Lineup.grows_seat _ _ _

theorem Lineup.idle_afterTurn_worker (index : Nat) (isSpent : Bool) (f g : Fetch σ α)
    (l : Lineup) : l.idle ⊆ (l.afterTurn (.worker index) isSpent f g).idle := by
  rw [afterTurn_worker, ← idle_called f g l]
  split
  · exact fun _ h => h
  · exact idle_seat _ _ _

/-- The worker itself. -/
theorem Rests.worker (hr : Rests load index isSpent g) (hstopped : g.stopped = false)
    {worker : Worker σ α} (hw : g.workers[index]? = some worker) (hgone : worker.isGone = false)
    (l : Lineup) : (l.afterTurn (.worker index) isSpent f g).Has (.worker index) ∨
      worker = .idle ∧ index ∈ (l.afterTurn (.worker index) isSpent f g).idle ∧ g.queue = [] ∧
        g.closed = false := by
  rw [Lineup.afterTurn_worker]
  rcases hr with ⟨rfl, -⟩ | ⟨rfl, left, s, hnone⟩
  · exact .inl (Lineup.has_doze _ _ _)
  · rw [if_neg Bool.false_ne_true]
    unfold Lineup.seat
    cases worker with
    | idle =>
      rw [hw]
      refine .inr ⟨rfl, List.mem_append_right _ (List.mem_singleton_self _), ?_⟩
      cases hq : g.queue <;> cases hc : g.closed <;>
        simp [move?, work?, hw, hstopped, takeJob?, hq, hc] at hnone ⊢
    | waiting =>
      rw [hw]
      exact .inl (Lineup.has_doze _ _ _)
    | loading => simp [move?, work?, hw, hstopped] at hnone
    | finished | panicked => cases hgone

/-- The producer, when the worker was the last or took what the producer held out. -/
theorem Rests.producer (hr : Rests load index isSpent g) (hall : g.workers.all (·.isGone) = true)
    (ho : g.offered ≠ none) (l : Lineup) :
    (l.afterTurn (.worker index) isSpent f g).Has .producer := by
  have hgone : ∀ worker ∈ g.workers, worker.isGone = true := List.all_eq_true.mp hall
  rw [Lineup.afterTurn_worker]
  rcases hr with ⟨-, hw⟩ | ⟨rfl, -⟩
  · cases hgone _ (List.mem_of_getElem? hw)
  · have hcalled : (g.offered.isSome && g.workers.all (·.isGone)) = true := by
      simp [hall, Option.isSome_iff_ne_none.mpr ho]
    rw [if_neg Bool.false_ne_true]
    unfold Lineup.seat
    split
    · next hw => cases hgone _ (List.mem_of_getElem? hw)
    · next hw => cases hgone _ (List.mem_of_getElem? hw)
    · rw [if_pos hcalled]
      dsimp only
      split
      · exact (Lineup.has_join _ _).grows (Lineup.grows_join _ _)
      · exact Lineup.has_join _ _

/-- The supervisor, when it waited for this worker. -/
theorem Rests.supervisor (hr : Rests load index isSpent g) {worker : Worker σ α}
    (hw : g.workers[index]? = some worker) (hgone : worker.isGone = true) (hj : g.joined = index)
    (l : Lineup) : (l.afterTurn (.worker index) isSpent f g).Has .supervisor := by
  rw [Lineup.afterTurn_worker]
  rcases hr with ⟨-, hidle⟩ | ⟨rfl, -⟩
  · cases hidle.symm.trans hw
    cases hgone
  · rw [if_neg Bool.false_ne_true]
    unfold Lineup.seat
    rw [hw]
    cases worker with
    | finished | panicked =>
      dsimp only
      rw [if_pos hj]
      exact Lineup.has_join _ _
    | _ => cases hgone

theorem Manned.afterWorker (hf : f.Manned l)
    (hready : l.line.ready = .member (.worker index) :: rest) (hg : f.Worked index g)
    (hord : g.Orderly) (hr : Rests load index isSpent g) :
    g.Manned (l.tail.afterTurn (.worker index) isSpent f g) := by
  have houtcome : g.outcome = none := hg.outcome.trans hf.outcome
  have hstopped : g.stopped = false := by rw [hord.stopped, houtcome]; rfl
  have hgrows := Lineup.grows_afterTurn (.worker index) isSpent f g l.tail
  have hidle := Lineup.idle_afterTurn_worker index isSpent f g l.tail
  refine ⟨hord, houtcome, fun {other worker} hw hgone => ?_, fun h => ?_, fun h => ?_,
    Lineup.not_has_caller_afterTurn (by simp) hf.not_has_caller_tail isSpent f g⟩
  · by_cases hother : other = index
    · subst hother
      exact hr.worker hstopped hw hgone l.tail
    · rw [hg.others other hother] at hw
      refine (hf.workers hw hgone).imp (fun h => (h.tail hready ?_).grows hgrows)
        fun ⟨hi, hm, hq, hc⟩ => ⟨hi, hidle hm, hg.queue hq, hg.closed.trans hc⟩
      simpa using fun he => hother he.symm
  · obtain ⟨hc, hcases⟩ := (isSome_produce?_iff hstopped).mp h
    by_cases ho : g.offered = none
    · cases hoffered : f.offered with
      | none =>
        have hmoves : f.produce?.isSome = true :=
          (isSome_produce?_iff hf.stopped).mpr ⟨hg.closed ▸ hc, .inr hoffered⟩
        exact ((hf.producer hmoves).tail hready (by simp)).grows hgrows
      | some job =>
        have hcalled : (l.tail.called f g).Has .producer := by
          unfold Lineup.called
          rw [hoffered, ho]
          exact Lineup.has_join _ _
        exact hcalled.grows (Lineup.called_grows_afterTurn index isSpent f g l.tail)
    · exact hr.producer (hcases.resolve_right ho) ho l.tail
  · rcases isSome_supervise?_iff.mp h with ⟨worker, hw, hgone⟩ | ⟨hw, he⟩
    · by_cases hj : g.joined = index
      · exact hr.supervisor (hj ▸ hw) hgone hj l.tail
      · rw [hg.others _ hj, hg.joined] at hw
        have hhas := hf.supervisor (isSome_supervise?_iff.mpr (.inl ⟨worker, hw, hgone⟩))
        exact (hhas.tail hready (by simp)).grows hgrows
    · rw [List.getElem?_eq_none_iff, hg.length_eq, hg.joined, ← List.getElem?_eq_none_iff] at hw
      have hhas := hf.supervisor (isSome_supervise?_iff.mpr (.inr ⟨hw, hg.ended ▸ he⟩))
      exact (hhas.tail hready (by simp)).grows hgrows

end

end Fetch

end SealedDrive
