import SealedDrive.Proofs.Attendance
import SealedDrive.Proofs.Served

/-!
The rounds of a listing come to an end. Each turn gets on: somebody makes a step of the listing, a
passer has one wait less before it, or whoever had the turn is in line no more. And since the line
is never empty before the end, there is always somebody to have the next turn.
-/

namespace SealedDrive

variable {σ α : Type}

namespace Fetch

variable {load : String → Activity σ (Except DriveError α)} {f g : Fetch σ α} {actor : Actor}
  {index left left' : Nat} {s s' : σ} {l : Lineup}

/-! ## Every turn gets on -/

/-- One step after another. -/
abbrev Onward (load : String → Activity σ (Except DriveError α)) (g f : Fetch σ α) : Prop :=
  ∃ jobs, Step load (fun _ => True) f jobs g

/-- In a turn nothing happens, or some steps do. -/
theorem movesFor_onward (actor : Actor) (fuel left : Nat) (f : Fetch σ α) (s : σ) :
    (movesFor load actor fuel f left s).2.1 = f ∧
        ((movesFor load actor fuel f left s).1 = true → f.isSpent actor left = true) ∨
      Relation.TransGen (Onward load) (movesFor load actor fuel f left s).2.1 f := by
  induction fuel generalizing f left s with
  | zero => exact .inl ⟨rfl, fun h => by cases h⟩
  | succ fuel ih =>
    unfold movesFor
    split
    · next hspent => exact .inl ⟨rfl, fun _ => hspent⟩
    split
    · exact .inl ⟨rfl, fun h => by cases h⟩
    · next g left' s' hm =>
      have hstep : Onward load g f := ⟨_, .move trivial hm⟩
      rcases ih left' g s' with ⟨he, -⟩ | hlater
      · rw [he]
        exact .inr (.single hstep)
      · exact .inr (.tail hlater hstep)

namespace Lineup

def isHand : Stander Actor → Bool
  | .member (.worker _) => true
  | _ => false

/-- How many workers are in line or wait for a job. -/
def hands (l : Lineup) : Nat := l.line.everyone.countP isHand + l.idle.length

/-- How much somebody in line has to do without a step of the listing: a passer has its turns, and
the producer calls so many workers. -/
def toilOf (hands : Nat) : Stander Actor → Nat
  | .passer waits => waits.length + 1
  | .member .producer => hands + 1
  | .member _ => 1

def toil (l : Lineup) : Nat := (l.line.everyone.map (toilOf l.hands)).sum

theorem hands_join {actor : Actor} (h : ∀ index, actor ≠ .worker index) (l : Lineup) :
    (l.join actor).hands = l.hands := by
  unfold Lineup.hands
  rw [idle_join]
  unfold Lineup.join
  split
  · rfl
  · rw [(Line.everyone_join _ _).countP_eq]
    cases actor with
    | worker index => exact absurd rfl (h index)
    | _ => simp [isHand]

theorem hands_elapse (millis : Nat) (l : Lineup) : (l.elapse millis).hands = l.hands := by
  unfold Lineup.hands Lineup.elapse
  rw [(Line.everyone_elapse millis l.line).countP_eq]

theorem toil_elapse (millis : Nat) (l : Lineup) : (l.elapse millis).toil = l.toil := by
  have hsum := ((Line.everyone_elapse millis l.line).map (toilOf l.hands)).sum_eq
  unfold Lineup.toil
  rw [hands_elapse]
  exact hsum

theorem everyone_tail {l : Lineup} {first : Stander Actor} {rest : List (Stander Actor)}
    (hready : l.line.ready = first :: rest) :
    l.line.everyone = first :: l.tail.line.everyone := by
  unfold Line.everyone Lineup.tail
  rw [hready]
  rfl

end Lineup

/-- Where a listing stands: its steps first, then the workers in line or waiting for a job, then
what those in line have to do. -/
def standing (f : Fetch σ α) (l : Lineup) : Fetch σ α × Nat × Nat := (f, l.hands, l.toil)

/-- Further on. -/
def Closer (load : String → Activity σ (Except DriveError α)) :
    Fetch σ α × Nat × Nat → Fetch σ α × Nat × Nat → Prop :=
  Prod.Lex (Relation.TransGen (Onward load)) (Prod.Lex (· < ·) (· < ·))

theorem wellFounded_closer (load : String → Activity σ (Except DriveError α)) :
    WellFounded (Closer load) :=
  (wellFounded_step load _).transGen.prod_lex (Nat.lt_wfRel.wf.prod_lex Nat.lt_wfRel.wf)

theorem closer_of_steps (h : Relation.TransGen (Onward load) g f) (l' l : Lineup) :
    Closer load (standing g l') (standing f l) := .left _ _ h

theorem closer_of_hands (f : Fetch σ α) {l' l : Lineup} (h : l'.hands < l.hands) :
    Closer load (standing f l') (standing f l) := .right _ (.left _ _ h)

/-- The first in line goes, and these come, who have less to do. -/
theorem closer_of_exchange (f : Fetch σ α) {l' l : Lineup} {gone : Stander Actor}
    {came others : List (Stander Actor)} (hl : l.line.everyone = gone :: others)
    (hl' : l'.line.everyone.Perm (came ++ others)) (hhands : l'.hands = l.hands)
    (h : (came.map (Lineup.toilOf l.hands)).sum < Lineup.toilOf l.hands gone) :
    Closer load (standing f l') (standing f l) := by
  have htoil : l'.toil < l.toil := by
    unfold Lineup.toil
    rw [hhands, (hl'.map _).sum_eq, hl, List.map_append, List.sum_append, List.map_cons,
      List.sum_cons]
    omega
  unfold standing
  rw [hhands]
  exact .right _ (.right _ htoil)

theorem closer_of_going (f : Fetch σ α) {l' l : Lineup} {gone : Stander Actor}
    {others : List (Stander Actor)} (hl : l.line.everyone = gone :: others)
    (hl' : l'.line.everyone = others) (hhands : l'.hands = l.hands) :
    Closer load (standing f l') (standing f l) := by
  have hpos : ([].map (Lineup.toilOf l.hands)).sum < Lineup.toilOf l.hands gone := by
    unfold Lineup.toilOf
    split <;> simp
  exact closer_of_exchange f hl (by rw [List.nil_append, hl']) hhands hpos

/-- In a turn of an actor nothing happens, or some steps do. -/
theorem moves_onward (load : String → Activity σ (Except DriveError α)) (actor : Actor)
    (f : Fetch σ α) (s : σ) :
    (f.moves load actor s).2.1 = f ∧ (f.moves load actor s).1 = false ∧
        (∀ index, actor = .worker index → f.wake? index = none) ∨
      Relation.TransGen (Onward load) (f.moves load actor s).2.1 f := by
  have hfresh : ∀ f : Fetch σ α, f.isSpent actor Activity.fullAllowance = false := fun f => rfl
  have hmoves : ∀ f : Fetch σ α,
      let r := movesFor load actor f.remaining f Activity.fullAllowance s
      r.2.1 = f ∧ r.1 = false ∨ Relation.TransGen (Onward load) r.2.1 f := by
    intro f
    refine (movesFor_onward actor f.remaining Activity.fullAllowance f s).imp_left
      fun ⟨he, hb⟩ => ?_
    refine ⟨he, Bool.eq_false_iff.mpr fun htrue => ?_⟩
    rw [hfresh] at hb
    cases hb htrue
  unfold Fetch.moves
  cases actor with
  | worker index =>
    dsimp only
    cases hw : f.wake? index with
    | none =>
      refine (hmoves f).imp_left fun ⟨he, hb⟩ => ⟨he, hb, fun other ho => ?_⟩
      cases ho
      exact hw
    | some woken =>
      have hstep : Onward load woken f := ⟨_, .wake hw⟩
      rw [Option.getD_some]
      rcases hmoves woken with ⟨he, -⟩ | hlater
      · rw [he]
        exact .inr (.single hstep)
      · exact .inr (.tail hlater hstep)
  | producer => exact (hmoves f).imp_left fun ⟨he, hb⟩ => ⟨he, hb, fun _ h => by cases h⟩
  | supervisor => exact (hmoves f).imp_left fun ⟨he, hb⟩ => ⟨he, hb, fun _ h => by cases h⟩
  | caller => exact (hmoves f).imp_left fun ⟨he, hb⟩ => ⟨he, hb, fun _ h => by cases h⟩

section

variable {l : Lineup} {rest : List (Stander Actor)}

theorem closer_passer {waits : Passer} (hready : l.line.ready = .passer waits :: rest)
    (f : Fetch σ α) :
    Closer load (standing f { l.tail with line := waits.pass .passer l.tail.line })
      (standing f l) := by
  have hall := Lineup.everyone_tail hready
  cases waits with
  | nil =>
    refine closer_of_going f hall rfl ?_
    simp [Lineup.hands, hall, Passer.pass, Lineup.isHand, Lineup.tail]
  | cons millis waits =>
    have hdoze : (Passer.pass .passer (millis :: waits) l.tail.line).everyone.Perm
        ([.passer waits] ++ l.tail.line.everyone) :=
      Line.everyone_doze millis (.passer waits : Stander Actor) l.tail.line
    have hless : ([.passer waits].map (Lineup.toilOf l.hands)).sum <
        Lineup.toilOf l.hands (.passer (millis :: waits)) := by
      simp [Lineup.toilOf]
    refine closer_of_exchange f hall hdoze ?_ hless
    unfold Lineup.hands
    rw [hall]
    show (Passer.pass .passer (millis :: waits) l.tail.line).everyone.countP _ +
      l.idle.length = _
    simp [hdoze.countP_eq, Lineup.isHand]

/-- Whoever had a turn in which nothing happened is in line no more. -/
theorem closer_member {actor : Actor} (hready : l.line.ready = .member actor :: rest)
    (f : Fetch σ α) (hwake : ∀ index, actor = .worker index → f.wake? index = none) :
    Closer load (standing f (l.tail.afterTurn actor false f f)) (standing f l) := by
  have hall := Lineup.everyone_tail hready
  cases actor with
  | producer =>
    have hcalled : (l.tail.afterTurn .producer false f f).line.everyone.Perm
        (l.idle.map (.member ∘ .worker) ++ l.tail.line.everyone) :=
      Lineup.everyone_afterTurn_producer false f f l.tail
    have hworkers : (l.idle.map (Stander.member ∘ Actor.worker)).countP Lineup.isHand =
        l.idle.length := by
      simp [List.countP_map, Function.comp_def, Lineup.isHand]
    refine closer_of_exchange f hall hcalled ?_ ?_
    · unfold Lineup.hands
      rw [hcalled.countP_eq, hall, List.countP_append, hworkers]
      show _ + _ + 0 = List.countP Lineup.isHand l.tail.line.everyone + l.idle.length
      omega
    · have hle : l.idle.length ≤ l.hands := Nat.le_add_left _ _
      simp [Lineup.toilOf, Function.comp_def]
      omega
  | worker index =>
    have hcalled : l.tail.called f f = l.tail := by
      unfold Lineup.called
      cases f.offered <;> rfl
    rw [Lineup.afterTurn_worker, hcalled, if_neg Bool.false_ne_true]
    unfold Lineup.seat
    split
    · refine closer_of_going f hall rfl ?_
      unfold Lineup.hands
      rw [hall, List.countP_cons_of_pos rfl, List.length_append]
      show l.tail.line.everyone.countP Lineup.isHand + (l.idle.length + 1) = _
      omega
    · next hw =>
      have hnone := hwake index rfl
      simp [wake?, hw] at hnone
    · -- a worker that is gone leaves for good
      refine closer_of_hands f ?_
      have hlt : l.tail.hands < l.hands := by
        unfold Lineup.hands
        rw [hall, List.countP_cons_of_pos rfl]
        exact Nat.add_lt_add_right (Nat.lt_succ_self _) _
      dsimp only
      split <;> split <;> simpa [Lineup.hands_join] using hlt
  | supervisor | caller =>
    refine closer_of_going f hall rfl ?_
    simp [Lineup.hands, hall, Lineup.isHand, Lineup.afterTurn, Lineup.tail]

end

/-! ## Rounds -/

section

variable {l : Lineup}

/-- What a turn leaves, as a lineup and a listing. -/
def afterTurns (r : Line (Stander Actor) × List Nat × Fetch σ α × σ) : Lineup × Fetch σ α :=
  (⟨r.1, r.2.1⟩, r.2.2.1)

theorem idle_of_isSpent (h : f.isSpent (.worker index) left = true) :
    f.workers[index]? = some .idle := by
  have hidle := (Bool.and_eq_true_iff.mp h).2
  dsimp only at hidle
  split at hidle
  · assumption
  · cases hidle

theorem Manned.producerTurn (load : String → Activity σ (Except DriveError α)) (hf : f.Manned l)
    {rest : List (Stander Actor)} (hready : l.line.ready = .member .producer :: rest) (s : σ) :
    let after := f.moves load .producer s
    after.2.1.Manned (l.tail.afterTurn .producer after.1 f after.2.1) := by
  have hstuck : (f.moves load .producer s).2.1.produce? = none := by
    have hne : Actor.producer ≠ .caller := by simp
    rcases movesFor_stops load hne (Nat.le_refl f.remaining) Activity.fullAllowance s with
      ⟨-, left, hspent⟩ | ⟨-, left, s', hnone⟩
    · cases (Bool.and_eq_true_iff.mp hspent).2
    · exact Option.map_eq_none_iff.mp hnone
  exact hf.afterProducer hready (produced_movesFor _ _ f s) (hf.orderly.movesFor _ _ _ s) hstuck _

theorem Manned.supervisorTurn (load : String → Activity σ (Except DriveError α)) (hf : f.Manned l)
    {rest : List (Stander Actor)} (hready : l.line.ready = .member .supervisor :: rest) (s : σ) :
    let after := f.moves load .supervisor s
    after.2.1.Manned (l.tail.afterTurn .supervisor after.1 f after.2.1) := by
  have hstuck : (f.moves load .supervisor s).1 = true ∨
      (f.moves load .supervisor s).2.1.supervise? = none := by
    have hne : Actor.supervisor ≠ .caller := by simp
    rcases movesFor_stops load hne (Nat.le_refl f.remaining) Activity.fullAllowance s with
      ⟨hspent, -⟩ | ⟨-, left, s', hnone⟩
    · exact .inl hspent
    · exact .inr (Option.map_eq_none_iff.mp hnone)
  exact hf.afterSupervisor hready (supervised_movesFor _ _ f s) (hf.orderly.movesFor _ _ _ s) hstuck

theorem worked_wake (f : Fetch σ α) (index : Nat) : f.Worked index ((f.wake? index).getD f) := by
  unfold Fetch.wake?
  split
  · exact worked_setWorker f index _
  · exact .refl index f

theorem Orderly.wake (hf : f.Orderly) (index : Nat) : ((f.wake? index).getD f).Orderly := by
  unfold Fetch.wake?
  split
  · exact hf.setWorker index _
  · exact hf

theorem Manned.workerTurn (load : String → Activity σ (Except DriveError α)) (hf : f.Manned l)
    {rest : List (Stander Actor)} (hready : l.line.ready = .member (.worker index) :: rest)
    (s : σ) :
    let after := f.moves load (.worker index) s
    after.2.1.Manned (l.tail.afterTurn (.worker index) after.1 f after.2.1) := by
  have hrests : Rests load index (f.moves load (.worker index) s).1
      (f.moves load (.worker index) s).2.1 := by
    have hne : Actor.worker index ≠ .caller := by simp
    rcases movesFor_stops load hne (Nat.le_refl ((f.wake? index).getD f).remaining)
      Activity.fullAllowance s with ⟨hb, left, hspent⟩ | hstuck
    · exact .inl ⟨hb, idle_of_isSpent hspent⟩
    · exact .inr hstuck
  exact hf.afterWorker hready ((worked_wake f index).trans (worked_movesFor index _ _ _ s))
    ((hf.orderly.wake index).movesFor _ _ _ s) hrests

/-- After the turn of the first in line nobody is left out, and the turn gets on. -/
theorem Manned.turn (load : String → Activity σ (Except DriveError α)) (hf : f.Manned l)
    {stander : Stander Actor} {rest : List (Stander Actor)}
    (hready : l.line.ready = stander :: rest) (s : σ) :
    let after := afterTurns (Fetch.turn load stander l.tail.line (l.idle, f, s))
    after.2.Manned after.1 ∧ Closer load (standing after.2 after.1) (standing f l) := by
  cases stander with
  | passer waits => exact ⟨hf.afterPasser hready, closer_passer hready f⟩
  | member actor =>
    have hcloser : Closer load (standing (f.moves load actor s).2.1
        (l.tail.afterTurn actor (f.moves load actor s).1 f (f.moves load actor s).2.1))
        (standing f l) := by
      rcases moves_onward load actor f s with ⟨he, hb, hwake⟩ | hsteps
      · rw [he, hb]
        exact closer_member hready f hwake
      · exact closer_of_steps hsteps _ _
    refine ⟨?_, hcloser⟩
    cases actor with
    | caller => exact absurd (by simp [Lineup.Has, Line.everyone, hready]) hf.caller
    | producer => exact hf.producerTurn load hready s
    | supervisor => exact hf.supervisorTurn load hready s
    | worker index => exact hf.workerTurn load hready s

/-- After some turns nobody is left out, and at least one turn gets on. -/
theorem Manned.turns (load : String → Activity σ (Except DriveError α)) (hf : f.Manned l)
    (count : Nat) (s : σ) :
    let after := afterTurns (l.line.turns (Fetch.turn load) count (l.idle, f, s))
    after.2.Manned after.1 ∧
      Relation.ReflTransGen (Closer load) (standing after.2 after.1) (standing f l) ∧
      (0 < count → l.line.ready ≠ [] →
        Relation.TransGen (Closer load) (standing after.2 after.1) (standing f l)) := by
  induction count generalizing f l s with
  | zero => exact ⟨hf, .refl, fun h => absurd h (Nat.lt_irrefl 0)⟩
  | succ count ih =>
    unfold Line.turns
    cases hready : l.line.ready with
    | nil => exact ⟨hf, .refl, fun _ h => absurd rfl h⟩
    | cons stander rest =>
      have htail : { l.line with ready := rest } = l.tail.line := by
        unfold Lineup.tail
        rw [hready]
        rfl
      dsimp only
      rw [htail]
      obtain ⟨hnext, hcloser⟩ := hf.turn load hready s
      obtain ⟨hafter, hlater, -⟩ := ih hnext
        (Fetch.turn load stander l.tail.line (l.idle, f, s)).2.2.2
      exact ⟨hafter, hlater.tail hcloser, fun _ _ => .tail' hlater hcloser⟩

theorem standing_elapse (millis : Nat) (f : Fetch σ α) (l : Lineup) :
    standing f (l.elapse millis) = standing f l := by
  rw [standing, standing, Lineup.hands_elapse, Lineup.toil_elapse]

theorem Manned.elapse (hf : f.Manned l) (millis : Nat) : f.Manned (l.elapse millis) :=
  hf.perm (Line.everyone_elapse millis l.line) rfl

/-- A round in which somebody stands ready gets on. -/
theorem Manned.round (load : String → Activity σ (Except DriveError α)) (hf : f.Manned l)
    (hready : l.line.ready ≠ []) (s : σ) :
    let after := Fetch.round load l f s
    after.2.1.Manned after.1 ∧
      Relation.TransGen (Closer load) (standing after.2.1 after.1) (standing f l) := by
  obtain ⟨hafter, -, hcloser⟩ := hf.turns load Line.turnsPerRound s
  refine ⟨hafter.elapse 0, ?_⟩
  have hstanding := hcloser (by decide) hready
  rw [← standing_elapse 0] at hstanding
  exact hstanding

/-! ## Between the rounds -/

theorem call?_of_outcome (h : f.outcome ≠ none) : f.call? = none := by
  unfold call?
  rw [if_pos (Option.isSome_iff_ne_none.mpr h)]

/-- The caller collects nothing after it has its answer. -/
theorem outcome_of_collectFor {fuel : Nat} (h : (f.collectFor fuel).outcome = none) :
    f.outcome = none := by
  cases fuel with
  | zero => exact h
  | succ fuel =>
    by_contra hsome
    rw [collectFor, call?_of_outcome hsome] at h
    exact hsome h

/-- Until it has its answer, the caller collects everything. -/
theorem call?_collectFor {fuel : Nat} (hfuel : f.results.length < fuel)
    (h : (f.collectFor fuel).outcome = none) : (f.collectFor fuel).call? = none := by
  induction fuel generalizing f with
  | zero => exact absurd hfuel (Nat.not_lt_zero _)
  | succ fuel ih =>
    unfold collectFor at h ⊢
    cases hcall : f.call? with
    | none => exact hcall
    | some g =>
      rw [hcall] at h
      have hnone : g.outcome = none := outcome_of_collectFor h
      refine ih ?_ h
      unfold call? at hcall
      split at hcall
      · cases hcall
      split at hcall
      · next job result rest hr =>
        cases hcall
        rw [hr, List.length_cons] at hfuel
        have hresults : (collect { f with results := rest } job result).results = rest := by
          unfold collect
          cases result with
          | ok value => rfl
          | error error => dsimp only; split <;> rfl
        rw [hresults]
        omega
      · split at hcall
        · cases hcall
          cases hnone
        · cases hcall

theorem Manned.collectFor (hf : f.Manned l) {fuel : Nat} (h : (f.collectFor fuel).outcome = none)
    (s : σ) :
    (f.collectFor fuel).Manned l ∧
      Relation.ReflTransGen (Closer load) (standing (f.collectFor fuel) l) (standing f l) := by
  induction fuel generalizing f with
  | zero => exact ⟨hf, .refl⟩
  | succ fuel ih =>
    unfold Fetch.collectFor at h ⊢
    cases hcall : f.call? with
    | none => exact ⟨hf, .refl⟩
    | some g =>
      rw [hcall] at h
      have hnone : g.outcome = none := outcome_of_collectFor h
      have hmove : f.move? load .caller 0 s = some (g, 0, s) := by
        rw [move?, hcall]
        rfl
      have hstep : Step load (fun _ => True) f [] g := .move trivial hmove
      obtain ⟨hmanned, hcloser⟩ :=
        ih (hf.collected (collected_of_call? hcall hnone) (hf.orderly.change hstep.change)) h
      exact ⟨hmanned, hcloser.tail (closer_of_steps (.single ⟨_, hstep⟩) l l)⟩

/-- While the caller waits, somebody is in line. -/
theorem Manned.everyone_ne_nil (hf : f.Manned l) (hcall : f.call? = none) :
    l.line.everyone ≠ [] := by
  by_cases hgone : ∀ worker ∈ f.workers, worker.isGone = true
  · rcases step_of_gone hf.outcome hgone with h | h
    · exact List.ne_nil_of_mem (hf.supervisor h)
    · rw [hcall] at h
      cases h
  · push Not at hgone
    obtain ⟨worker, hm, hgone⟩ := hgone
    obtain ⟨index, hw⟩ := List.mem_iff_getElem?.mp hm
    rcases hf.workers hw (by simpa using hgone) with h | ⟨-, -, hq, hc⟩
    · exact List.ne_nil_of_mem h
    · -- the queue is empty and still open, so the producer is due
      have hoffered : f.offered = none := by
        by_contra hsome
        exact hf.orderly.offered (Option.isSome_iff_ne_none.mpr hsome) hq
      have hdue := (isSome_produce?_iff hf.stopped).mpr ⟨hc, .inr hoffered⟩
      exact List.ne_nil_of_mem (hf.producer hdue)

end

/-! ## The answer -/

theorem run_spend_done {β : Type} (turn : Nat → σ → σ) (units : Nat) (answer : β) (left : Nat)
    (s : σ) :
    (((Activity.spend units).bind fun _ => .done answer).run turn left s).1 = some answer := by
  have hm : ((Activity.spend units).bind fun _ => .done answer).Meets (.standing fun _ : σ => True)
      False (fun a _ => a = answer) () := .bind (Activity.meets_spend rfl)
  exact hm.run_eq (fun _ _ _ _ => ⟨(), trivial, trivial⟩) left trivial

variable [Crowded σ]

/-- After enough rounds there is an answer, whatever the others do in their turns. -/
theorem Manned.exists_answer (load : String → Activity σ (Except DriveError α))
    (turn : Nat → σ → σ) (hf : f.Manned l) (hready : l.line.ready ≠ [])
    (cancelAfter : Option Nat) (left : Nat) (s : σ) :
    ∃ patience, ((rounds load patience cancelAfter l f).run turn left s).1.isSome = true := by
  generalize hx : standing f l = x
  induction x using (wellFounded_closer load).transGen.induction generalizing f l cancelAfter left s
    with
  | _ x ih =>
    subst hx
    obtain ⟨hround, hcloser⟩ := hf.round load hready s
    rcases hr : Fetch.round load l f s with ⟨l', g, s'⟩
    rw [hr] at hround hcloser
    dsimp only at hround hcloser
    let g' := if cancelAfter = some 0 then g.leave (.error .cancelled) else g.collectAll
    cases ho : g'.outcome with
    | some outcome =>
      refine ⟨1, ?_⟩
      simp only [rounds, Activity.run, hr]
      have houtcome : (if cancelAfter = some 0 then g.leave (.error .cancelled)
          else g.collectAll).outcome = some outcome := ho
      rw [houtcome]
      simp [Activity.run, run_spend_done]
    | none =>
      have hnot : cancelAfter ≠ some 0 := by
        intro hzero
        simp [g', hzero, Fetch.leave] at ho
      have hg' : g' = g.collectAll := if_neg hnot
      rw [hg'] at ho
      obtain ⟨hmanned, hlater⟩ := hround.collectFor ho s
      have hcall : g.collectAll.call? = none := call?_collectFor (Nat.lt_succ_self _) ho
      have hready := Line.ready_elapse_pause _ (hmanned.everyone_ne_nil hcall)
      have hcloser : Relation.TransGen (Closer load)
          (standing g.collectAll (l'.elapse l'.line.pause)) (standing f l) := by
        rw [standing_elapse]
        exact .trans_right hlater hcloser
      let millis := l'.line.pause
      have hnext : ∀ left s, ∃ patience, ((rounds load patience (cancelAfter.map (· - millis))
          (l'.elapse millis) g.collectAll).run turn left s).1.isSome = true := fun left s =>
        ih _ hcloser (hmanned.elapse millis) hready _ left s rfl
      by_cases hzero : millis = 0
      · obtain ⟨patience, hp⟩ := hnext Activity.fullAllowance (turn 0 s')
        refine ⟨patience + 1, ?_⟩
        simp only [rounds, Activity.run, hr, if_neg hnot, ho]
        rw [if_pos hzero]
        exact hp
      · obtain ⟨patience, hp⟩ := hnext Activity.fullAllowance (turn 0 (turn millis s'))
        refine ⟨patience + 1, ?_⟩
        simp only [rounds, Activity.run, hr, if_neg hnot, ho]
        rw [if_neg hzero]
        exact hp

end Fetch

end SealedDrive
