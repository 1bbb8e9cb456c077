import SealedDrive.Proofs.Progress

/-!
Enough patience. With more patience a listing makes the same moves and may only go on further, so
once it answers it always answers the same. Since its rounds come to an end, there is a patience
from which on that is so, whatever the others do in their turns; and the same holds of what is done
with a listing before and after.
-/

namespace SealedDrive

variable {σ α β : Type}

/-! ## More patience -/

namespace Activity

variable {ε : Type} {p q : Activity σ α} {turn : Nat → σ → σ} {left : Nat} {s : σ}

/-- The same, but that it may crash where the other goes on. -/
inductive Shortens : Activity σ α → Activity σ α → Prop
  | crash (q : Activity σ α) : Shortens .crash q
  | done (answer : α) : Shortens (.done answer) (.done answer)
  | read {next next' : σ → Activity σ α} : (∀ s, Shortens (next s) (next' s)) →
    Shortens (.read next) (.read next')
  | write (state : σ) {next next' : Activity σ α} : Shortens next next' →
    Shortens (.write state next) (.write state next')
  | allowance (takes : Bool) {next next' : Bool → Activity σ α} :
    (∀ isLeft, Shortens (next isLeft) (next' isLeft)) →
    Shortens (.allowance takes next) (.allowance takes next')
  | wait (millis : Nat) (leave : Leaving → σ → σ) {next next' : Activity σ α} :
    Shortens next next' → Shortens (.wait millis leave next) (.wait millis leave next')

theorem Shortens.refl (p : Activity σ α) : p.Shortens p := by
  induction p with
  | done answer => exact .done answer
  | crash => exact .crash _
  | read next ih => exact .read ih
  | write s next ih => exact .write s ih
  | allowance takes next ih => exact .allowance takes ih
  | wait millis leave next ih => exact .wait millis leave ih

theorem Shortens.bind (h : p.Shortens q) {f f' : α → Activity σ β}
    (hf : ∀ a, (f a).Shortens (f' a)) : (p.bind f).Shortens (q.bind f') := by
  induction h with
  | crash q => exact .crash _
  | done answer => exact hf answer
  | read _ ih => exact .read ih
  | write s _ ih => exact .write s ih
  | allowance takes _ ih => exact .allowance takes ih
  | wait millis leave _ ih => exact .wait millis leave ih

theorem Shortens.withinFrom (h : p.Shortens q) (watches : Bool) (budget : Nat) :
    (p.withinFrom watches budget).Shortens (q.withinFrom watches budget) := by
  induction h generalizing watches budget with
  | crash q => exact .crash _
  | done answer => exact .done _
  | read _ ih => exact .read fun s => ih s _ _
  | write s _ ih => exact .write s (ih _ _)
  | allowance takes _ ih => exact .allowance takes fun isLeft => ih isLeft _ _
  | wait millis leave _ ih =>
    unfold Activity.withinFrom
    split
    · exact .refl _
    · split
      · exact .wait millis leave (ih _ _)
      · exact .refl _

theorem Shortens.before {p q : Activity σ (Except ε α)} (h : p.Shortens q) (span : Span)
    (error : ε) : (p.before span error).Shortens (q.before span error) :=
  .bind (.allowance false fun _ => h.withinFrom _ _) fun _ => .refl _

/-- A run that does not crash is a run of the other. -/
theorem Shortens.run_eq (h : p.Shortens q) (ha : (p.run turn left s).1 ≠ none) :
    q.run turn left s = p.run turn left s := by
  induction h generalizing left s with
  | crash q => exact absurd rfl ha
  | done answer => rfl
  | read _ ih => exact ih s ha
  | write s _ ih => exact ih ha
  | allowance takes _ ih => exact ih _ ha
  | wait millis leave _ ih => exact ih ha

/-- Under a bound an activity that does not crash does not either. -/
theorem run_withinFrom_ne_none (h : (p.run turn left s).1 ≠ none) (watches : Bool)
    (budget : Nat) : ((p.withinFrom watches budget).run turn left s).1 ≠ none := by
  induction p generalizing watches budget left s with
  | done answer => exact Option.some_ne_none _
  | crash => exact absurd rfl h
  | read next ih => exact ih s h _ _
  | write s next ih => exact ih h _ _
  | allowance takes next ih => exact ih _ h _ _
  | wait millis leave next ih =>
    unfold Activity.withinFrom
    split
    · exact Option.some_ne_none _
    · split
      · exact ih h _ _
      · exact Option.some_ne_none _

theorem run_before_ne_none {p : Activity σ (Except ε α)} (h : (p.run turn left s).1 ≠ none)
    (span : Span) (error : ε) : ((p.before span error).run turn left s).1 ≠ none := by
  have hwithin : ((p.within span.millis).run turn left s).1 ≠ none :=
    run_withinFrom_ne_none h _ _
  show ((Activity.bind (p.within span.millis) _).run turn left s).1 ≠ none
  rw [run_bind]
  rcases hrun : (p.within span.millis).run turn left s with ⟨_ | answer, left', s'⟩
  · rw [hrun] at hwithin
    exact absurd rfl hwithin
  · exact Option.some_ne_none _

/-! ## Enough patience -/

/-- With enough patience it is always the same run, whatever the others do in their turns; it
answers with `post`, and `crashes` says whether it may crash instead. -/
def Settles (J : σ → Prop) (crashes : Prop) (post : α → Prop) (p : Nat → Activity σ α) : Prop :=
  ∀ turn : Nat → σ → σ, (∀ millis, (Discipline.standing J).Allows (turn millis)) →
    ∀ left s, J s → ∃ enough result,
      (∀ patience, enough ≤ patience → (p patience).run turn left s = result) ∧ J result.2.2 ∧
      (∀ answer, result.1 = some answer → post answer) ∧ (result.1 = none → crashes)

section

variable {J : σ → Prop} {crashes : Prop} {post : α → Prop} {p : Nat → Activity σ α}

theorem Settles.mono (h : Settles J crashes post p) {crashes' : Prop} {post' : α → Prop}
    (hc : crashes → crashes') (hp : ∀ answer, post answer → post' answer) :
    Settles J crashes' post' p := by
  intro turn ht left s hs
  obtain ⟨enough, result, hrun, hj, hpost, hcrash⟩ := h turn ht left s hs
  exact ⟨enough, result, hrun, hj, fun answer ha => hp answer (hpost answer ha),
    fun hn => hc (hcrash hn)⟩

/-- What needs no patience. -/
theorem Meets.settles {p : Activity σ α}
    (h : p.Meets (.standing J) crashes (fun answer _ => post answer) ()) :
    Settles J crashes post fun _ => p := by
  intro turn ht left s hs
  obtain ⟨_, -, hj, hpost, hcrash⟩ := h.run ht left hs
  exact ⟨0, _, fun _ _ => rfl, hj, hpost, hcrash⟩

/-- What holds of every answer holds of the one that is settled. -/
theorem Settles.answers (h : Settles J crashes (fun _ => True) p)
    (hm : ∀ patience, (p patience).Meets (.standing J) True (fun answer _ => post answer) ()) :
    Settles J crashes post p := by
  intro turn ht left s hs
  obtain ⟨enough, result, hrun, hj, -, hcrash⟩ := h turn ht left s hs
  refine ⟨enough, result, hrun, hj, fun answer ha => ?_, hcrash⟩
  rw [← hrun enough (Nat.le_refl _)] at ha
  obtain ⟨_, hpost⟩ := (hm enough).exists_post ht hs ha
  exact hpost

theorem Settles.bind {f : Nat → α → Activity σ β} {post : β → Prop}
    (h : Settles J crashes (fun a => Settles J crashes post fun patience => f patience a) p) :
    Settles J crashes post fun patience => (p patience).bind (f patience) := by
  intro turn ht left s hs
  obtain ⟨enough, ⟨answer, left', s'⟩, hrun, hj, hpost, hcrash⟩ := h turn ht left s hs
  cases answer with
  | none =>
    refine ⟨enough, (none, left', s'), fun patience hle => ?_, hj, fun _ ha => (by cases ha),
      fun _ => hcrash rfl⟩
    rw [run_bind, hrun patience hle]
  | some a =>
    obtain ⟨enough', result, hrun', hrest⟩ := hpost a rfl turn ht left' s' hj
    refine ⟨max enough enough', result, fun patience hle => ?_, hrest⟩
    rw [run_bind, hrun patience (le_of_max_le_left hle)]
    exact hrun' patience (le_of_max_le_right hle)

theorem Settles.map {f : α → β} {post : β → Prop}
    (h : Settles J crashes (fun a => post (f a)) p) :
    Settles J crashes post fun patience => (p patience).map f :=
  .bind (h.mono id fun _ hp => Meets.settles (show (Activity.done _).Meets _ _ _ _ from hp))

/-- More patience only lets it go on, and some patience is enough for an answer. -/
theorem settles_of_answers (hm : ∀ patience,
      (p patience).Meets (.standing J) True (fun answer _ => post answer) ())
    (hmono : ∀ {patience patience'}, patience ≤ patience' →
      (p patience).Shortens (p patience'))
    (ha : ∀ turn : Nat → σ → σ, (∀ millis, (Discipline.standing J).Allows (turn millis)) →
      ∀ left s, J s → ∃ patience, ((p patience).run turn left s).1 ≠ none) :
    Settles J False post p := by
  intro turn ht left s hs
  obtain ⟨enough, hsome⟩ := ha turn ht left s hs
  obtain ⟨_, -, hj, hpost, -⟩ := (hm enough).run ht left hs
  exact ⟨enough, _, fun patience hle => (hmono hle).run_eq hsome, hj, hpost, hsome⟩

/-- Under a bound on its time it answers what it answers anyway, or the error of the bound. -/
theorem Settles.before {p : Nat → Activity σ (Except ε α)} {post : Except ε α → Prop}
    (h : Settles J False (fun _ => True) p)
    (hm : ∀ patience, (p patience).Meets (.standing J) True (fun answer _ => post answer) ())
    (hmono : ∀ {patience patience'}, patience ≤ patience' → (p patience).Shortens (p patience'))
    {span : Span} {error : ε} (hn : post (.error error)) :
    Settles J False post fun patience => (p patience).before span error := by
  refine settles_of_answers (fun patience => (hm patience).before fun _ _ => hn)
    (fun hle => (hmono hle).before span error) fun turn ht left s hs => ?_
  obtain ⟨enough, result, hrun, -, -, hcrash⟩ := h turn ht left s hs
  refine ⟨enough, run_before_ne_none ?_ span error⟩
  rw [hrun enough (Nat.le_refl _)]
  exact hcrash

end

end Activity

namespace Fetch

variable [Crowded σ] {load : String → Activity σ (Except DriveError α)} {config : ListerConfig}
  {cancelAfter : Option Nat} {ids : List String}

theorem shortens_rounds (load : String → Activity σ (Except DriveError α))
    (cancelAfter : Option Nat) (l : Lineup) (f : Fetch σ α) {patience patience' : Nat}
    (h : patience ≤ patience') :
    (rounds load patience cancelAfter l f).Shortens (rounds load patience' cancelAfter l f) := by
  induction patience generalizing patience' cancelAfter l f with
  | zero => exact .crash _
  | succ patience ih =>
    obtain ⟨patience', rfl⟩ := Nat.exists_eq_add_of_lt h
    refine .read fun s => ?_
    dsimp only
    split
    · exact .refl _
    · refine .write _ ?_
      have hnext := ih (cancelAfter.map (· - (Fetch.round load l f s).1.line.pause))
      split
      · exact .wait 0 _ (hnext _ _ (by omega))
      · exact .wait _ _ (.wait 0 _ (hnext _ _ (by omega)))

theorem shortens_run (load : String → Activity σ (Except DriveError α)) (config : ListerConfig)
    (cancelAfter : Option Nat) (ids : List String) {patience patience' : Nat}
    (h : patience ≤ patience') :
    (Fetch.run load config cancelAfter ids patience).Shortens
      (Fetch.run load config cancelAfter ids patience') := by
  have hall : (runAll load config cancelAfter ids patience).Shortens
      (runAll load config cancelAfter ids patience') := by
    refine .allowance false fun isLeft => .read fun s => ?_
    split
    · exact .refl _
    · exact .write _ (.wait 0 _ (shortens_rounds load cancelAfter _ _ h))
  unfold Fetch.run
  split
  · exact .refl _
  · dsimp only
    split
    · exact hall
    · exact hall.before _ _

/-- A listing answers, whatever others do, however it is cancelled or bounded. -/
theorem exists_run_ne_none (load : String → Activity σ (Except DriveError α))
    (config : ListerConfig) (cancelAfter : Option Nat) (ids : List String) (turn : Nat → σ → σ)
    (left : Nat) (s : σ) :
    ∃ patience, ((Fetch.run load config cancelAfter ids patience).run turn left s).1 ≠ none := by
  have hall : ∃ patience,
      ((runAll load config cancelAfter ids patience).run turn left s).1 ≠ none := by
    by_cases hcancelled : (cancelAfter = some 0 && decide (0 < left)) = true
    · refine ⟨0, ?_⟩
      simp only [runAll, Activity.run, hcancelled, if_true]
      rw [run_spend_done]
      exact Option.some_ne_none _
    · have hready : (Lineup.start (Crowded.crowd s)
          (start config ids : Fetch σ α).workers.length).line.ready ≠ [] := by
        simp [Lineup.start, Crowd.joinedBy, Lineup.newcomers]
      obtain ⟨patience, hp⟩ := (start_manned config ids (Crowded.crowd s)).exists_answer load turn
        hready cancelAfter Activity.fullAllowance (turn 0 (Crowded.setCrowd {} s))
      refine ⟨patience, ?_⟩
      simp only [runAll, Activity.run, hcancelled]
      exact Option.isSome_iff_ne_none.mp hp
  obtain ⟨patience, hp⟩ := hall
  refine ⟨patience, ?_⟩
  unfold Fetch.run
  split
  · exact Option.some_ne_none _
  · dsimp only
    split
    · exact hp
    · exact Activity.run_before_ne_none hp _ _

/-- What every answer of a listing is known to be, its answer is, with enough patience. -/
theorem settles_run {J : σ → Prop} {post : Except DriveError (Gathered α) → Prop}
    (h : ∀ patience, (Fetch.run load config cancelAfter ids patience).Meets (.standing J) True
      (fun answer _ => post answer) ()) :
    Activity.Settles J False post fun patience =>
      Fetch.run load config cancelAfter ids patience :=
  Activity.settles_of_answers h (shortens_run load config cancelAfter ids)
    fun turn _ left s _ => exists_run_ne_none load config cancelAfter ids turn left s

theorem settles_whileCancelling {J : σ → Prop} {crashes : Prop} {post : β → Prop}
    (hcrowd : ∀ crowd s, J s → J (Crowded.setCrowd crowd s)) {p : Nat → Option Nat → Activity σ β}
    (h : ∀ cancelAfter, Activity.Settles J crashes post fun patience => p patience cancelAfter)
    (cancelAfter : Option Nat) :
    Activity.Settles J crashes post fun patience =>
      whileCancelling cancelAfter (p patience) := by
  unfold whileCancelling
  split
  · exact h none
  · exact h (some 0)
  · next millis _ =>
    have hjoin : (Activity.modify (changeCrowd (Crowd.join [millis]))).Meets (.standing J) crashes
        (fun _ _ => Activity.Settles J crashes post fun patience => p patience (some millis)) () :=
      fun s hs => ⟨(), trivial, hcrowd _ s hs, h (some millis)⟩
    exact .bind hjoin.settles

end Fetch

end SealedDrive
