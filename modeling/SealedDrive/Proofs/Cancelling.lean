import SealedDrive.Proofs.Clock
import SealedDrive.Proofs.Passers

/-!
Cancelling a listing. Somebody waits for a time and then cancels it, and takes turns for that like
everyone else. So the listing is compared with one beside the same turns that nobody cancels: both
go on alike for as long, and then the one answers that it was cancelled. Only the loading is ended
so. What happens before it, while the metadata is on its way, is noticed when the loading begins,
and not at all when there is nothing to load.
-/

namespace SealedDrive

variable {σ τ α β : Type}

/-! ## Halting -/

namespace Activity

/-- The activity answers such a thing before it waits for anything. -/
def Says (post : α → Prop) : Activity σ α → Prop
  | done a => post a
  | crash => False
  | read next => ∀ s, Says post (next s)
  | write _ next => Says post next
  | allowance _ next => ∀ isLeft, Says post (next isLeft)
  | wait _ _ _ => False

/-- The second activity does what the first does for so many milliseconds. If that was not all, it
then answers such a thing at once. -/
inductive Halts (post : α → Prop) : Nat → Activity σ α → Activity σ α → Prop
  | done {bound : Nat} (a : α) : 0 < bound → Halts post bound (.done a) (.done a)
  | crash (bound : Nat) : Halts post bound .crash .crash
  | read {bound : Nat} {p q : σ → Activity σ α} : (∀ s, Halts post bound (p s) (q s)) →
    Halts post bound (.read p) (.read q)
  | write {bound : Nat} {s : σ} {p q : Activity σ α} : Halts post bound p q →
    Halts post bound (.write s p) (.write s q)
  | allowance {bound : Nat} {takes : Bool} {p q : Bool → Activity σ α} :
    (∀ isLeft, Halts post bound (p isLeft) (q isLeft)) →
    Halts post bound (.allowance takes p) (.allowance takes q)
  | wait {bound millis : Nat} {leave : Leaving → σ → σ} {p q : Activity σ α} : millis ≤ bound →
    Halts post (bound - millis) p q → Halts post bound (.wait millis leave p) (.wait millis leave q)
  | halted {p q : Activity σ α} : q.Says post → Halts post 0 p q

/-- What that comes to on the clock, from one state of the others. -/
structure Stops (turn : Nat → σ → σ) (post : α → Prop) (bound : Nat) (p q : Activity σ α)
    (left : Nat) (s : σ) : Prop where
  inTime : ∀ {spent t : Nat} {a : α}, ((p.timed spent).run turn left s).1 = some (a, t) →
    t < spent + bound → ((q.timed spent).run turn left s).1 = some (a, t)
  late : ∀ {spent t : Nat} {a : α}, ((p.timed spent).run turn left s).1 = some (a, t) →
    spent + bound ≤ t →
    ∃ b, ((q.timed spent).run turn left s).1 = some (b, spent + bound) ∧ post b
  onTime : ∀ {spent t : Nat} {b : α}, ((q.timed spent).run turn left s).1 = some (b, t) →
    t < spent + bound ∧ ((p.timed spent).run turn left s).1 = some (b, t) ∨
      t = spent + bound ∧ post b

variable {post : α → Prop} {bound : Nat} {p q : Activity σ α}

theorem Says.run (h : p.Says post) (turn : Nat → σ → σ) (spent left : Nat) (s : σ) :
    ∃ a, ((p.timed spent).run turn left s).1 = some (a, spent) ∧ post a := by
  induction p generalizing left s with
  | done a => exact ⟨a, rfl, h⟩
  | crash => cases h
  | read next ih => exact ih s (h s) left s
  | write s' next ih => exact ih h left s'
  | allowance takes next ih => exact ih _ (h _) _ s
  | wait millis leave next ih => cases h

theorem Says.bind {f : α → Activity σ β} {post' : β → Prop} (h : p.Says post)
    (hf : ∀ a, post a → (f a).Says post') : (p.bind f).Says post' := by
  induction p with
  | done a => exact hf a h
  | crash => cases h
  | read next ih =>
    intro s
    exact ih s (h s)
  | write s next ih => exact ih h
  | allowance takes next ih =>
    intro isLeft
    exact ih isLeft (h isLeft)
  | wait millis leave next ih => cases h

theorem Says.map {post' : β → Prop} (h : p.Says post) (f : α → β)
    (hf : ∀ a, post a → post' (f a)) : (p.map f).Says post' :=
  h.bind hf

theorem Says.mono {post' : α → Prop} (h : p.Says post) (himp : ∀ a, post a → post' a) :
    p.Says post' :=
  p.bind_done ▸ h.map id himp

theorem says_spend (units : Nat) : (spend units : Activity σ Unit).Says fun _ => True := by
  induction units with
  | zero => trivial
  | succ units ih =>
    intro _
    exact ih

theorem says_spend_done (units : Nat) (a : α) :
    ((spend units : Activity σ Unit).bind fun _ => done a).Says (· = a) :=
  (says_spend units).bind fun _ _ => rfl

theorem says_abandon (leave : Leaving → σ → σ) (after : Nat) :
    (abandon leave after : Activity σ (Option α)).Says (· = none) :=
  (says_spend 1).bind fun _ _ _ => rfl

theorem Says.withinFrom (h : p.Says post) (watches : Bool) (budget : Nat) :
    (p.withinFrom watches budget).Says fun answer => ∃ a, answer = some a ∧ post a := by
  induction p with
  | done a => exact ⟨a, rfl, h⟩
  | crash => cases h
  | read next ih =>
    intro s
    exact ih s (h s)
  | write s next ih => exact ih h
  | allowance takes next ih =>
    intro isLeft
    exact ih isLeft (h isLeft)
  | wait millis leave next ih => cases h

/-- What answers before it waits for anything is not halted later. -/
theorem Says.halts {post' : α → Prop} (h : p.Says post) (hbound : 0 < bound) :
    Halts post' bound p p := by
  induction p with
  | done a => exact .done a hbound
  | crash => cases h
  | read next ih => exact .read fun s => ih s (h s)
  | write s next ih => exact .write (ih h)
  | allowance takes next ih => exact .allowance fun isLeft => ih isLeft (h isLeft)
  | wait millis leave next ih => cases h

theorem Halts.mono {post' : α → Prop} (h : Halts post bound p q) (himp : ∀ a, post a → post' a) :
    Halts post' bound p q := by
  induction h with
  | done a hbound => exact .done a hbound
  | crash bound => exact .crash bound
  | read _ ih => exact .read ih
  | write _ ih => exact .write ih
  | allowance _ ih => exact .allowance ih
  | wait hle _ ih => exact .wait hle ih
  | halted hq => exact .halted (hq.mono himp)

theorem Halts.map {post' : β → Prop} (h : Halts post bound p q) (f : α → β)
    (hf : ∀ a, post a → post' (f a)) : Halts post' bound (p.map f) (q.map f) := by
  induction h with
  | done a hbound => exact .done (f a) hbound
  | crash bound => exact .crash bound
  | read _ ih => exact .read ih
  | write _ ih => exact .write ih
  | allowance _ ih => exact .allowance ih
  | wait hle _ ih => exact .wait hle ih
  | halted hq => exact .halted (hq.map f hf)

/-- Under a bound on the time as well, whichever comes first ends it. When both come together it may
be the bound. -/
theorem Halts.withinFrom (h : Halts post bound p q) (watches : Bool) (budget : Nat) :
    Halts (fun answer => (∃ a, answer = some a ∧ post a) ∨ answer = none ∧ bound = budget) bound
      (p.withinFrom watches budget) (q.withinFrom watches budget) := by
  induction h generalizing watches budget with
  | done a hbound => exact .done (some a) hbound
  | crash bound => exact .crash bound
  | read _ ih => exact .read fun s => ih s watches budget
  | write _ ih => exact .write (ih watches budget)
  | allowance _ ih => exact .allowance fun isLeft => ih isLeft watches budget
  | @wait bound millis leave p q hle _ ih =>
    unfold Activity.withinFrom
    split
    · next hover =>
      -- no time is left under the bound
      rcases Nat.eq_zero_or_pos bound with rfl | hbound
      · exact .halted ((says_abandon leave 0).mono fun _ ha => .inr ⟨ha, hover.2.symm⟩)
      · exact (says_abandon leave 0).halts hbound
    split
    · next hfits =>
      refine .wait hle ((ih true (budget - millis)).mono fun answer ha => ?_)
      rcases ha with ha | ⟨hnone, hsame⟩
      · exact .inl ha
      · exact .inr ⟨hnone, by omega⟩
    · next hlong =>
      -- the wait outlasts the bound, which comes before the halt
      have hleft : 0 < bound - budget := by omega
      exact .wait (by omega) ((says_abandon leave budget).halts hleft)
  | halted hq => exact .halted ((hq.withinFrom watches budget).mono fun _ ha => .inl ha)

theorem Halts.stops (h : Halts post bound p q) (turn : Nat → σ → σ) (left : Nat) (s : σ) :
    Stops turn post bound p q left s := by
  induction h generalizing left s with
  | @done bound a hbound =>
    refine ⟨fun h _ => h, fun h hle => ?_, fun h => ?_⟩
    · cases h
      omega
    · refine .inl ⟨?_, h⟩
      cases h
      omega
  | crash bound => exact ⟨fun h => (by cases h), fun h => (by cases h), fun h => (by cases h)⟩
  | read _ ih => exact ⟨(ih s left s).inTime, (ih s left s).late, (ih s left s).onTime⟩
  | @write _ s' _ _ _ ih => exact ⟨(ih left s').inTime, (ih left s').late, (ih left s').onTime⟩
  | allowance _ ih => exact ⟨(ih _ _ s).inTime, (ih _ _ s).late, (ih _ _ s).onTime⟩
  | @wait bound millis leave p q hle _ ih =>
    have hrest := ih fullAllowance (turn millis s)
    have hsum : ∀ spent, spent + millis + (bound - millis) = spent + bound := by omega
    refine ⟨fun {spent _ _} h hlt => ?_, fun {spent _ _} h hlate => ?_, fun {spent _ _} h => ?_⟩
    · exact hrest.inTime h (by rwa [hsum])
    · exact hsum spent ▸ hrest.late h (by rwa [hsum])
    · exact hsum spent ▸ hrest.onTime h
  | halted hq =>
    refine ⟨fun h hlt => ?_, fun {spent _ _} _ _ => hq.run turn spent left s,
      fun {spent _ _} h => ?_⟩
    · have hle := le_of_run_timed h
      omega
    · obtain ⟨b, hb, hpost⟩ := hq.run turn spent left s
      cases hb.symm.trans h
      exact .inr ⟨rfl, hpost⟩

end Activity

/-! ## Rounds -/

namespace Fetch

variable [Crowded σ] {bound : Nat}

/-- What a listing answers that is cancelled when it has loaded for so long. A deadline that is over
at the same time may come first. -/
def Interrupts (config : ListerConfig) (millis : Nat) (answer : Except DriveError β) : Prop :=
  answer = .error .cancelled ∨
    ∃ span, config.deadline = some span ∧ millis = span.millis ∧ answer = .error (.timedOut span)

theorem says_rounds (load : String → Activity σ (Except DriveError α)) (patience : Nat)
    (l : Lineup) (f : Fetch σ α) :
    (rounds load (patience + 1) (some 0) l f).Says (· = .error .cancelled) := by
  unfold rounds
  intro s
  exact Activity.says_spend_done _ _

/-- The caller has no part in the turns of the others, so these are the same until the passer has
its last one. Then the caller notices that it was cancelled. -/
theorem halts_rounds (load : String → Activity σ (Except DriveError α)) {l : Lineup}
    (h : l.line.Expects .passer bound) (hbound : 0 < bound) (patience : Nat) (f : Fetch σ α) :
    Activity.Halts (· = .error .cancelled) bound (rounds load patience none l f)
      (rounds load patience (some bound) l f) := by
  induction patience generalizing bound l f with
  | zero => exact .crash bound
  | succ patience ih =>
    have hne : some bound ≠ some 0 := fun he => hbound.ne' (Option.some.inj he)
    unfold rounds
    refine .read fun s => ?_
    have hl := expects_round load h hbound f s
    generalize Fetch.round load l f s = r at hl ⊢
    obtain ⟨l', g, s'⟩ := r
    change l'.line.Expects .passer bound at hl
    simp only [reduceCtorEq, if_false, hne, Option.map_none, Option.map_some]
    generalize g.collectAll = c
    split
    · exact .write ((Activity.says_spend_done _ _).halts hbound)
    · have hle := hl.pause_le
      have hrest : Activity.Halts (· = .error .cancelled) (bound - l'.line.pause)
          (rounds load patience none (l'.elapse l'.line.pause) c)
          (rounds load patience (some (bound - l'.line.pause)) (l'.elapse l'.line.pause) c) := by
        rcases Nat.eq_zero_or_pos (bound - l'.line.pause) with hzero | hpos
        · rw [hzero]
          cases patience with
          | zero => exact .crash 0
          | succ patience => exact .halted (says_rounds load patience _ c)
        · exact ih (hl.elapse_pause (by omega)) hpos c
      refine .write ?_
      split
      · next hzero =>
        refine .wait (Nat.zero_le _) ?_
        convert hrest using 1
        rw [hzero]
      · exact .wait hle (.wait (Nat.zero_le _) hrest)

/-- Begin to load in such a state; the passers that are there are beside the listing from now
on. -/
def enter (load : String → Activity σ (Except DriveError α)) (config : ListerConfig)
    (cancelAfter : Option Nat) (ids : List String) (s : σ) :
    Activity σ (Except DriveError (Gathered α)) :=
  let f := start config ids
  let count := f.workers.length
  let crowd := Crowded.crowd s
  .write (Crowded.setCrowd {} s) <| .wait 0 (fun _ => Crowded.setCrowd (passedBy count crowd)) <|
    rounds load patience cancelAfter (Lineup.start crowd count) f

theorem runAll_eq (load : String → Activity σ (Except DriveError α)) (config : ListerConfig)
    {cancelAfter : Option Nat} (hne : cancelAfter ≠ some 0) (ids : List String) :
    runAll load config cancelAfter ids =
      .allowance false fun _ => .read (enter load config cancelAfter ids) := by
  unfold runAll enter
  simp only [hne, decide_false, Bool.false_and, Bool.false_eq_true, if_false]

theorem halts_enter (load : String → Activity σ (Except DriveError α)) (config : ListerConfig)
    (ids : List String) {s : σ} (h : (Crowded.crowd s).Expects bound) (hbound : 0 < bound) :
    Activity.Halts (· = .error .cancelled) bound (enter load config none ids s)
      (enter load config (some bound) ids s) :=
  .write (.wait (Nat.zero_le _) (halts_rounds load h.joinedBy hbound _ _))

/-- Whoever is to cancel the loading stands among the passers when it begins. -/
theorem stops_run (load : String → Activity σ (Except DriveError α)) (config : ListerConfig)
    (ids : List String) {s : σ} (h : (Crowded.crowd s).Expects bound) (hbound : 0 < bound)
    (turn : Nat → σ → σ) (left : Nat) :
    Activity.Stops turn (Interrupts config bound) bound (Fetch.run load config none ids)
      (Fetch.run load config (some bound) ids) left s := by
  have hne : some bound ≠ some 0 := fun he => hbound.ne' (Option.some.inj he)
  have henter := halts_enter load config ids h hbound
  unfold Fetch.run
  cases ids.isEmpty with
  | true => exact (Activity.Halts.done _ hbound).stops turn left s
  | false =>
    simp only [Bool.false_eq_true, if_false, runAll_eq load config hne,
      runAll_eq load config (Option.some_ne_none 0).symm]
    cases hd : config.deadline with
    | none =>
      have hcancelled : Activity.Halts (Interrupts config bound) bound _ _ :=
        henter.mono fun _ => .inl
      have hstops := hcancelled.stops turn left s
      exact ⟨hstops.inTime, hstops.late, hstops.onTime⟩
    | some span =>
      have hwithin := henter.withinFrom (0 < left) span.millis
      have hbefore : Activity.Halts (Interrupts config bound) bound _ _ :=
        hwithin.map (fun answer => answer.getD (.error (.timedOut span))) fun answer ha => by
          rcases ha with ⟨_, rfl, rfl⟩ | ⟨rfl, hsame⟩
          · exact .inl rfl
          · exact .inr ⟨span, hd, hsame, rfl⟩
      have hstops := hbefore.stops turn left s
      exact ⟨hstops.inTime, hstops.late, hstops.onTime⟩

/-- With nothing left of the allowance the turn is given up first, and then the cancellation is
noticed, under a bound too. -/
theorem run_giveUp (load : String → Activity σ (Except DriveError α)) (config : ListerConfig)
    (ids : List String) (patience : Nat) (turn : Nat → σ → σ) (spent : Nat) (s : σ) :
    (((runAll load config (some 0) ids (patience + 1)).timed spent).run turn 0 s).1 =
      some (.error .cancelled, spent) ∧
    ∀ error bound, ((((runAll load config (some 0) ids (patience + 1)).orElse error bound).timed
      spent).run turn 0 s).1 = some (.error .cancelled, spent) := by
  let f : Fetch σ α := start config ids
  have hrounds := says_rounds load patience (Lineup.start (Crowded.crowd s) f.workers.length) f
  refine ⟨?_, fun error bound => ?_⟩
  · obtain ⟨answer, hanswer, rfl⟩ := hrounds.run turn spent Activity.fullAllowance
      (turn 0 (Crowded.setCrowd {} s))
    exact hanswer
  · have hbounded : Activity.Says (· = Except.error DriveError.cancelled) _ :=
      (hrounds.withinFrom true bound).map (fun answer => answer.getD (.error error))
        fun answer ha => by
          obtain ⟨_, rfl, rfl⟩ := ha
          rfl
    obtain ⟨answer, hanswer, rfl⟩ := hbounded.run turn spent Activity.fullAllowance
      (turn 0 (Crowded.setCrowd {} s))
    exact hanswer

/-- What was cancelled beforehand is not loaded, if there is anything to load. -/
theorem run_cancelled (load : String → Activity σ (Except DriveError α)) (config : ListerConfig)
    {ids : List String} (hids : ids ≠ []) {patience : Nat} (hpatience : 0 < patience)
    (turn : Nat → σ → σ) (spent left : Nat) (s : σ) :
    (((Fetch.run load config (some 0) ids patience).timed spent).run turn left s).1 =
      some (.error .cancelled, spent) := by
  have hempty : ids.isEmpty = false := by simpa using hids
  unfold Fetch.run
  rw [if_neg (by simp [hempty])]
  cases left with
  | succ left =>
    split
    · rfl
    · rfl
  | zero =>
    obtain ⟨n, rfl⟩ : ∃ n, patience = n + 1 := ⟨patience - 1, by omega⟩
    obtain ⟨hfree, hbounded⟩ := run_giveUp load config ids n turn spent s
    split
    · exact hfree
    · exact hbounded _ _

end Fetch

/-! ## Beside the bench -/

theorem Activity.map_focus {get : τ → σ} {set : σ → τ → τ} (p : Activity σ α) (f : α → β) :
    (p.focus get set).map f = (p.map f).focus get set := by
  induction p with
  | done a => rfl
  | crash => rfl
  | read next ih => exact congrArg read (funext fun t => ih (get t))
  | write s next ih => exact congrArg read (funext fun t => congrArg (write (set s t)) ih)
  | allowance takes next ih => exact congrArg (allowance takes) (funext ih)
  | wait millis leave next ih => exact congrArg (wait millis _) ih

namespace World

/-- Work on the bench alone. -/
def onBench (p : Activity Bench α) : Activity World α :=
  p.focus bench fun bench world => { world with bench }

/-- What works on the bench knows nothing of the passers, and their time passes with its waits. -/
theorem run_onBench {p : Activity Bench α} {spent left left' t : Nat} {world world' v : World}
    {a : α} (hbench : world'.bench = world.bench)
    (h : ((onBench p).timed spent).run turn left world = (some (a, t), left', v)) :
    ∃ v', ((onBench p).timed spent).run turn left world' = (some (a, t), left', v') ∧
      ∀ due, t < spent + due → world'.crowd.Expects due →
        v'.crowd.Expects (spent + due - t) := by
  induction p generalizing spent left world world' with
  | done a =>
    cases h
    refine ⟨world', rfl, fun due _ hdue => ?_⟩
    rwa [Nat.add_sub_cancel_left]
  | crash => cases h
  | read next ih =>
    obtain ⟨v', hrun, hcrowd⟩ := ih _ hbench h
    refine ⟨v', ?_, hcrowd⟩
    rw [← hrun, ← hbench]
    rfl
  | write bench next ih =>
    have hsame : ({ world' with bench } : World).bench = ({ world with bench } : World).bench := rfl
    exact ih hsame h
  | allowance takes next ih => exact ih _ hbench h
  | wait millis leave next ih =>
    have hturn : (turn millis world').bench = (turn millis world).bench := by
      simp only [turn, hbench]
    obtain ⟨v', hrun, hcrowd⟩ := ih hturn h
    refine ⟨v', hrun, fun due hlt hdue => ?_⟩
    have hle := Activity.le_of_run_timed (p := onBench next) (congrArg Prod.fst h)
    have hafter := hcrowd (due - millis) (by omega) (hdue.afterWait (by omega))
    have hsum : spent + millis + (due - millis) - t = spent + due - t := by omega
    exact hsum ▸ hafter

end World

/-! ## Listings -/

namespace Session

section

variable [Crowded τ]

/-- A listing that is cancelled so many milliseconds from now, by somebody who is there already. -/
def listingUnder (service : Service τ) (session : Session) (config : ListerConfig)
    (volumeId : Option String) (all : Bool) (cancelAfter : Option Nat) :
    Activity τ (Except DriveError ShareListing) :=
  ((listMetadata service all).timed 0).bind fun (metadata, spent) =>
    match metadata with
    | .error error => .done (.error error)
    | .ok metadata =>
      Fetch.run (session.share service) config (cancelAfter.map (· - spent))
        (wantedIds volumeId metadata)

theorem listSharesWith_eq (service : Service τ) (session : Session) (config : ListerConfig)
    (cancelAfter : Option Nat) (volumeId : Option String) (all : Bool) :
    session.listSharesWith service config cancelAfter volumeId all =
      Fetch.whileCancelling cancelAfter (session.listingUnder service config volumeId all) :=
  rfl

variable {service : Service τ} {all : Bool} {turn : Nat → τ → τ} {left left' millis : Nat}
  {s s' : τ} {config : ListerConfig} {volumeId : Option String} {cancelAfter : Option Nat}

theorem run_listingUnder_error {error : DriveError}
    (hm : ((listMetadata service all).timed 0).run turn left s =
      (some (.error error, millis), left', s')) (session : Session) :
    (((session.listingUnder service config volumeId all cancelAfter).timed 0).run turn left s).1 =
      some (.error error, millis) := by
  unfold listingUnder
  rw [Activity.run_timed_bind hm]
  rfl

/-- When the loading begins, the cancellation is as much closer as the metadata took. -/
theorem run_listingUnder {shares : List ShareMetadata}
    (hm : ((listMetadata service all).timed 0).run turn left s =
      (some (.ok shares, millis), left', s')) (session : Session) :
    ((session.listingUnder service config volumeId all cancelAfter).timed 0).run turn left s =
      ((Fetch.run (session.share service) config (cancelAfter.map (· - millis))
        (wantedIds volumeId shares)).timed millis).run turn left' s' := by
  unfold listingUnder
  rw [Activity.run_timed_bind hm]

end

/-- What a listing answers and how many milliseconds after it was called, when its token is
cancelled so many milliseconds after that. -/
def clockCancelled (session : Session) (config : ListerConfig) (cancelAfter : Nat)
    (volumeId : Option String) (all direct : Bool) (left : Nat) (world : World) :
    Option (Except DriveError ShareListing × Nat) :=
  (((session.listSharesWith (World.service direct) config (some cancelAfter) volumeId all).timed
    0).run World.turn left world).1

/-- The same when somebody waits as long, but to cancel something else. -/
def clockBeside (session : Session) (config : ListerConfig) (cancelAfter : Nat)
    (volumeId : Option String) (all direct : Bool) (left : Nat) (world : World) :
    Option (Except DriveError ShareListing × Nat) :=
  (((Fetch.whileCancelling (some cancelAfter) fun _ =>
    session.listSharesWith (World.service direct) config none volumeId all).timed 0).run World.turn
      left world).1

/-- How a listing ends that is cancelled after `due` milliseconds, when the metadata came after
`millis` and these shares are wanted. Beside it stands what it answers if nobody cancels it. -/
structure Cancels (config : ListerConfig) (wanted : List String) (millis due : Nat)
    (beside clock : Option (Except DriveError ShareListing × Nat)) : Prop where
  /-- With nothing to load, it does not notice. -/
  idle : wanted = [] → clock = some (.ok {}, millis)
  /-- What happened while the metadata was on its way is noticed when that has come. -/
  beforehand : wanted ≠ [] → due ≤ millis → clock = some (.error .cancelled, millis)
  /-- What is answered before is what is answered anyway. -/
  inTime : millis < due → ∀ answer t, beside = some (answer, t) → t < due →
    clock = some (answer, t)
  /-- While it loads, it is cancelled at that moment. -/
  late : millis < due → ∀ answer t, beside = some (answer, t) → due ≤ t →
    ∃ answer, clock = some (answer, due) ∧ Fetch.Interrupts config (due - millis) answer
  onTime : millis < due → ∀ answer t, clock = some (answer, t) →
    t < due ∧ beside = some (answer, t) ∨
      t = due ∧ Fetch.Interrupts config (due - millis) answer

/-- Whoever is to cancel a listing is among the passers before the metadata is asked for. -/
theorem clocks_eq (session : Session) (config : ListerConfig) (cancelAfter : Nat)
    (volumeId : Option String) (all direct : Bool) (left : Nat) (world : World) :
    ∃ world' : World, world'.bench = world.bench ∧
      (0 < cancelAfter → world'.crowd.Expects cancelAfter) ∧
      session.clockCancelled config cancelAfter volumeId all direct left world =
        (((session.listingUnder (World.service direct) config volumeId all
          (some cancelAfter)).timed 0).run World.turn left world').1 ∧
      session.clockBeside config cancelAfter volumeId all direct left world =
        (((session.listingUnder (World.service direct) config volumeId all none).timed 0).run
          World.turn left world').1 := by
  unfold clockCancelled clockBeside
  simp only [listSharesWith_eq]
  cases cancelAfter with
  | zero => exact ⟨world, rfl, fun h => absurd h (by simp), rfl, rfl⟩
  | succ millis =>
    exact ⟨Fetch.changeCrowd (Crowd.join [millis + 1]) world, rfl,
      fun _ => Crowd.expects_join _ world.crowd, rfl, rfl⟩

theorem run_listMetadata {all direct : Bool} {left millis : Nat} {world world' : World}
    {metadata : Except DriveError (List ShareMetadata)} (hbench : world'.bench = world.bench)
    (hm : (((listMetadata (World.service direct) all).timed 0).run World.turn left world).1 =
      some (metadata, millis)) :
    ∃ left' v, ((listMetadata (World.service direct) all).timed 0).run World.turn left world' =
        (some (metadata, millis), left', v) ∧
      ∀ due, millis < due → world'.crowd.Expects due → v.crowd.Expects (due - millis) := by
  obtain ⟨p, hp⟩ : ∃ p, listMetadata (World.service direct) all = World.onBench p :=
    ⟨_, Activity.map_focus _ _⟩
  rw [hp] at hm ⊢
  obtain ⟨v, hrun, hcrowd⟩ := World.run_onBench hbench (Prod.ext hm rfl)
  exact ⟨_, v, hrun, by simpa using hcrowd⟩

/-- Cancelling a listing of shares ends the loading at that moment, whatever takes how long. It does
not end the wait for the metadata, whose error is the answer if it has one, and neither does it show
when there is nothing to load. -/
theorem cancellation_ends_loading {all direct : Bool} {left millis : Nat} {world : World}
    {metadata : Except DriveError (List ShareMetadata)}
    (hm : (((listMetadata (World.service direct) all).timed 0).run World.turn left world).1 =
      some (metadata, millis))
    (session : Session) (config : ListerConfig) (cancelAfter : Nat) (volumeId : Option String) :
    match metadata with
    | .error error =>
      session.clockCancelled config cancelAfter volumeId all direct left world =
        some (.error error, millis)
    | .ok shares =>
      Cancels config (wantedIds volumeId shares) millis cancelAfter
        (session.clockBeside config cancelAfter volumeId all direct left world)
        (session.clockCancelled config cancelAfter volumeId all direct left world) := by
  obtain ⟨world', hbench, hexpects, hclock, hbeside⟩ :=
    session.clocks_eq config cancelAfter volumeId all direct left world
  obtain ⟨left', v, hrun, hcrowd⟩ := run_listMetadata hbench hm
  rw [hclock, hbeside]
  cases metadata with
  | error error => exact run_listingUnder_error hrun session
  | ok shares =>
    rw [run_listingUnder hrun session, run_listingUnder hrun session]
    have hstops : millis < cancelAfter → Activity.Stops World.turn
        (Fetch.Interrupts config (cancelAfter - millis)) (cancelAfter - millis) _ _ left' v :=
      fun hlt =>
      Fetch.stops_run (session.share (World.service direct)) config (wantedIds volumeId shares)
        (hcrowd cancelAfter hlt (hexpects (by omega))) (by omega) World.turn left'
    have hsum : millis < cancelAfter → millis + (cancelAfter - millis) = cancelAfter := by omega
    refine ⟨fun hnone => ?_, fun hwanted hle => ?_, fun hlt answer t h hin => ?_,
      fun hlt answer t h hle => ?_, fun hlt answer t h => ?_⟩
    · rw [hnone]
      rfl
    · rw [Option.map_some, Nat.sub_eq_zero_of_le hle]
      exact Fetch.run_cancelled _ config hwanted (by decide) World.turn millis left' v
    · exact (hstops hlt).inTime h (by rwa [hsum hlt])
    · have hlate := (hstops hlt).late h (by rwa [hsum hlt])
      rwa [hsum hlt] at hlate
    · have honTime := (hstops hlt).onTime h
      rwa [hsum hlt] at honTime

end Session

/-- Loads of five seconds are left after one. -/
theorem Session.cancellation_ends_loading_contest :
    Contest.session.clockCancelled {} 1000 none false false 128 (Contest.slowWorld 300 5000) =
      some (.error .cancelled, 1000) := by
  have hm : (((Session.listMetadata (World.service false) false).timed 0).run World.turn 128
      (Contest.slowWorld 300 5000)).1 = some (.ok (Contest.server.listShares false), 300) := rfl
  have hbeside : Contest.session.clockBeside {} 1000 none false false 128
      (Contest.slowWorld 300 5000) = some (_, 5300) := rfl
  have hcancels := Session.cancellation_ends_loading hm Contest.session {} 1000 none
  obtain ⟨answer, hclock, rfl | ⟨span, hspan, -⟩⟩ :=
    hcancels.late (by decide) _ _ hbeside (by decide)
  · exact hclock
  · cases hspan

namespace Contest

/-- The metadata is refused after a while. -/
def refusingWorld (millis : Nat) : World where
  bench := ⟨{ account with server }, [],
    [⟨"list_shares", none, some millis, some (.fail .unauthorized)⟩], []⟩

end Contest

/-- Cancelled before it began, a listing of no shares comes out well. Cancelled after a second, one
whose metadata is refused after five says so after five. -/
theorem cancelled_listing_waits :
    Contest.session.clockCancelled {} 0 (some "volume-9") false false 128
      (Contest.slowWorld 0 0) = some (.ok {}, 0) ∧
    Contest.session.clockCancelled {} 1000 none false false 128 (Contest.refusingWorld 5000) =
      some (.error (.api .unauthorized), 5000) := by
  exact ⟨rfl, rfl⟩

end SealedDrive
