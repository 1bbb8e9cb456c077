import SealedDrive.Proofs.Schedules

/-!
Bounds on the clock. An activity under a bound does what it does without, as long as that takes less
time; else its answer is that of the bound, at that time and no later. For a listing the clock of
the bound starts when the metadata of the shares has come, so what the first request takes comes on
top of it.
-/

namespace SealedDrive

variable {σ τ α β γ ε Γ : Type}

namespace Activity

/-- The second activity answers like the first when that takes less than so many milliseconds, and
else, once they are over, `late`. -/
structure Cuts (turn : Nat → σ → σ) (bound : Nat) (answer : α → β) (late : β) (p : Activity σ α)
    (q : Activity σ β) : Prop where
  inTime : ∀ {spent left left' t : Nat} {s s' : σ} {a : α},
    (p.timed spent).run turn left s = (some (a, t), left', s') → t < spent + bound →
    (q.timed spent).run turn left s = (some (answer a, t), left', s')
  late : ∀ {spent left t : Nat} {s : σ} {a : α},
    ((p.timed spent).run turn left s).1 = some (a, t) → spent + bound < t →
    ((q.timed spent).run turn left s).1 = some (late, spent + bound)
  inBound : ∀ {spent left t : Nat} {s : σ} {b : β},
    ((q.timed spent).run turn left s).1 = some (b, t) → spent ≤ t ∧ t ≤ spent + bound

variable {turn : Nat → σ → σ} {bound : Nat} {answer : α → β} {late : β} {p : Activity σ α}
  {q : Activity σ β}

/-! ## Time that is spent -/

theorem timed_bind (p : Activity σ α) (f : α → Activity σ β) (spent : Nat) :
    (p.bind f).timed spent = (p.timed spent).bind fun r => (f r.1).timed r.2 := by
  induction p generalizing spent with
  | done a => rfl
  | crash => rfl
  | read next ih => exact congrArg read (funext fun s => ih s spent)
  | write s next ih => exact congrArg (write s) (ih spent)
  | allowance takes next ih =>
    exact congrArg (allowance takes) (funext fun isLeft => ih isLeft spent)
  | wait millis leave next ih => exact congrArg (wait millis leave) (ih _)

/-- Two clocks that start together show the same. -/
theorem timed_timed (p : Activity σ α) (spent : Nat) :
    (p.timed spent).timed spent = (p.timed spent).map fun r => (r, r.2) := by
  induction p generalizing spent with
  | done a => rfl
  | crash => rfl
  | read next ih => exact congrArg read (funext fun s => ih s spent)
  | write s next ih => exact congrArg (write s) (ih spent)
  | allowance takes next ih =>
    exact congrArg (allowance takes) (funext fun isLeft => ih isLeft spent)
  | wait millis leave next ih => exact congrArg (wait millis leave) (ih _)

/-- Whatever goes on with the time that was spent begins when that time is over. -/
theorem run_timed_bind {p : Activity σ α} {turn : Nat → σ → σ} {left left' millis : Nat}
    {s s' : σ} {a : α} (h : (p.timed 0).run turn left s = (some (a, millis), left', s'))
    (f : α × Nat → Activity σ β) :
    (((p.timed 0).bind f).timed 0).run turn left s =
      ((f (a, millis)).timed millis).run turn left' s' := by
  rw [timed_bind, timed_timed, Activity.map, run_bind, run_bind, h]
  rfl

/-- The clock does not go back. -/
theorem le_of_run_timed {p : Activity σ α} {spent left t : Nat} {s : σ} {a : α}
    (h : ((p.timed spent).run turn left s).1 = some (a, t)) : spent ≤ t := by
  induction p generalizing spent left s with
  | done a =>
    cases h
    exact Nat.le_refl _
  | crash => cases h
  | read next ih => exact ih _ h
  | write s next ih => exact ih h
  | allowance takes next ih => exact ih _ h
  | wait millis leave next ih => exact Nat.le_of_add_right_le (ih h)

/-! ## Under a bound -/

theorem cuts_done (a : α) : Cuts turn bound answer late (done a) (done (answer a)) where
  inTime h _ := by cases h; rfl
  late h hlt := by
    cases h
    omega
  inBound h := by
    cases h
    omega

/-- What takes so long in any case is cut off. -/
theorem cuts_of_le (hq : ∀ spent left s, ((q.timed spent).run turn left s).1 =
      some (late, spent + bound))
    (hp : ∀ {spent left t s a}, ((p.timed spent).run turn left s).1 = some (a, t) →
      spent + bound ≤ t) : Cuts turn bound answer late p q where
  inTime h hlt := by
    have hle := hp (congrArg Prod.fst h)
    omega
  late _ _ := hq _ _ _
  inBound h := by
    cases (hq _ _ _).symm.trans h
    omega

theorem cuts_withinFrom (p : Activity σ α) (watches : Bool) (budget : Nat) :
    Cuts turn budget some none p (withinFrom watches budget p) := by
  induction p generalizing watches budget with
  | done a => exact cuts_done a
  | crash => exact ⟨fun h => (by cases h), fun h => (by cases h), fun h => (by cases h)⟩
  | read next ih =>
    exact ⟨(ih _ watches budget).inTime, (ih _ watches budget).late, (ih _ watches budget).inBound⟩
  | write s next ih =>
    exact ⟨(ih watches budget).inTime, (ih watches budget).late, (ih watches budget).inBound⟩
  | allowance takes next ih =>
    exact ⟨(ih _ watches budget).inTime, (ih _ watches budget).late, (ih _ watches budget).inBound⟩
  | wait millis leave next ih =>
    unfold withinFrom
    split
    · next hover =>
      -- no time is left, so the wait is not begun
      rw [hover.2]
      exact cuts_of_le (fun _ _ _ => rfl) le_of_run_timed
    split
    · next hfits =>
      have hrest := ih true (budget - millis)
      refine ⟨fun h hlt => hrest.inTime h (by omega), fun {spent _ _ _ _} h hlt => ?_, fun h => ?_⟩
      · have hsum : spent + millis + (budget - millis) = spent + budget := by omega
        exact hsum ▸ hrest.late h (by omega)
      · have hbounds := hrest.inBound h
        omega
    · next hlong =>
      -- the wait outlasts what is left
      refine cuts_of_le (fun _ _ _ => rfl) fun h => ?_
      have hle := le_of_run_timed (p := next) h
      omega

theorem Cuts.map (h : Cuts turn bound answer late p q) (f : β → γ) :
    Cuts turn bound (fun a => f (answer a)) (f late) p (q.map f) := by
  have hrun : ∀ spent left s, ((q.map f).timed spent).run turn left s =
      match (q.timed spent).run turn left s with
      | (some (b, t), left', s') => (some (f b, t), left', s')
      | (none, left', s') => (none, left', s') := fun spent left s => by
    rw [Activity.map, timed_bind, run_bind]
    rcases (q.timed spent).run turn left s with ⟨_ | ⟨b, t⟩, left', s'⟩ <;> rfl
  refine ⟨fun h' hlt => ?_, fun {spent left _ s _} h' hlt => ?_, fun {spent left _ s _} h' => ?_⟩
  · rw [hrun, h.inTime h' hlt]
  · have hlate := h.late h' hlt
    rw [hrun]
    generalize (q.timed spent).run turn left s = r at hlate
    obtain ⟨b, left', s'⟩ := r
    cases hlate
    rfl
  · rw [hrun] at h'
    cases hr : (q.timed spent).run turn left s with
    | mk b rest =>
      obtain ⟨left', s'⟩ := rest
      rw [hr] at h'
      cases b with
      | none => cases h'
      | some b =>
        cases h'
        exact h.inBound (congrArg Prod.fst hr)

theorem cuts_within (p : Activity σ α) (budget : Nat) :
    Cuts turn budget some none p (p.within budget) where
  inTime h hlt := (cuts_withinFrom p _ budget).inTime h hlt
  late h hlt := (cuts_withinFrom p _ budget).late h hlt
  inBound h := (cuts_withinFrom p _ budget).inBound h

/-- A bound in front of an activity cuts it off with its error. -/
theorem cuts_before (p : Activity σ (Except ε α)) (span : Span) (error : ε) :
    Cuts turn span.millis id (.error error) p (p.before span error) :=
  (cuts_within p span.millis).map fun answer => answer.getD (.error error)

/-- An activity and what goes on with its answer, under one bound: either it ends in time, and the
rest has what is left of the time, or the time is up while it waits. -/
theorem Meets.run_withinFrom_bind {d : Discipline Γ σ} {crashes : Prop} {post : α → Γ → Prop}
    {g : Γ} {p : Activity σ α} (h : p.Meets d crashes post g)
    (ht : ∀ millis, d.Allows (turn millis)) (f : α → Activity σ β) (watches : Bool)
    (budget spent left : Nat) {s : σ} (hs : d.describes g s) :
    ∃ g', d.step g g' ∧
      ((∃ a t left' s' watches', (p.timed spent).run turn left s = (some (a, t), left', s') ∧
          t ≤ spent + budget ∧ d.describes g' s' ∧ post a g' ∧
          (((p.bind f).withinFrom watches budget).timed spent).run turn left s =
            (((f a).withinFrom watches' (spent + budget - t)).timed t).run turn left' s') ∨
        (∃ left' s', (((p.bind f).withinFrom watches budget).timed spent).run turn left s =
            (some (none, spent + budget), left', s') ∧ d.describes g' s' ∧
          ∀ a t, ((p.timed spent).run turn left s).1 = some (a, t) → spent + budget ≤ t) ∨
        crashes ∧ ((p.timed spent).run turn left s).1 = none ∧ ∃ left' s',
          (((p.bind f).withinFrom watches budget).timed spent).run turn left s =
            (none, left', s') ∧ d.describes g' s') := by
  induction p generalizing g watches budget spent left s with
  | done a =>
    refine ⟨g, d.refl g, .inl ⟨a, spent, left, s, watches, rfl, Nat.le_add_right _ _, hs, h, ?_⟩⟩
    rw [Nat.add_sub_cancel_left]
    rfl
  | crash => exact ⟨g, d.refl g, .inr (.inr ⟨h, rfl, left, s, rfl, hs⟩)⟩
  | read next ih => exact ih s (h s hs) watches budget spent left hs
  | write s' next ih =>
    obtain ⟨g', hg, hs', h⟩ := h
    obtain ⟨g'', hg', rest⟩ := ih h watches budget spent left hs'
    exact ⟨g'', d.trans hg hg', rest⟩
  | allowance takes next ih => exact ih _ (h _) watches budget spent _ hs
  | wait millis leave next ih =>
    simp only [Activity.bind, Activity.withinFrom]
    split
    · next hover =>
      obtain ⟨g', hg, hs'⟩ := h.1 (.atOnce 0) g s hs
      refine ⟨g', hg, .inr (.inl ⟨left - 1, _, ?_, hs', fun a t hrun => ?_⟩)⟩
      · rw [hover.2]
        rfl
      · rw [hover.2]
        exact le_of_run_timed hrun
    · split
      · next hfits =>
        obtain ⟨g', hg, hs'⟩ := ht millis g s hs
        obtain ⟨g'', hg', rest⟩ :=
          ih (h.2 g' hg) true (budget - millis) (spent + millis) fullAllowance hs'
        have hsum : spent + millis + (budget - millis) = spent + budget := by omega
        rw [hsum] at rest
        exact ⟨g'', d.trans hg hg', rest⟩
      · next hlong =>
        obtain ⟨g', hg, hs'⟩ := ht budget g s hs
        obtain ⟨g'', hg', hs''⟩ := h.1 (.atOnce budget) g' _ hs'
        refine ⟨g'', d.trans hg hg', .inr (.inl ⟨fullAllowance - 1, _, rfl, hs'', ?_⟩)⟩
        intro a t hrun
        have hle : spent + millis ≤ t := le_of_run_timed (p := next) hrun
        omega

end Activity

/-! ## Listings -/

open Activity

variable [Crowded τ]

theorem Fetch.cuts_run (load : String → Activity τ (Except DriveError α)) {config : ListerConfig}
    {span : Span} (hd : config.deadline = some span) (turn : Nat → τ → τ)
    (cancelAfter : Option Nat) (ids : List String) :
    Cuts turn span.millis id (.error (.timedOut span))
      (Fetch.run load { config with deadlineSecs := none } cancelAfter ids)
      (Fetch.run load config cancelAfter ids) := by
  unfold Fetch.run
  cases ids.isEmpty with
  | true => exact cuts_done _
  | false =>
    simp only [Bool.false_eq_true, if_false, hd]
    exact cuts_before (Fetch.runAll load config cancelAfter ids) span (.timedOut span)

namespace Session

/-- Load the shares that are wanted once the metadata has come. -/
def loadWanted (service : Service τ) (session : Session) (config : ListerConfig)
    (volumeId : Option String) :
    Except DriveError (List ShareMetadata) → Activity τ (Except DriveError ShareListing)
  | .error error => .done (.error error)
  | .ok metadata => Fetch.run (session.share service) config none (wantedIds volumeId metadata)

/-- What a listing answers that nobody cancels, and how many milliseconds after it was called. -/
def clockListing (service : Service τ) (session : Session) (config : ListerConfig)
    (volumeId : Option String) (all : Bool) (turn : Nat → τ → τ) (left : Nat) (s : τ) :
    Option (Except DriveError ShareListing × Nat) × Nat × τ :=
  ((session.listSharesWith service config none volumeId all).timed 0).run turn left s

variable {service : Service τ} {all : Bool} {turn : Nat → τ → τ} {left left' millis : Nat}
  {s s' : τ} {metadata : Except DriveError (List ShareMetadata)} {config : ListerConfig}
  {span : Span}

/-- When the loading begins, the clock has been going for as long as the metadata took. -/
theorem clockListing_eq
    (hm : ((listMetadata service all).timed 0).run turn left s =
      (some (metadata, millis), left', s'))
    (session : Session) (config : ListerConfig) (volumeId : Option String) :
    session.clockListing service config volumeId all turn left s =
      ((session.loadWanted service config volumeId metadata).timed millis).run turn left' s' := by
  unfold clockListing listSharesWith Fetch.whileCancelling
  dsimp only
  rw [run_timed_bind hm]
  cases metadata <;> rfl

theorem cuts_loadWanted (service : Service τ) (session : Session)
    (hd : config.deadline = some span) (turn : Nat → τ → τ) (volumeId : Option String)
    (metadata : Except DriveError (List ShareMetadata)) :
    Cuts turn span.millis id (.error (.timedOut span))
      (session.loadWanted service { config with deadlineSecs := none } volumeId metadata)
      (session.loadWanted service config volumeId metadata) := by
  cases metadata with
  | error error => exact cuts_done _
  | ok metadata => exact Fetch.cuts_run _ hd turn none _

/-- The deadline bounds what comes after the metadata, whatever takes how long: the listing answers
at that time at the latest, then that its time is up if without a deadline it would take longer, and
all the same if it would take less. -/
theorem deadline_bounds_loading (session : Session) (hd : config.deadline = some span)
    (volumeId : Option String)
    (hm : ((listMetadata service all).timed 0).run turn left s =
      (some (metadata, millis), left', s')) :
    (∀ answer t, (session.clockListing service config volumeId all turn left s).1 =
      some (answer, t) → millis ≤ t ∧ t ≤ millis + span.millis) ∧
    (∀ answer t, (session.clockListing service { config with deadlineSecs := none } volumeId all
        turn left s).1 = some (answer, t) →
      (millis + span.millis < t →
        (session.clockListing service config volumeId all turn left s).1 =
          some (.error (.timedOut span), millis + span.millis)) ∧
      (t < millis + span.millis →
        session.clockListing service config volumeId all turn left s =
          session.clockListing service { config with deadlineSecs := none } volumeId all turn left
            s)) := by
  have hcuts := cuts_loadWanted service session hd turn volumeId metadata
  simp only [clockListing_eq hm]
  refine ⟨fun answer t => hcuts.inBound, fun answer t h => ⟨hcuts.late h, fun hlt => ?_⟩⟩
  generalize hr : ((session.loadWanted service { config with deadlineSecs := none } volumeId
    metadata).timed millis).run turn left' s' = r at h
  obtain ⟨found, left'', s''⟩ := r
  cases h
  exact hcuts.inTime hr hlt

end Session

namespace Contest

/-- The metadata takes a while, and then each load does, and fails. -/
def slowFaults (listing loading : Nat) : List Fault :=
  [⟨"list_shares", none, some listing, none⟩,
    ⟨"get_share", none, some loading, some (.fail .unauthorized)⟩]

def slowWorld (listing loading : Nat) : World where
  bench := ⟨{ account with server }, [], slowFaults listing loading, []⟩

/-- A deadline of a second. -/
def punctual : ListerConfig := { deadlineSecs := some 1 }

end Contest

/-- Loads of five seconds are not waited for, but the metadata is. -/
theorem Session.deadline_bounds_loading_contest :
    (Contest.session.clockListing (World.service false) Contest.punctual none false World.turn 128
      (Contest.slowWorld 300 5000)).1 = some (.error (.timedOut (.ofSeconds 1)), 1300) := by
  have hd : Contest.punctual.deadline = some (.ofSeconds 1) := rfl
  have hm : ((Session.listMetadata (World.service false) false).timed 0).run World.turn 128
      (Contest.slowWorld 300 5000) = (some (.ok (Contest.server.listShares false), 300), _, _) :=
    rfl
  have hfree : (Contest.session.clockListing (World.service false)
      { Contest.punctual with deadlineSecs := none } none false World.turn 128
      (Contest.slowWorld 300 5000)).1 = some (_, 5300) := rfl
  obtain ⟨-, hbound⟩ := Session.deadline_bounds_loading Contest.session hd none hm
  exact (hbound _ _ hfree).1 (by decide)

/-- When the metadata takes five seconds, a listing with a deadline of one second answers after
five, and not that its time is up. -/
theorem slow_metadata_outlasts_deadline :
    Contest.punctual.deadline = some (.ofSeconds 1) ∧ (Span.ofSeconds 1).millis = 1000 ∧
    (Contest.session.clockListing (World.service false) Contest.punctual none false World.turn 128
      (Contest.slowWorld 5000 0)).1 =
      some (.ok
        { failures := [("share-3", .api .unauthorized), ("share-5", .api .unauthorized)]
          workers := 2 }, 5000) := by
  exact ⟨rfl, rfl, rfl⟩

end SealedDrive
