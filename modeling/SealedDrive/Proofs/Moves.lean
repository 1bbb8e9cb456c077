import SealedDrive.Listing.Round
import SealedDrive.Proofs.Discipline

/-!
Listings in any order. A step is a move of anyone who can go on, in whatever state the others have
left; what one step can change is said once, and whatever every step keeps is kept by the order in
which a listing is run.
-/

namespace SealedDrive

/-- A round keeps what each turn keeps. -/
theorem Line.turns_keeps {ι σ : Type} {I : σ → Prop} {turn : ι → Line ι → σ → Line ι × σ}
    (ht : ∀ i l s, I s → I (turn i l s).2) (count : Nat) (l : Line ι) {s : σ} (hs : I s) :
    I (l.turns turn count s).2 := by
  induction count generalizing l s with
  | zero => exact hs
  | succ count ih =>
    unfold Line.turns
    split
    · exact hs
    · exact ih _ (ht _ _ _ hs)

namespace Fetch

variable {σ α : Type}

/-- The job that a move takes out of the queue. -/
def handsOut (f : Fetch σ α) : Actor → List Job
  | .worker index =>
    match f.workers[index]? with
    | some .idle => if f.stopped then [] else f.queue.take 1
    | _ => []
  | _ => []

/-- The next move of anyone, in any state that `J` allows, and the jobs that it hands out. -/
inductive Step (load : String → Activity σ (Except DriveError α)) (J : σ → Prop) :
    Fetch σ α → List Job → Fetch σ α → Prop
  | move {f g : Fetch σ α} {actor : Actor} {left left' : Nat} {s s' : σ} : J s →
    f.move? load actor left s = some (g, left', s') → Step load J f (f.handsOut actor) g
  | wake {f g : Fetch σ α} {index : Nat} : f.wake? index = some g → Step load J f [] g

/-- Any number of moves in any order, with all jobs that were handed out. -/
inductive Run (load : String → Activity σ (Except DriveError α)) (J : σ → Prop) :
    Fetch σ α → List Job → Fetch σ α → Prop
  | refl (f : Fetch σ α) : Run load J f [] f
  | tail {f g h : Fetch σ α} {log jobs : List Job} :
    Run load J f log g → Step load J g jobs h → Run load J f (log ++ jobs) h

variable {load : String → Activity σ (Except DriveError α)} {J : σ → Prop} {f g : Fetch σ α}
  {jobs : List Job}

/-! ## What a step changes -/

/-- Everything that one step can change, and under which conditions. -/
inductive Change (load : String → Activity σ (Except DriveError α)) (J : σ → Prop)
    (f : Fetch σ α) : List Job → Fetch σ α → Prop
  /-- The producer goes, because nobody takes jobs any more. -/
  | abandon : f.closed = false → f.stopped = true ∨ f.workers.all (·.isGone) = true →
    Change load J f [] { f with offered := none, closed := true }
  /-- The producer goes, because nothing is left to hand out. -/
  | close : f.closed = false → f.offered = none → f.backlog = [] →
    Change load J f [] { f with closed := true }
  | send {job : Job} {rest : List Job} : f.closed = false → f.offered = none →
    f.backlog = job :: rest →
    Change load J f [] { f with backlog := rest, queue := f.queue ++ [job] }
  | offer {job : Job} {rest : List Job} : f.closed = false → f.offered = none →
    f.backlog = job :: rest → f.queue ≠ [] →
    Change load J f [] { f with backlog := rest, offered := some job }
  | take {index : Nat} {job : Job} {rest : List Job} : f.workers[index]? = some .idle →
    f.stopped = false → f.queue = job :: rest →
    Change load J f [job]
      (setWorker { f with queue := rest ++ f.offered.toList, offered := none } index
        (.loading job (load job.id)))
  /-- A worker goes, because nothing is left to take. -/
  | finish {index : Nat} : f.workers[index]? = some .idle → f.queue = [] → f.closed = true →
    Change load J f [] (f.setWorker index .finished)
  /-- A worker goes, because the caller is gone. -/
  | quit {index : Nat} {worker : Worker σ α} : f.stopped = true →
    f.workers[index]? = some worker → worker.isGone = false →
    Change load J f [] (f.quit index worker)
  | deliver {index left left' : Nat} {job : Job} {rest : Activity σ (Except DriveError α)}
    {result : Except DriveError α} {s s' : σ} : f.workers[index]? = some (.loading job rest) →
    J s → rest.burst left s = (.done result, left', s') →
    Change load J f []
      { f.setWorker index .idle with results := f.results ++ [(job, result)] }
  | crash {index left left' : Nat} {job : Job} {rest : Activity σ (Except DriveError α)}
    {s s' : σ} : f.workers[index]? = some (.loading job rest) → J s →
    rest.burst left s = (.crashed, left', s') → Change load J f [] (f.setWorker index .panicked)
  | doze {index left left' millis : Nat} {job : Job} {rest next : Activity σ (Except DriveError α)}
    {leave : Leaving → σ → σ} {s s' : σ} : f.workers[index]? = some (.loading job rest) → J s →
    rest.burst left s = (.waiting millis leave next, left', s') →
    Change load J f [] (f.setWorker index (.waiting job millis leave next))
  | wake {index millis : Nat} {job : Job} {rest : Activity σ (Except DriveError α)}
    {leave : Leaving → σ → σ} : f.workers[index]? = some (.waiting job millis leave rest) →
    Change load J f [] (f.setWorker index (.loading job rest))
  | join {worker : Worker σ α} : f.workers[f.joined]? = some worker → worker.isGone = true →
    Change load J f [] { f with joined := f.joined + 1 }
  | conclude : f.workers.length ≤ f.joined → f.ended = false →
    Change load J f [] { f with ended := true }
  | collect {job : Job} {result : Except DriveError α}
    {rest : List (Job × Except DriveError α)} : f.outcome = none →
    f.results = (job, result) :: rest →
    Change load J f [] (Fetch.collect { f with results := rest } job result)
  | answer : f.outcome = none → f.results = [] → f.ended = true →
    Change load J f [] (f.leave f.finish)

theorem change_of_produce? (h : f.produce? = some g) : Change load J f [] g := by
  unfold Fetch.produce? at h
  split at h
  · cases h
  next hc =>
  have hc : f.closed = false := by simpa using hc
  split at h
  · next hgone =>
    cases h
    exact .abandon hc (by simpa using hgone)
  next hgone =>
  have hnonempty : f.workers ≠ [] := by
    rintro hn
    simp [hn] at hgone
  split at h
  · cases h
  · next ho hb =>
    cases h
    exact .close hc ho hb
  · next job rest ho hb =>
    split at h
    · cases h
      exact .send hc ho hb
    · next hfull =>
      cases h
      refine .offer hc ho hb fun hq => hfull ?_
      rw [hq]
      exact List.length_pos_iff.mpr hnonempty

theorem change_of_work? {index left left' : Nat} {s s' : σ} (hs : J s)
    (h : f.work? load index left s = some (g, left', s')) :
    Change load J f (f.handsOut (.worker index)) g := by
  unfold Fetch.work? at h
  unfold Fetch.handsOut
  split at h
  · cases h
  · cases h
  · cases h
  · next hw =>
    simp only [hw]
    split at h
    · next hstopped =>
      cases h
      simp only [hstopped, if_true]
      exact .quit hstopped hw rfl
    next hstopped =>
    rw [if_neg hstopped]
    have hstopped : f.stopped = false := by simpa using hstopped
    unfold takeJob? at h
    cases hq : f.queue with
    | nil =>
      simp only [hq] at h
      split at h
      · next hc =>
        cases h
        exact .finish hw hq hc
      · cases h
    | cons job rest =>
      simp only [hq] at h
      cases h
      exact .take hw hstopped hq
  · next job rest hw =>
    simp only [hw]
    split at h
    · next hstopped =>
      cases h
      exact .quit hstopped hw rfl
    · unfold advance at h
      split at h
      · next hb => cases h; exact .deliver hw hs hb
      · next hb => cases h; exact .crash hw hs hb
      · next hb => cases h; exact .doze hw hs hb
  · next hw =>
    simp only [hw]
    split at h
    · next hstopped =>
      cases h
      exact .quit hstopped hw rfl
    · cases h

theorem change_of_supervise? (h : f.supervise? = some g) : Change load J f [] g := by
  unfold Fetch.supervise? at h
  split at h
  · next hw =>
    split at h
    · next hgone => cases h; exact .join hw hgone
    · cases h
  · next hw =>
    split at h
    · cases h
    · next he => cases h; exact .conclude (List.getElem?_eq_none_iff.mp hw) (by simpa using he)

theorem change_of_call? (h : f.call? = some g) : Change load J f [] g := by
  unfold Fetch.call? at h
  split at h
  · cases h
  next ho =>
  have ho : f.outcome = none := by simpa using ho
  split at h
  · next hr => cases h; exact .collect ho hr
  · next hr =>
    split at h
    · next he => cases h; exact .answer ho hr he
    · cases h

theorem change_of_wake? {index : Nat} (h : f.wake? index = some g) : Change load J f [] g := by
  unfold Fetch.wake? at h
  split at h
  · next hw => cases h; exact .wake hw
  · cases h

/-- A step changes nothing else. -/
theorem Step.change (h : Step load J f jobs g) : Change load J f jobs g := by
  cases h with
  | wake h => exact change_of_wake? h
  | @move _ actor left left' s s' hs h =>
    cases actor with
    | producer =>
      obtain ⟨g, hg, he⟩ := Option.map_eq_some_iff.mp h
      cases he
      exact change_of_produce? hg
    | worker index => exact change_of_work? hs h
    | supervisor =>
      obtain ⟨g, hg, he⟩ := Option.map_eq_some_iff.mp h
      cases he
      exact change_of_supervise? hg
    | caller =>
      obtain ⟨g, hg, he⟩ := Option.map_eq_some_iff.mp h
      cases he
      exact change_of_call? hg

/-- The moves of these actors, one after the other, with the jobs that they hand out. -/
def play (load : String → Activity σ (Except DriveError α)) (s : σ) :
    List Actor → List Job → Fetch σ α → Option (List Job × Fetch σ α)
  | [], log, f => some (log, f)
  | actor :: rest, log, f =>
    (f.move? load actor 0 s).bind fun (g, _, _) => play load s rest (log ++ f.handsOut actor) g

/-- Moves that can be made one after the other are a run. -/
theorem Run.play {s : σ} (hs : J s) {actors : List Actor} {first : Fetch σ α} {log log' : List Job}
    (h : Run load J first log f) (hp : play load s actors log f = some (log', g)) :
    Run load J first log' g := by
  induction actors generalizing log f with
  | nil =>
    cases hp
    exact h
  | cons actor rest ih =>
    obtain ⟨⟨next, left, s'⟩, hm, hp⟩ := Option.bind_eq_some_iff.mp hp
    exact ih (h.tail (.move hs hm)) hp

/-! ## The order in which a listing is run -/

/-- What every move keeps while `J` stands on the state, whoever makes it. -/
structure Kept (load : String → Activity σ (Except DriveError α)) (J : σ → Prop)
    (I : Fetch σ α → Prop) : Prop where
  move : ∀ {f g actor left left' s s'}, I f → J s →
    f.move? load actor left s = some (g, left', s') → I g ∧ J s'
  wake : ∀ {f g index}, I f → f.wake? index = some g → I g
  /-- Calling off the loads leaves the state right. -/
  leaveLoads : ∀ {f s}, I f → J s → J (f.leaveLoads s)

variable {I : Fetch σ α → Prop}

theorem Kept.movesFor (hk : Kept load J I) (hf : I f) (actor : Actor) (fuel left : Nat) {s : σ}
    (hs : J s) : I (movesFor load actor fuel f left s).2.1 ∧
      J (Fetch.movesFor load actor fuel f left s).2.2 := by
  induction fuel generalizing f left s with
  | zero => exact ⟨hf, hs⟩
  | succ fuel ih =>
    unfold Fetch.movesFor
    split
    · exact ⟨hf, hs⟩
    split
    · exact ⟨hf, hs⟩
    · next g left s hm =>
      obtain ⟨hg, hs⟩ := hk.move hf hs hm
      exact ih hg left hs

theorem Kept.moves (hk : Kept load J I) (hf : I f) (actor : Actor) {s : σ} (hs : J s) :
    I (f.moves load actor s).2.1 ∧ J (f.moves load actor s).2.2 := by
  unfold Fetch.moves
  cases actor with
  | worker index =>
    have hw : I ((f.wake? index).getD f) := by
      cases hw : f.wake? index with
      | none => exact hf
      | some g => exact hk.wake hf hw
    exact hk.movesFor hw _ _ _ hs
  | producer => exact hk.movesFor hf _ _ _ hs
  | supervisor => exact hk.movesFor hf _ _ _ hs
  | caller => exact hk.movesFor hf _ _ _ hs

theorem Kept.round (hk : Kept load J I) (hf : I f) (l : Lineup) {s : σ} (hs : J s) :
    I (round load l f s).2.1 ∧ J (Fetch.round load l f s).2.2 := by
  refine Line.turns_keeps (I := fun x : List Nat × Fetch σ α × σ => I x.2.1 ∧ J x.2.2)
    (fun stander line x hx => ?_) Line.turnsPerRound l.line (s := (l.idle, f, s)) ⟨hf, hs⟩
  cases stander with
  | passer waits => exact hx
  | member actor => exact hk.moves hx.1 actor hx.2

theorem Kept.collectFor (hk : Kept load J I) (hf : I f) {s : σ} (hs : J s) (fuel : Nat) :
    I (collectFor fuel f) := by
  induction fuel generalizing f with
  | zero => exact hf
  | succ fuel ih =>
    unfold Fetch.collectFor
    split
    · exact hf
    · next g hg =>
      have hm : f.move? load .caller 0 s = some (g, 0, s) := by
        simp only [move?, hg, Option.map_some]
      exact ih (hk.move hf hs hm).1

variable [Crowded σ]

theorem Kept.leaveAll (hk : Kept load J I) (hcrowd : ∀ crowd s, J s → J (Crowded.setCrowd crowd s))
    (hf : I f) (l : Lineup) : (Discipline.standing J).Allows (f.leaveAll l) :=
  fun _ _ hs => ⟨(), trivial, hcrowd _ _ (hk.leaveLoads hf hs)⟩

variable {post : Except DriveError (Gathered α) → Prop}

/-- Rounds answer what the caller answers after moves of everyone, or that they were cancelled. -/
theorem Kept.meets_rounds (hk : Kept load J I)
    (hcrowd : ∀ crowd s, J s → J (Crowded.setCrowd crowd s))
    (hpost : ∀ f answer, I f → f.outcome = some answer → post answer) {cancelAfter : Option Nat}
    (hcancel : cancelAfter ≠ none → ∀ f, I f → I (f.leave (.error .cancelled)))
    (patience : Nat) (l : Lineup) (hf : I f) :
    (rounds load patience cancelAfter l f).Meets (.standing J) True (fun answer _ => post answer)
      () := by
  induction patience generalizing cancelAfter l f with
  | zero => trivial
  | succ patience ih =>
    unfold rounds
    intro s hs
    dsimp only
    have hr := hk.round hf l hs
    generalize Fetch.round load l f s = r at hr ⊢
    obtain ⟨l', g, s'⟩ := r
    obtain ⟨hg, hs'⟩ := hr
    have hc : I (if cancelAfter = some 0 then g.leave (.error .cancelled) else g.collectAll) := by
      split
      · next hzero => exact hcancel (by rw [hzero]; exact Option.some_ne_none 0) g hg
      · exact hk.collectFor hg hs' _
    dsimp only
    generalize (if cancelAfter = some 0 then g.leave (.error .cancelled) else g.collectAll) = c
      at hc ⊢
    have hleave := fun l => hk.leaveAll hcrowd hc l
    split
    · next outcome ho =>
      obtain ⟨_, -, hleft⟩ := hleave l' () s' hs'
      exact ⟨(), trivial, hleft, .bind (Activity.meets_spend (hpost c outcome hc ho))⟩
    · refine ⟨(), trivial, hs', ?_⟩
      have hn : (Activity.wait 0 (fun _ => c.leaveAll (l'.elapse l'.line.pause)) <|
          rounds load patience (cancelAfter.map (· - l'.line.pause))
            (l'.elapse l'.line.pause) c).Meets (.standing J) True (fun answer _ => post answer)
          () :=
        ⟨fun _ => hleave _, fun _ _ => ih (fun hne => hcancel fun hn => hne (by rw [hn]; rfl)) _ hc⟩
      split
      · exact hn
      · exact ⟨fun _ => hleave _, fun _ _ => hn⟩

/-- What every move keeps and `post` follows from, holds of what a listing answers, however it is
cancelled or bounded. -/
theorem Kept.meets_run (hk : Kept load J I)
    (hcrowd : ∀ crowd s, J s → J (Crowded.setCrowd crowd s)) {config : ListerConfig}
    {ids : List String} (hstart : I (start config ids))
    (hpost : ∀ f answer, I f → f.outcome = some answer → post answer) {cancelAfter : Option Nat}
    (hempty : ids = [] → post (.ok {}))
    (hcancel : cancelAfter ≠ none →
      (∀ f, I f → I (f.leave (.error .cancelled))) ∧ post (.error .cancelled))
    (hdeadline : ∀ span, config.deadline = some span → post (.error (.timedOut span)))
    {patience : Nat} :
    (Fetch.run load config cancelAfter ids patience).Meets (.standing J) True
      (fun answer _ => post answer) () := by
  have hr : (runAll load config cancelAfter ids patience).Meets (.standing J) True
      (fun answer _ => post answer) () := by
    intro isLeft s hs
    split
    · next hzero =>
      have hne : cancelAfter ≠ none := by
        rintro rfl
        simp at hzero
      exact ⟨(), trivial, hcrowd _ _ hs, .bind (Activity.meets_spend (hcancel hne).2)⟩
    · exact ⟨(), trivial, hcrowd _ _ hs, fun _ _ _ hs => ⟨(), trivial, hcrowd _ _ hs⟩,
        fun _ _ => hk.meets_rounds hcrowd hpost (fun hne => (hcancel hne).1) _ _ hstart⟩
  unfold Fetch.run
  split
  · next he => exact hempty (List.isEmpty_iff.mp he)
  · dsimp only
    split
    · exact hr
    · next span hd => exact hr.before fun _ _ => hdeadline span hd

end Fetch
end SealedDrive
