import SealedDrive.Crowd
import SealedDrive.Deadline
import SealedDrive.Listing.Fetch

/-!
One way to run a listing. Those who can go on stand in a line and take turns; in a turn one moves
until it cannot, or until its allowance is used up. After a round, or when the line is empty, the
caller collects what came in. Time passes only when the line is empty, and then to the end of the
next wait. Cancelling and the deadline end the listing from outside, and so may whoever waits for
it: all loads are then called off where they are.
-/

namespace SealedDrive.Fetch

variable {σ α : Type}

/-! ## Turns -/

/-- Whether an actor may not move for lack of allowance: a worker between two jobs, or the
supervisor while there are workers it waits for. -/
def isSpent (actor : Actor) (f : Fetch σ α) (left : Nat) : Bool :=
  left = 0 &&
    match actor with
    | .worker index =>
      match f.workers[index]? with
      | some .idle => true
      | _ => false
    | .supervisor => f.joined < f.workers.length
    | _ => false

/-- At most so many moves of one actor. -/
def movesFor (load : String → Activity σ (Except DriveError α)) (actor : Actor) :
    Nat → Fetch σ α → (left : Nat) → σ → Bool × Fetch σ α × σ
  | 0, f, _, s => (false, f, s)
  | fuel + 1, f, left, s =>
    if f.isSpent actor left then (true, f, s)
    else
      match f.move? load actor left s with
      | none => (false, f, s)
      | some (f, left, s) => movesFor load actor fuel f left s

/-- The turn of one actor: it moves until it cannot. A worker whose wait is over goes on. The flag
says that the actor gives up its turn because its allowance is used up. -/
def moves (load : String → Activity σ (Except DriveError α)) (actor : Actor) (f : Fetch σ α)
    (s : σ) : Bool × Fetch σ α × σ :=
  let f :=
    match actor with
    | .worker index => (f.wake? index).getD f
    | _ => f
  movesFor load actor f.remaining f Activity.fullAllowance s

/-- Where everyone but the caller stands. -/
structure Lineup where
  line : Line (Stander Actor)
  /-- Workers that wait for a job, in the order in which they began to. -/
  idle : List Nat := []
  deriving DecidableEq, Repr

namespace Lineup

/-- Those who come with a listing of so many workers. -/
def newcomers (count : Nat) : List Actor :=
  .producer :: (List.range count).map .worker ++ [.supervisor]

/-- Before anyone had a turn. -/
def start (crowd : Crowd) (count : Nat) : Lineup where
  line := crowd.joinedBy (newcomers count)

def isReady (actor : Actor) (l : Lineup) : Bool := l.line.ready.contains (.member actor)

def isAsleep (actor : Actor) (l : Lineup) : Bool :=
  l.line.asleep.any fun (_, stander) => stander = .member actor

/-- Get into line, unless one stands there already or is about to. -/
def join (actor : Actor) (l : Lineup) : Lineup :=
  if l.isReady actor || l.isAsleep actor then l
  else { l with line := l.line.join (.member actor) }

def doze (millis : Nat) (actor : Actor) (l : Lineup) : Lineup :=
  { l with line := l.line.doze millis (.member actor) }

def elapse (millis : Nat) (l : Lineup) : Lineup := { l with line := l.line.elapse millis }

/-- Put a worker where it belongs after its turn. Once all are gone the producer need not hold out
a job any more, and the supervisor goes on when the worker is gone that it waits for. -/
def seat (f : Fetch σ α) (index : Nat) (l : Lineup) : Lineup :=
  match f.workers[index]? with
  | some .idle => { l with idle := l.idle ++ [index] }
  | some (.waiting _ millis _ _) => l.doze millis (.worker index)
  | _ =>
    let l := if f.offered.isSome && f.workers.all (·.isGone) then l.join .producer else l
    if f.joined = index then l.join .supervisor else l

/-- What a turn changes. The producer goes on once the job that it held out is taken, and its turn
is news for all workers that wait for a job. -/
def afterTurn (actor : Actor) (isSpent : Bool) (before after : Fetch σ α) (l : Lineup) : Lineup :=
  match actor with
  | .worker index =>
    let l := if before.offered.isSome && after.offered.isNone then l.join .producer else l
    if isSpent then l.doze 0 actor else l.seat after index
  | .producer =>
    { line := { l.line with ready := l.line.ready ++ l.idle.map (.member ∘ .worker) } }
  | _ => if isSpent then l.doze 0 actor else l

/-- The turns of a supervisor that finds so many workers gone. -/
def supervisorTurns (workers : Nat) : Passer :=
  List.replicate ((workers - 1) / Activity.fullAllowance) 0

/-- How many workers the supervisor finds gone at its turn when the caller is gone: those that are
gone or have their last turns before it, up to the first that is not. -/
def foundGone (f : Fetch σ α) (l : Lineup) : Nat :=
  let before := l.line.ready.takeWhile (· ≠ .member .supervisor)
  ((f.workers.zipIdx.drop f.joined).takeWhile fun (worker, index) =>
    worker.isGone || before.contains (.member (.worker index))).length

/-- The last turns of everyone once the caller is gone. A supervisor that has to wait for a worker
takes its last turns after the workers. -/
def crowd (f : Fetch σ α) (l : Lineup) : Crowd :=
  let awaited := f.workers.length - f.joined
  let found := if l.isReady .supervisor then l.foundGone f else 0
  let goesOn := awaited = found || Activity.fullAllowance ≤ found
  let line := Crowd.ofLine (fun
    | .supervisor => some (if goesOn then supervisorTurns awaited else [])
    | _ => some []) l.line
  let holding := if f.offered.isSome && !l.isReady .producer then 1 else 0
  let sleepers := l.line.asleep.countP fun (_, stander) => stander.isMember
  { line := { line with
      ready := line.ready ++ List.replicate (holding + l.idle.length + sleepers) [] }
    late := if goesOn then [] else [supervisorTurns (awaited - found)] }

end Lineup

/-- The turn of whoever is first in line. -/
def turn (load : String → Activity σ (Except DriveError α)) :
    Stander Actor → Line (Stander Actor) → List Nat × Fetch σ α × σ →
      Line (Stander Actor) × List Nat × Fetch σ α × σ
  | .passer waits, l, x => (waits.pass .passer l, x)
  | .member actor, l, (idle, f, s) =>
    let (isSpent, g, s) := f.moves load actor s
    let l := Lineup.afterTurn actor isSpent f g ⟨l, idle⟩
    (l.line, l.idle, g, s)

/-- Let everyone but the caller have a round. -/
def round (load : String → Activity σ (Except DriveError α)) (l : Lineup) (f : Fetch σ α) (s : σ) :
    Lineup × Fetch σ α × σ :=
  let (line, idle, f, s) := l.line.round (turn load) (l.idle, f, s)
  (⟨line, idle⟩, f, s)

/-! ## Collecting and leaving -/

/-- Collect at most so many times. -/
def collectFor : Nat → Fetch σ α → Fetch σ α
  | 0, f => f
  | fuel + 1, f =>
    match f.call? with
    | none => f
    | some f => collectFor fuel f

/-- Let the caller collect what came in. -/
def collectAll (f : Fetch σ α) : Fetch σ α := collectFor (f.results.length + 1) f

/-- What an answer takes from the allowance of the caller, who has noticed a cancellation or has
waited for the supervisor. Nothing is taken for the error of a load. -/
def costOf : Except DriveError (Gathered α) → Nat
  | .ok _ | .error .cancelled | .error (.workerPanicked _) => 1
  | .error _ => 0

/-- Call off all loads that are waiting. Their workers notice at their last turn. -/
def leaveLoads (f : Fetch σ α) (s : σ) : σ :=
  f.workers.foldl (fun s worker =>
    match worker with
    | .waiting _ _ leave _ => leave .nextTurn s
    | _ => s) s

/-- The crowd after a listing that the caller left before anyone had a turn: everyone takes a last
one and goes. -/
def passedBy (count : Nat) (crowd : Crowd) : Crowd :=
  (Lineup.newcomers count).foldl (fun crowd actor =>
    match actor with
    | .supervisor => crowd.join (Lineup.supervisorTurns count)
    | _ => crowd.join []) crowd

variable [Crowded σ]

/-- Go away from a listing: all loads are called off, and everyone has a last turn. -/
def leaveAll (f : Fetch σ α) (l : Lineup) (s : σ) : σ :=
  Crowded.setCrowd (l.crowd f) (f.leaveLoads s)

/-- Change the crowd. -/
def changeCrowd (change : Crowd → Crowd) (s : σ) : σ :=
  Crowded.setCrowd (change (Crowded.crowd s)) s

/-- Run a listing in rounds; `patience` bounds their number. No time passes while somebody can go
on, and the caller notices a cancellation before it collects. The caller is not in line: when time
has passed, a bound on it is looked at before the others have their turns. -/
def rounds (load : String → Activity σ (Except DriveError α)) :
    (patience : Nat) → (cancelAfter : Option Nat) → Lineup → Fetch σ α →
      Activity σ (Except DriveError (Gathered α))
  | 0, _, _, _ => .crash
  | patience + 1, cancelAfter, l, f =>
    .read fun s =>
      let (l, f, s) := round load l f s
      let f := if cancelAfter = some 0 then f.leave (.error .cancelled) else f.collectAll
      match f.outcome with
      | some outcome =>
        .write (f.leaveAll l s) <| (Activity.spend (costOf outcome)).bind fun _ => .done outcome
      | none =>
        let millis := l.line.pause
        let later := l.elapse millis
        let next := .wait 0 (fun _ => f.leaveAll later) <|
          rounds load patience (cancelAfter.map (· - millis)) later f
        .write s <|
          if millis = 0 then next
          else .wait millis (fun how => f.leaveAll (l.elapse how.after)) next

/-- How many rounds a listing may have if nothing else is said. -/
def patience : Nat := 1 <<< 62

/-- Load the given ids, at least one. Those who were in line before stay before. One that was
cancelled beforehand is not waited for, unless the caller has to give up its turn first. -/
def runAll (load : String → Activity σ (Except DriveError α)) (config : ListerConfig)
    (cancelAfter : Option Nat) (ids : List String) (patience : Nat := Fetch.patience) :
    Activity σ (Except DriveError (Gathered α)) :=
  let f := start config ids
  let count := f.workers.length
  .allowance false fun isLeft => .read fun s =>
    if cancelAfter = some 0 && isLeft then
      .write (changeCrowd (passedBy count) s) <|
        (Activity.spend 1).bind fun _ => .done (.error .cancelled)
    else
      let crowd := Crowded.crowd s
      .write (Crowded.setCrowd {} s) <|
        .wait 0 (fun _ => Crowded.setCrowd (passedBy count crowd)) <|
          rounds load patience cancelAfter (Lineup.start crowd count) f

/-- Load each of the ids once, under the deadline of the settings. A cancellation that comes
`cancelAfter` milliseconds from now ends the listing. -/
def run (load : String → Activity σ (Except DriveError α)) (config : ListerConfig)
    (cancelAfter : Option Nat) (ids : List String) (patience : Nat := Fetch.patience) :
    Activity σ (Except DriveError (Gathered α)) :=
  if ids.isEmpty then .done (.ok {})
  else
    let listing := runAll load config cancelAfter ids patience
    match config.deadline with
    | none => listing
    | some span => listing.before span (.timedOut span)

/-- Do something while somebody waits so many milliseconds to cancel it, who has a turn before and
one after. -/
def whileCancelling {β : Type} (cancelAfter : Option Nat) (p : Option Nat → Activity σ β) :
    Activity σ β :=
  match cancelAfter with
  | none | some 0 => p cancelAfter
  | some millis =>
    (Activity.modify (changeCrowd (Crowd.join [millis]))).bind fun _ => p (some millis)

end SealedDrive.Fetch
