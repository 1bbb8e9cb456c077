import SealedDrive.Activity
import SealedDrive.Listing.Gathered

/-!
Loading many values at once under a bounded pool of workers.

A producer feeds the ids into a bounded queue, and holds the next one out while the queue is full.
Each worker takes an id, loads it, delivers the result and takes the next. A supervisor waits for
the workers one after the other and then closes the results. The caller collects the results until
they are closed, or leaves early; leaving stops everyone else.

A state holds all of them, and `move?` is the next step of each. Nothing here says whose turn it
is: `Listing.Round` runs them in one order, statements about every order quantify over the moves.
-/

namespace SealedDrive

variable {σ α : Type}

/-- One id to load, and its place among the requests. -/
structure Job where
  position : Nat
  id : String
  deriving DecidableEq, Repr

inductive Worker (σ α : Type) where
  /-- Between two jobs. -/
  | idle
  /-- Ready to go on with a load. -/
  | loading (job : Job) (rest : Activity σ (Except DriveError α))
  /-- Waiting inside a load. -/
  | waiting (job : Job) (millis : Nat) (leave : Leaving → σ → σ)
      (rest : Activity σ (Except DriveError α))
  | finished
  | panicked

namespace Worker

/-- How much a worker has left to do before it waits or is gone. -/
def remaining : Worker σ α → Nat
  | .idle | .waiting _ _ _ _ => 1
  | .loading _ _ => 2
  | .finished | .panicked => 0

/-- Whether a worker will never move again. -/
def isGone : Worker σ α → Bool
  | .finished | .panicked => true
  | _ => false

def isPanicked : Worker σ α → Bool
  | .panicked => true
  | _ => false

/-- What a worker reports when it is stopped: the load that it was at has been cancelled. -/
def aborted : Worker σ α → List (Job × Except DriveError α)
  | .loading job _ | .waiting job _ _ _ => [(job, .error .cancelled)]
  | _ => []

end Worker

/-- A listing under way. -/
structure Fetch (σ α : Type) where
  ids : List String
  policy : ListPolicy
  /-- Jobs the producer still has. -/
  backlog : List Job
  /-- Jobs the workers may take. -/
  queue : List Job := []
  /-- The job that the producer holds out because the queue is full. -/
  offered : Option Job := none
  /-- The producer is gone, so nothing more comes into the queue. -/
  closed : Bool := false
  workers : List (Worker σ α)
  /-- Delivered but not yet collected. -/
  results : List (Job × Except DriveError α) := []
  /-- How many workers the supervisor has seen go. -/
  joined : Nat := 0
  /-- The supervisor is gone, so nothing more comes into the results. -/
  ended : Bool := false
  /-- The caller is gone. -/
  stopped : Bool := false
  gathered : Gathered α
  /-- Positions the caller has collected. -/
  seen : List Nat := []
  outcome : Option (Except DriveError (Gathered α)) := none

inductive Actor where
  | producer
  | worker (index : Nat)
  | supervisor
  | caller
  deriving DecidableEq, Repr

namespace Fetch

/-- The number of workers for a listing of `total` ids. -/
def workersFor (config : ListerConfig) (total : Nat) : Nat :=
  min (max config.maxWorkers.toNat 1) total

/-- A listing that has not begun. -/
def start (config : ListerConfig) (ids : List String) : Fetch σ α :=
  let count := workersFor config ids.length
  { ids
    policy := config.policy
    backlog := ids.zipIdx.map fun (id, position) => ⟨position, id⟩
    workers := List.replicate count .idle
    gathered := { workers := count } }

/-- The queue holds as many jobs as there are workers. -/
def capacity (f : Fetch σ α) : Nat := f.workers.length

def setWorker (f : Fetch σ α) (index : Nat) (worker : Worker σ α) : Fetch σ α :=
  { f with workers := f.workers.set index worker }

/-! ## The producer -/

def produce? (f : Fetch σ α) : Option (Fetch σ α) :=
  if f.closed then none
  else if f.stopped || f.workers.all (·.isGone) then
    some { f with offered := none, closed := true }
  else
    match f.offered, f.backlog with
    | some _, _ => none
    | none, [] => some { f with closed := true }
    | none, job :: rest =>
      if f.queue.length < f.capacity then
        some { f with backlog := rest, queue := f.queue ++ [job] }
      else some { f with backlog := rest, offered := some job }

/-! ## The workers -/

/-- Take a job out of the queue; the one that the producer holds out comes in. -/
def takeJob? (f : Fetch σ α) : Option (Job × Fetch σ α) :=
  match f.queue with
  | [] => none
  | job :: rest => some (job, { f with queue := rest ++ f.offered.toList, offered := none })

/-- Go on with a load up to its next wait or to its end, with so much left of the allowance. -/
def advance (f : Fetch σ α) (index : Nat) (job : Job)
    (load : Activity σ (Except DriveError α)) (left : Nat) (s : σ) : Fetch σ α × Nat × σ :=
  match load.burst left s with
  | (.done result, left, s) =>
    ({ f.setWorker index .idle with results := f.results ++ [(job, result)] }, left, s)
  | (.crashed, left, s) => (f.setWorker index .panicked, left, s)
  | (.waiting millis leave rest, left, s) =>
    (f.setWorker index (.waiting job millis leave rest), left, s)

/-- Let a worker go that is stopped. It still reports, like the loads that failed. -/
def quit (f : Fetch σ α) (index : Nat) (worker : Worker σ α) : Fetch σ α :=
  { f.setWorker index .finished with results := f.results ++ worker.aborted }

/-- What a worker does next. One that waits inside a load has to be woken first; once the caller is
gone, a load is left where it is. -/
def work? (load : String → Activity σ (Except DriveError α)) (index : Nat) (f : Fetch σ α)
    (left : Nat) (s : σ) : Option (Fetch σ α × Nat × σ) :=
  match f.workers[index]? with
  | none | some .finished | some .panicked => none
  | some .idle =>
    if f.stopped then some (f.quit index .idle, left, s)
    else
      match f.takeJob? with
      | some (job, f) => some (f.setWorker index (.loading job (load job.id)), left, s)
      | none => if f.closed then some (f.setWorker index .finished, left, s) else none
  | some (.loading job rest) =>
    if f.stopped then some (f.quit index (.loading job rest), left, s)
    else some (f.advance index job rest left s)
  | some (.waiting job millis leave rest) =>
    if f.stopped then
      some (f.quit index (.waiting job millis leave rest), left, leave (.atOnce 0) s)
    else none

/-- End the wait of a worker. -/
def wake? (index : Nat) (f : Fetch σ α) : Option (Fetch σ α) :=
  match f.workers[index]? with
  | some (.waiting job _ _ rest) => some (f.setWorker index (.loading job rest))
  | _ => none

/-! ## The supervisor -/

def supervise? (f : Fetch σ α) : Option (Fetch σ α) :=
  match f.workers[f.joined]? with
  | some worker => if worker.isGone then some { f with joined := f.joined + 1 } else none
  | none => if f.ended then none else some { f with ended := true }

/-! ## The caller -/

def panicked (f : Fetch σ α) : Nat := f.workers.countP (·.isPanicked)

/-- The ids that no result came in for. -/
def lost (f : Fetch σ α) : List String :=
  (f.ids.zipIdx.filter fun (_, position) => !f.seen.contains position).map (·.1)

/-- The answer once the results are closed. Ids that no result came in for were lost to a worker
that crashed. -/
def finish (f : Fetch σ α) : Except DriveError (Gathered α) :=
  if f.lost.isEmpty then .ok f.gathered
  else
    match f.policy with
    | .failFast => .error (.workerPanicked f.panicked)
    | .bestEffort =>
      .ok { f.gathered with
        failures :=
          f.gathered.failures ++ f.lost.map fun id => (id, .workerPanicked f.panicked) }

/-- Leave with an answer, and stop everyone else. -/
def leave (f : Fetch σ α) (outcome : Except DriveError (Gathered α)) : Fetch σ α :=
  { f with outcome := some outcome, stopped := true }

/-- Take in one result. -/
def collect (f : Fetch σ α) (job : Job) (result : Except DriveError α) : Fetch σ α :=
  let f := { f with seen := f.seen ++ [job.position] }
  match result with
  | .ok value =>
    { f with gathered.loaded := f.gathered.loaded ++ [(job.position, value)] }
  | .error error =>
    match f.policy with
    | .failFast => f.leave (.error error)
    | .bestEffort => { f with gathered.failures := f.gathered.failures ++ [(job.id, error)] }

def call? (f : Fetch σ α) : Option (Fetch σ α) :=
  if f.outcome.isSome then none
  else
    match f.results with
    | (job, result) :: rest => some (collect { f with results := rest } job result)
    | [] => if f.ended then some (f.leave f.finish) else none

/-! ## All together -/

/-- The next step of one of the actors, if it can go on, with so much left of the allowance of its
turn. Loads may take from it, and seeing one worker go takes one unit. -/
def move? (load : String → Activity σ (Except DriveError α)) (actor : Actor) (f : Fetch σ α)
    (left : Nat) (s : σ) : Option (Fetch σ α × Nat × σ) :=
  match actor with
  | .producer => f.produce?.map (·, left, s)
  | .worker index => f.work? load index left s
  | .supervisor => f.supervise?.map (·, left - 1, s)
  | .caller => f.call?.map (·, left, s)

/-- How much is left to do before everyone waits or is gone. Every move of the producer, a worker
or the supervisor makes it smaller. -/
def remaining (f : Fetch σ α) : Nat :=
  4 * f.backlog.length + 3 * (f.queue.length + f.offered.toList.length)
    + f.workers.foldr (fun worker n => worker.remaining + n) 0
    + (f.workers.length - f.joined) + (if f.ended then 0 else 1) + (if f.closed then 0 else 1)

end Fetch
end SealedDrive
