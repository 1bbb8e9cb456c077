/-!
Activities that take turns. An activity works on a shared state of type `σ` and answers an `α`. What
it does between two waits happens at once, in one turn; while it waits, others may change the
state. Waiting for zero milliseconds gives up the turn without letting time pass. Time is counted in
whole milliseconds and has no end. An activity may be left while it waits; `leave` is what leaving
then does to the state. An activity may also crash, and then never answers.

A turn has an allowance, so that nobody keeps the others waiting for ever: whatever ends a wait
takes one unit of it, and with nothing left the turn is given up. The next turn begins with a full
allowance.
-/

namespace SealedDrive

/-- How a wait is left. -/
inductive Leaving where
  /-- Whoever waits goes, after waiting for so many milliseconds. -/
  | atOnce (after : Nat)
  /-- Somebody else calls the wait off; whoever waits goes when the others get their next turn. -/
  | nextTurn
  deriving DecidableEq, Repr

namespace Leaving

/-- How long the wait went on. -/
def after : Leaving → Nat
  | atOnce millis => millis
  | nextTurn => 0

end Leaving

inductive Activity (σ α : Type) where
  | done (answer : α)
  | crash
  | read (next : σ → Activity σ α)
  | write (state : σ) (next : Activity σ α)
  /-- Ask whether anything is left of the allowance of this turn, and perhaps take one unit. -/
  | allowance (takes : Bool) (next : (isLeft : Bool) → Activity σ α)
  | wait (millis : Nat) (leave : Leaving → σ → σ) (next : Activity σ α)

namespace Activity

variable {σ τ α β : Type}

/-- The allowance of every turn. -/
def fullAllowance : Nat := 128

def bind : Activity σ α → (α → Activity σ β) → Activity σ β
  | done a, f => f a
  | crash, _ => crash
  | read next, f => read fun s => bind (next s) f
  | write s next, f => write s (bind next f)
  | allowance takes next, f => allowance takes fun isLeft => bind (next isLeft) f
  | wait millis leave next, f => wait millis leave (bind next f)

def map (f : α → β) (p : Activity σ α) : Activity σ β := p.bind fun a => done (f a)

instance : Monad (Activity σ) where
  pure := done
  bind := bind

/-- Apply a change to the state. -/
def modify (f : σ → σ) : Activity σ Unit := read fun s => write (f s) (done ())

/-- Take so many units of the allowance, as far as there are any. -/
def spend : Nat → Activity σ Unit
  | 0 => done ()
  | units + 1 => allowance true fun _ => spend units

/-- Wait for a time; no time at all is over at once. With nothing left of the allowance the turn is
given up first. -/
def sleep (millis : Nat) (leave : Leaving → σ → σ := fun _ => id) : Activity σ Unit :=
  let rest := if millis = 0 then spend 1 else wait millis leave (spend 1)
  allowance false fun isLeft => if isLeft then rest else wait 0 leave rest

/-- Let an activity work on a part of a larger state. -/
def focus (get : τ → σ) (set : σ → τ → τ) : Activity σ α → Activity τ α
  | done a => done a
  | crash => crash
  | read next => read fun t => focus get set (next (get t))
  | write s next => read fun t => write (set s t) (focus get set next)
  | allowance takes next => allowance takes fun isLeft => focus get set (next isLeft)
  | wait millis leave next =>
    wait millis (fun how t => set (leave how (get t)) t) (focus get set next)

/-- Let an activity keep one part of its state to itself. -/
def holding (memory : σ) : Activity (σ × τ) α → Activity τ (α × σ)
  | done a => done (a, memory)
  | crash => crash
  | read next => read fun t => holding memory (next (memory, t))
  | write s next => write s.2 (holding s.1 next)
  | allowance takes next => allowance takes fun isLeft => holding memory (next isLeft)
  | wait millis leave next =>
    wait millis (fun how t => (leave how (memory, t)).2) (holding memory next)

/-! ## Running alone -/

/-- Run to the end, with so much left of the allowance of the first turn. At each wait the others
get their turns, which changes the state by `turn`. The answer comes with what is left of the
allowance of the last turn. -/
def run (turn : (millis : Nat) → σ → σ) : Activity σ α → (left : Nat) → σ → Option α × Nat × σ
  | done a, left, s => (some a, left, s)
  | crash, left, s => (none, left, s)
  | read next, left, s => run turn (next s) left s
  | write s next, left, _ => run turn next left s
  | allowance takes next, left, s => run turn (next (0 < left)) (left - takes.toNat) s
  | wait millis _ next, _, s => run turn next fullAllowance (turn millis s)

/-- The answer together with the time that was spent waiting. -/
def timed (spent : Nat) : Activity σ α → Activity σ (α × Nat)
  | done a => done (a, spent)
  | crash => crash
  | read next => read fun s => timed spent (next s)
  | write s next => write s (timed spent next)
  | allowance takes next => allowance takes fun isLeft => timed spent (next isLeft)
  | wait millis leave next => wait millis leave (timed (spent + millis) next)

/-- How an activity stands after it has worked up to its next wait. -/
inductive Burst (σ α : Type) where
  | done (answer : α)
  | crashed
  | waiting (millis : Nat) (leave : Leaving → σ → σ) (next : Activity σ α)

def Burst.isWaiting : Burst σ α → Bool
  | .waiting _ _ _ => true
  | _ => false

/-- Work up to the next wait, with so much left of the allowance. -/
def burst : Activity σ α → (left : Nat) → σ → Burst σ α × Nat × σ
  | done a, left, s => (.done a, left, s)
  | crash, left, s => (.crashed, left, s)
  | read next, left, s => burst (next s) left s
  | write s next, left, _ => burst next left s
  | allowance takes next, left, s => burst (next (0 < left)) (left - takes.toNat) s
  | wait millis leave next, left, s => (.waiting millis leave next, left, s)

/-! ## Bounded time -/

/-- Leave an activity that has waited for so many milliseconds. -/
def abandon (leave : Leaving → σ → σ) (after : Nat) : Activity σ (Option α) :=
  (spend 1).bind fun _ => read fun s => write (leave (.atOnce after) s) (done none)

/-- Go on for at most so many milliseconds. `watches` says whether the time is looked at when this
turn ends. -/
def withinFrom (watches : Bool) (budget : Nat) : Activity σ α → Activity σ (Option α)
  | done a => done (some a)
  | crash => crash
  | read next => read fun s => withinFrom watches budget (next s)
  | write s next => write s (withinFrom watches budget next)
  | allowance takes next => allowance takes fun isLeft => withinFrom watches budget (next isLeft)
  | wait millis leave next =>
    if watches ∧ budget = 0 then abandon leave 0
    else if millis ≤ budget then wait millis leave (withinFrom true (budget - millis) next)
    else wait budget leave (abandon leave budget)

/-- Run for at most so many milliseconds; the activity is left at the wait that outlasts them. A
wait that ends exactly then is still within the bound; giving up the turn is not, once no time is
left. A turn that begins with nothing left of its allowance does not look at the time. -/
def within (budget : Nat) (p : Activity σ α) : Activity σ (Option α) :=
  allowance false fun isLeft => withinFrom isLeft budget p

/-- Replace the answer of an activity that outlasts a time. -/
def orElse {ε : Type} (error : ε) (millis : Nat) (p : Activity σ (Except ε α)) :
    Activity σ (Except ε α) :=
  (p.within millis).map fun answer => answer.getD (.error error)

end Activity
end SealedDrive
