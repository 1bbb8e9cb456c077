/-!
A line of those who share one thread. Whoever can go on stands in the line, and the first one has
the next turn; whoever waits for a time is asleep and gets back into line when the time is over.
-/

namespace SealedDrive

structure Line (ι : Type) where
  /-- Those who can go on, in the order of their turns. -/
  ready : List ι := []
  /-- Those who wait, each with the time that is left, in the order in which they began to. -/
  asleep : List (Nat × ι) := []
  deriving DecidableEq, Repr

namespace Line

variable {ι κ σ : Type}

/-- Get into line. -/
def join (i : ι) (l : Line ι) : Line ι := { l with ready := l.ready ++ [i] }

/-- Begin to wait; whoever gives up the turn waits for zero milliseconds. -/
def doze (millis : Nat) (i : ι) (l : Line ι) : Line ι :=
  { l with asleep := l.asleep ++ [(millis, i)] }

/-- The time until somebody can go on. -/
def pause (l : Line ι) : Nat :=
  if l.ready.isEmpty then ((l.asleep.map (·.1)).min?).getD 0 else 0

/-- Let time pass. Waits that end together end in the order in which they began, but those who gave
up their turn get it back in the opposite order. -/
def elapse (millis : Nat) (l : Line ι) : Line ι :=
  let (woken, asleep) := l.asleep.partition fun (left, _) => left ≤ millis
  let woken := if millis = 0 then woken.reverse else woken
  { ready := l.ready ++ woken.map (·.2)
    asleep := asleep.map fun (left, i) => (left - millis, i) }

/-- Give at most so many turns, one after the other. -/
def turns (turn : ι → Line ι → σ → Line ι × σ) : Nat → Line ι → σ → Line ι × σ
  | 0, l, s => (l, s)
  | count + 1, l, s =>
    match l.ready with
    | [] => (l, s)
    | i :: rest =>
      let (l, s) := turn i { l with ready := rest } s
      turns turn count l s

/-- A round is at most so many turns; then it is the turn of the one who waits for the others. -/
def turnsPerRound : Nat := 61

/-- Let the others have a round, after which those who gave up their turn stand in line again. -/
def round (turn : ι → Line ι → σ → Line ι × σ) (l : Line ι) (s : σ) : Line ι × σ :=
  let (l, s) := l.turns turn turnsPerRound s
  (l.elapse 0, s)

end Line
end SealedDrive
