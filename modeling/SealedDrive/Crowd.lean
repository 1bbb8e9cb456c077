import SealedDrive.Line

/-!
Passers: those who stand in line without belonging to the ones at work there. Whoever was left in
the middle of its work takes a last turn, and whoever only waits for a time takes one before and
one after. Such turns count like all others.
-/

namespace SealedDrive

variable {ι : Type}

/-- Somebody who only takes turns: one now, and one more after each of these waits. -/
abbrev Passer := List Nat

namespace Passer

/-- Take a turn in a line and begin the next wait. -/
def pass (stand : Passer → ι) : Passer → Line ι → Line ι
  | [], l => l
  | millis :: rest, l => l.doze millis (stand rest)

/-- What is left of these waits after so many milliseconds: the rest of the wait under way, and the
waits after it. A turn that is due just then has yet to be taken. -/
def outlast? : (millis : Nat) → (waits : List Nat) → Option (Nat × Passer)
  | _, [] => none
  | millis, wait :: rest =>
    if wait < millis then outlast? (millis - wait) rest else some (wait - millis, rest)

end Passer

/-- Who stands in a line: one of those at work there, or a passer. -/
inductive Stander (ι : Type) where
  | member (i : ι)
  | passer (waits : Passer)
  deriving DecidableEq, Repr

def Stander.isMember : Stander ι → Bool
  | .member _ => true
  | .passer _ => false

/-- The passers before a line of newcomers forms, and those who join behind them. -/
structure Crowd where
  line : Line Passer := {}
  late : List Passer := []
  deriving DecidableEq, Repr

namespace Crowd

/-- Let a passer join. -/
def join (waits : Passer) (crowd : Crowd) : Crowd := { crowd with line := crowd.line.join waits }

/-- The line when there are no newcomers. -/
def whole (crowd : Crowd) : Line Passer :=
  { crowd.line with ready := crowd.line.ready ++ crowd.late }

/-- The line when these come. -/
def joinedBy (newcomers : List ι) (crowd : Crowd) : Line (Stander ι) where
  ready :=
    crowd.line.ready.map .passer ++ newcomers.map .member ++ crowd.late.map .passer
  asleep := crowd.line.asleep.map fun (left, waits) => (left, .passer waits)

/-- The passers of a line. Those at work who stand ready become passers as told. -/
def ofLine (become : ι → Option Passer) (l : Line (Stander ι)) : Line Passer :=
  let passer? : Stander ι → Option Passer
    | .member i => become i
    | .passer waits => some waits
  { ready := l.ready.filterMap passer?
    asleep := l.asleep.filterMap fun
      | (left, .passer waits) => some (left, waits)
      | _ => none }

/-- The crowd after a wait of the only one at work. Giving up the turn lets one round pass. -/
def afterWait (millis : Nat) (crowd : Crowd) : Crowd :=
  let l := crowd.whole
  if millis = 0 then { line := (l.round (fun waits l _ => (waits.pass id l, ())) ()).1 }
  else
    let waiting := (l.asleep ++ l.ready.map fun waits => (0, waits)).filterMap fun (left, rest) =>
      Passer.outlast? millis (left :: rest)
    { line :=
      { ready := (waiting.filter fun (left, _) => left = 0).map (·.2)
        asleep := waiting.filter fun (left, _) => 0 < left } }

end Crowd

/-- A state that knows the crowd. -/
class Crowded (σ : Type) where
  crowd : σ → Crowd
  setCrowd : Crowd → σ → σ

instance {σ τ : Type} [Crowded τ] : Crowded (σ × τ) where
  crowd s := Crowded.crowd s.2
  setCrowd crowd s := (s.1, Crowded.setCrowd crowd s.2)

end SealedDrive
