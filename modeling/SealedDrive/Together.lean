import SealedDrive.Activity
import SealedDrive.Crowd

/-!
Several activities on one state. `move?` is what one of them does in its turn, and says nothing
about whose turn it is; `all` gives turns in the order of a line. The caller waits for the members
one after the other and takes their answers, each of which takes one unit of the caller's
allowance.
-/

namespace SealedDrive

variable {σ α : Type}

/-- The activities under way, each as its last turn left it. -/
structure Together (σ α : Type) where
  members : List (Activity.Burst σ α)

namespace Together

/-- Before anyone had a turn. -/
def start (ps : List (Activity σ α)) : Together σ α :=
  ⟨ps.map fun p => .waiting 0 (fun _ => id) p⟩

/-- The turn of one member: it goes on up to its next wait. -/
def move? (index : Nat) (t : Together σ α) (s : σ) : Option (Together σ α × σ) :=
  match t.members[index]? with
  | some (.waiting _ _ next) =>
    let (burst, _, s) := next.burst Activity.fullAllowance s
    some (⟨t.members.set index burst⟩, s)
  | _ => none

/-- The answers, absent when somebody crashed or is still under way. -/
def answers? (t : Together σ α) : Option (List α) :=
  t.members.mapM fun
    | .done answer => some answer
    | _ => none

/-! ## In the order of a line -/

/-- The turn of whoever is first in line. -/
def turn : Stander Nat → Line (Stander Nat) → Together σ α × σ →
    Line (Stander Nat) × Together σ α × σ
  | .passer waits, l, x => (waits.pass .passer l, x)
  | .member index, l, (t, s) =>
    match t.move? index s with
    | none => (l, t, s)
    | some (t, s) =>
      match t.members[index]? with
      | some (.waiting millis _ _) => (l.doze millis (.member index), t, s)
      | _ => (l, t, s)

/-- How many members are over, of those from `joined` on and before the first that is not. -/
def overFrom (joined : Nat) (t : Together σ α) : Nat :=
  ((t.members.drop joined).takeWhile (!·.isWaiting)).length

/-- Call off whatever is still waiting. -/
def leaveMembers (t : Together σ α) (s : σ) : σ :=
  t.members.foldl (fun s member =>
    match member with
    | .waiting _ leave _ => leave .nextTurn s
    | _ => s) s

variable [Crowded σ]

/-- Give the crowd its line back. -/
def disband (l : Line (Stander Nat)) (s : σ) : σ :=
  Crowded.setCrowd { line := Crowd.ofLine (fun _ => none) l } s

/-- Run the members in rounds; `patience` bounds their number and `joined` members have answered.
The caller takes as many answers in a turn as its allowance lets it. -/
def rounds : (patience : Nat) → Line (Stander Nat) → Together σ α → (joined : Nat) →
    Activity σ (List α)
  | 0, _, _, _ => .crash
  | patience + 1, l, t, joined =>
    .read fun s =>
      let (l, t, s) := l.round turn (t, s)
      let taken := min (t.overFrom joined) Activity.fullAllowance
      let joined := joined + taken
      if joined = t.members.length then
        .write (disband l s) <| (Activity.spend taken).bind fun _ =>
          match t.answers? with
          | some answers => .done answers
          | none => .crash
      else
        let millis := if taken = Activity.fullAllowance then 0 else l.pause
        .write s <| .wait millis (fun how => disband (l.elapse how.after) ∘ t.leaveMembers) <|
          rounds patience (l.elapse millis) t joined

/-- More rounds than any run has. -/
def patience : Nat := 1 <<< 62

/-- Run activities side by side and answer all their answers in order. Those who were in line
before stay before. -/
def all (ps : List (Activity σ α)) : Activity σ (List α) :=
  if ps.isEmpty then .done []
  else
    .read fun s =>
      let t := start ps
      let l := (Crowded.crowd s).joinedBy (List.range ps.length)
      .write (Crowded.setCrowd {} s) <| .wait 0 (fun _ => disband l ∘ t.leaveMembers) <|
        rounds patience l t 0

end Together
end SealedDrive
