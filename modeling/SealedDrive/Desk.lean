import SealedDrive.Drive.Volume
import SealedDrive.Server.World
import SealedDrive.Session.Manager

/-!
What a client program holds by name at one time, and the world it works on. All names for one
opened share, and for the links below it, stand for the same tree, so what becomes known through
one of them is known to all.
-/

namespace SealedDrive

/-- Something that asks the drive, perhaps past the bench. -/
structure Asking (α : Type) where
  it : α
  direct : Bool

structure Desk where
  world : World
  /-- What is left of the allowance of the turn that the client is in. -/
  allowance : Nat := Activity.fullAllowance
  /-- How often keys were unlocked. -/
  unlocks : Nat := 0
  /-- The trees of the shares that were opened, by number. -/
  trees : List (Asking OpenShare) := []
  locked : List (String × LockedSession) := []
  sessions : List (String × Asking Session) := []
  /-- Shares by the numbers of their trees. -/
  shares : List (String × Nat) := []
  /-- Links, each with the number of its tree. -/
  links : List (String × Nat × Link) := []
  volumes : List (String × Asking Volume) := []
  managers : List (String × SessionManager World) := []

namespace Desk

variable {α : Type}

/-- Run an activity on the world; there is no answer when it crashes. -/
def run (p : Activity World α) (desk : Desk) : Option α × Desk :=
  let (answer, allowance, world) := p.run World.turn desk.allowance desk.world
  (answer, { desk with world, allowance })

def tree? (desk : Desk) (number : Nat) : Option OpenShare := desk.trees[number]?.map (·.it)

/-- Take in a share that was opened, under the next number. -/
def takeIn (direct : Bool) (opened : OpenShare) (desk : Desk) : Nat × Desk :=
  (desk.trees.length, { desk with trees := desk.trees ++ [⟨opened, direct⟩] })

/-- Run an activity on the world and on the tree of a share. -/
def runTree (number : Nat) (p : Share → Service World → Activity (Arena × World) α) (desk : Desk) :
    Option α × Desk :=
  match desk.trees[number]? with
  | none => (none, desk)
  | some ⟨tree, direct⟩ =>
    let (answer, allowance, arena, world) :=
      (p tree.share (World.service direct)).run (fun millis => Prod.map id (World.turn millis))
        desk.allowance (tree.arena, desk.world)
    (answer, { desk with
      world, allowance
      trees := desk.trees.set number ⟨{ tree with arena }, direct⟩ })

/-- A number that no session has yet. -/
def freshNumber (desk : Desk) : Nat × Desk :=
  (desk.unlocks, { desk with unlocks := desk.unlocks + 1 })

/-! ## Names -/

def nameLocked (name : String) (locked : LockedSession) (desk : Desk) : Desk :=
  { desk with locked := setEntry name locked desk.locked }

def nameSession (name : String) (session : Asking Session) (desk : Desk) : Desk :=
  { desk with sessions := setEntry name session desk.sessions }

def nameShare (name : String) (number : Nat) (desk : Desk) : Desk :=
  { desk with shares := setEntry name number desk.shares }

def nameLink (name : String) (number : Nat) (link : Link) (desk : Desk) : Desk :=
  { desk with links := setEntry name (number, link) desk.links }

/-- Name the links of a listing by their places in it. -/
def nameLinks (name : String) (number : Nat) (links : List Link) (desk : Desk) : Desk :=
  links.zipIdx.foldl (fun desk (link, i) =>
    desk.nameLink (name ++ "." ++ toString i) number link) desk

def nameVolume (name : String) (volume : Asking Volume) (desk : Desk) : Desk :=
  { desk with volumes := setEntry name volume desk.volumes }

def nameManager (name : String) (manager : SessionManager World) (desk : Desk) : Desk :=
  { desk with managers := setEntry name manager desk.managers }

end Desk
end SealedDrive
