import SealedDrive.Store.DiskPath
import SealedDrive.Text.Bytes

/-!
A small disk of folders and files. It has a home folder, which is always there, and so are the
folders around it.
-/

namespace SealedDrive

/-- What stands at a place. -/
inductive DiskEntry where
  | folder
  | file (bytes : Bytes)
  deriving DecidableEq, Repr

/-- Why a file cannot be read or written. -/
inductive DiskError where
  /-- Nothing stands there, or a folder on the way is missing. -/
  | absent
  /-- Something of another kind stands there or on the way, or the path cannot be used. -/
  | refused
  deriving DecidableEq, Repr

/-- The names of the folders around an entry, from the top, and its own. -/
abbrev Place := List String

/-- The entries by place, each one after the folder that it lies in. -/
structure Disk where
  entries : List (Place × DiskEntry) := []
  deriving DecidableEq, Repr

namespace Disk

def entryAt? (disk : Disk) (place : Place) : Option DiskEntry :=
  if place.isPrefixOf DiskPath.home then some .folder else disk.entries.lookup place

/-! ## Following a path -/

/-- Go from a folder where a piece of a path leads. -/
def enter (place : Place) (piece : String) : Except DiskError Place :=
  if DiskPath.leadsNowhere piece then .ok place
  else if piece = ".." then .ok place.dropLast
  else if DiskPath.nameLimit < piece.utf8ByteSize then .error .refused
  else .ok (place ++ [piece])

/-- Follow pieces from a place. Each has to start at a folder; at the end there may be nothing. -/
def follow (disk : Disk) (place : Place) : List String → Except DiskError Place
  | [] => .ok place
  | piece :: rest =>
    match disk.entryAt? place with
    | none => .error .absent
    | some (.file _) => .error .refused
    | some .folder =>
      match enter place piece with
      | .ok place => disk.follow place rest
      | .error error => .error error

/-- The place that a path leads to, where there may be nothing yet. -/
def find (disk : Disk) (path : DiskPath) : Except DiskError Place :=
  if path.isUsable then disk.follow [] path.pieces else .error .refused

/-! ## Reading and writing -/

def read (disk : Disk) (path : DiskPath) : Except DiskError Bytes :=
  match disk.find path with
  | .error error => .error error
  | .ok place =>
    match disk.entryAt? place with
    | some (.file bytes) => .ok bytes
    | some .folder => .error .refused
    | none => .error .absent

/-- Set what stands at a place. -/
def put (disk : Disk) (place : Place) (entry : DiskEntry) : Disk :=
  if (disk.entries.lookup place).isSome then
    ⟨disk.entries.map fun old => if old.1 = place then (place, entry) else old⟩
  else ⟨disk.entries ++ [(place, entry)]⟩

/-- Write a file into a folder that is there. -/
def write (disk : Disk) (path : DiskPath) (bytes : Bytes) : Except DiskError Unit × Disk :=
  match disk.find path with
  | .error error => (.error error, disk)
  | .ok place =>
    match disk.entryAt? place with
    | some .folder => (.error .refused, disk)
    | _ => (.ok (), disk.put place (.file bytes))

/-! ## Folders -/

/-- Make one folder, unless it is there already. Slashes behind its name do not matter. -/
def makeOne (disk : Disk) (path : DiskPath) : Except DiskError Disk :=
  let pieces := (path.pieces.reverse.dropWhile (· = "")).reverse
  if !path.isUsable then .error .refused
  else
    match disk.follow [] pieces with
    | .error error => .error error
    | .ok place =>
      match disk.entryAt? place with
      | some .folder => .ok disk
      | some (.file _) => .error .refused
      | none => .ok (disk.put place .folder)

/-- Make a folder at the end of a path of `depth` pieces, and before it all that is missing on the
way. -/
def makeUpTo (disk : Disk) (path : DiskPath) : (depth : Nat) → Except DiskError Unit × Disk
  | 0 => (.ok (), disk)
  | depth + 1 =>
    match disk.makeOne path with
    | .ok disk => (.ok (), disk)
    | .error .refused => (.error .refused, disk)
    | .error .absent =>
      match disk.makeUpTo path.parent depth with
      | (.error error, disk) => (.error error, disk)
      | (.ok (), disk) =>
        match disk.makeOne path with
        | .ok disk => (.ok (), disk)
        | .error error => (.error error, disk)

/-- Make a folder and all that is missing on the way to it. What was made stays when the rest
fails. -/
def makeFolder (disk : Disk) (path : DiskPath) : Except DiskError Unit × Disk :=
  disk.makeUpTo path path.pieces.length

/-- The names in a folder, sorted; there are none in a folder that is missing. -/
def namesIn (disk : Disk) (path : DiskPath) : List String :=
  match disk.find path with
  | .error _ => []
  | .ok folder =>
    let inside := disk.entries.filterMap fun (place, _) =>
      if place.dropLast = folder then place.getLast? else none
    inside.mergeSort fun a b => decide (a ≤ b)

end Disk
end SealedDrive
