import SealedDrive.Text.Slashed

/-!
Paths on a disk, kept as they are written: what stands between the slashes, from the top. An empty
piece and a single dot lead nowhere, two dots lead back to the folder around the current one.
-/

namespace SealedDrive

structure DiskPath where
  pieces : List String
  deriving DecidableEq, Repr

namespace DiskPath

/-- The way from the top to the folder that other paths start from. -/
def home : List String := ["tmp", "home-place"]

/-- Longer paths are refused. -/
def lengthLimit : Nat := 4095

/-- Longer names are refused. -/
def nameLimit : Nat := 255

def piecesOf (text : String) : List String := (Text.splitSlash text.toList).map String.ofList

/-- A text that starts with a slash is a path from the top, any other one leads on from home. -/
def ofText (text : String) : DiskPath where
  pieces := if text.startsWith "/" then (piecesOf text).drop 1 else home ++ piecesOf text

def leadsNowhere (piece : String) : Bool := piece = "" || piece = "."

/-- Pieces without those at the end that lead nowhere. -/
def withoutTail (pieces : List String) : List String :=
  (pieces.reverse.dropWhile leadsNowhere).reverse

/-- The path without the last piece that leads anywhere. -/
def parent (path : DiskPath) : DiskPath := ⟨withoutTail (withoutTail path.pieces).dropLast⟩

/-- The path of an entry in the folder at a path. -/
def child (path : DiskPath) (name : String) : DiskPath := ⟨path.pieces ++ [name]⟩

/-- A file that is to take the place of another one is written beside it first, under a name of
this length. -/
def draftName : String := "draft-file"

/-- How many octets a path takes, each piece with the slash before it. -/
def length (path : DiskPath) : Nat :=
  path.pieces.foldr (fun piece n => piece.utf8ByteSize + 1 + n) 0

/-- Whether the path may be used at all. -/
def isUsable (path : DiskPath) : Bool :=
  path.length ≤ lengthLimit && path.pieces.all fun piece => !piece.toList.contains '\x00'

/-- A written path without what leads nowhere at its ends. -/
def trimmed (text : String) : String :=
  "/".intercalate (withoutTail ((piecesOf text).dropWhile leadsNowhere))

end DiskPath
end SealedDrive
