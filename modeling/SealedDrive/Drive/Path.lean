import SealedDrive.Error
import SealedDrive.Text.Slashed

/-!
Paths: names joined by slashes. Slashes at both ends do not count, an empty name anywhere else is
refused.
-/

namespace SealedDrive.Path

/-- Take the slashes off both ends. -/
def trim (path : List Char) : List Char :=
  ((path.dropWhile (· = '/')).reverse.dropWhile (· = '/')).reverse

/-- The names of a path. -/
def segments (path : String) : Except DriveError (List String) :=
  let trimmed := trim path.toList
  if trimmed.isEmpty then .ok []
  else
    let names := Text.splitSlash trimmed
    if names.any (·.isEmpty) then .error (.invalidPath path)
    else .ok (names.map String.ofList)

/-- The names with slashes between them. -/
def join (names : List String) : String := "/".intercalate names

end SealedDrive.Path
