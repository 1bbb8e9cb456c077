/-!
Names with slashes between them.
-/

namespace SealedDrive.Text

/-- Cut at every slash. -/
def splitSlash : List Char → List (List Char)
  | [] => [[]]
  | c :: rest =>
    if c = '/' then [] :: splitSlash rest
    else
      match splitSlash rest with
      | [] => [[c]]
      | first :: more => (c :: first) :: more

end SealedDrive.Text
