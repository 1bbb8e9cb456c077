import SealedDrive.Json.Reader

/-!
Reading JSON from octets. Octets that belong to no character may stand inside a string; they make
it a string that no text is, which may be skipped but not read.
-/

namespace SealedDrive.Json

/-- The first character of an octet string and the number of its octets. -/
def firstLetter? (bytes : Bytes) : Option (Char × Nat) :=
  [1, 2, 3, 4].findSome? fun count =>
    match (Bytes.text? (bytes.take count)).map String.toList with
    | some [c] => some (c, count)
    | _ => none

/-- Halves of surrogate pairs that never join with another one. -/
def loneHalves : List Char := "\\udc00\\udc00".toList

/-- The characters of an octet string. An octet that belongs to none is taken as a lone half of a
surrogate pair, because it does the same to the string around it; only after a backslash, when
`escaping`, it makes an escape that there is not. -/
def lettersFor : (fuel : Nat) → (escaping : Bool) → Bytes → Option (List Char)
  | 0, _, _ => some []
  | _, _, [] => some []
  | fuel + 1, escaping, bytes =>
    match firstLetter? bytes with
    | some (c, count) =>
      (lettersFor fuel (c = '\\' && !escaping) (bytes.drop count)).map (c :: ·)
    | none =>
      if escaping then none
      else (lettersFor fuel false (bytes.drop 1)).map (loneHalves ++ ·)

/-- Read a whole octet string as one value. -/
def ofBytes? (bytes : Bytes) : Option Json :=
  (lettersFor bytes.length false bytes).bind readList

end SealedDrive.Json
