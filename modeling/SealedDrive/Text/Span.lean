/-!
Spans of time, counted in seconds and nanoseconds, and their text: the largest unit that leaves a
whole part, with as many decimals as the span needs.
-/

namespace SealedDrive

structure Span where
  seconds : Nat
  nanos : Nat
  deriving DecidableEq, Repr, Inhabited

namespace Span

/-- Seconds and nanoseconds, of which there may be more than a second has. -/
def ofParts (seconds nanos : Nat) : Span := ⟨seconds + nanos / 1000000000, nanos % 1000000000⟩

def ofSeconds (seconds : Nat) : Span := ⟨seconds, 0⟩

def ofMillis (millis : Nat) : Span := ⟨millis / 1000, millis % 1000 * 1000000⟩

/-- The span in whole milliseconds; what is left over is rounded up. -/
def millis (span : Span) : Nat := span.seconds * 1000 + (span.nanos + 999999) / 1000000

/-- The decimals of `part` out of `10 ^ places`, without zeros at the end. -/
def decimals (places part : Nat) : String :=
  let digits := Nat.toDigits 10 part
  let filled := List.replicate (places - digits.length) '0' ++ digits
  let kept := (filled.reverse.dropWhile (· == '0')).reverse
  if kept.isEmpty then "" else "." ++ String.ofList kept

/-- The span with its unit. -/
def shown (span : Span) : String :=
  if 0 < span.seconds then toString span.seconds ++ decimals 9 span.nanos ++ "s"
  else if 1000000 ≤ span.nanos then
    toString (span.nanos / 1000000) ++ decimals 6 (span.nanos % 1000000) ++ "ms"
  else if 1000 ≤ span.nanos then
    toString (span.nanos / 1000) ++ decimals 3 (span.nanos % 1000) ++ "µs"
  else toString span.nanos ++ "ns"

end Span
end SealedDrive
