import SealedDrive.Activity
import SealedDrive.Text.Span

/-!
Activities under a bound that is given as a span.
-/

namespace SealedDrive

/-- Replace the answer of an activity that outlasts a span, which comes to whole milliseconds on the
clock. -/
def Activity.before {σ α ε : Type} (span : Span) (error : ε) (p : Activity σ (Except ε α)) :
    Activity σ (Except ε α) :=
  p.orElse error span.millis

end SealedDrive
