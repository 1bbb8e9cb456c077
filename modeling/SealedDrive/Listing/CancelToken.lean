/-!
Cancellation shared between a caller and what runs for it. Tokens are held by number; a clone of a
token stands for the same flag, and a flag once set stays set.
-/

namespace SealedDrive

/-- The flags and, for every token, which flag it stands for. -/
structure CancelTokens where
  flags : List Bool
  tokens : List Nat
  deriving DecidableEq, Repr

namespace CancelTokens

/-- One token with its own flag. -/
def single : CancelTokens := ⟨[false], [0]⟩

/-- Add a token with a flag of its own. -/
def new (s : CancelTokens) : CancelTokens :=
  ⟨s.flags ++ [false], s.tokens ++ [s.flags.length]⟩

/-- Add a token that shares the flag of another. -/
def clone (s : CancelTokens) (token : Nat) : CancelTokens :=
  { s with tokens := s.tokens ++ [s.tokens.getD token 0] }

def cancel (s : CancelTokens) (token : Nat) : CancelTokens :=
  { s with flags := s.flags.set (s.tokens.getD token 0) true }

/-- A cancelled token lets every wait for it end; any other wait goes on for ever. -/
def isCancelled (s : CancelTokens) (token : Nat) : Bool :=
  s.flags.getD (s.tokens.getD token 0) false

end CancelTokens
end SealedDrive
