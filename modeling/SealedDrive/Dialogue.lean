import SealedDrive.Request

/-!
Client operations as dialogues: what the client asks, one request after the other, and what it
does with its own memory of type `σ` in between. A dialogue says nothing about who answers; a
service carries it out.
-/

namespace SealedDrive

inductive Dialogue (σ α : Type) where
  | done (answer : α)
  | ask (request : Request) (next : request.Reply → Dialogue σ α)
  | read (next : σ → Dialogue σ α)
  | write (memory : σ) (next : Dialogue σ α)

namespace Dialogue

variable {σ τ α β ε : Type}

def bind : Dialogue σ α → (α → Dialogue σ β) → Dialogue σ β
  | done a, f => f a
  | ask request next, f => ask request fun reply => bind (next reply) f
  | read next, f => read fun s => bind (next s) f
  | write s next, f => write s (bind next f)

instance : Monad (Dialogue σ) where
  pure := done
  bind := bind

/-- Change the memory and answer something about it. -/
def update (f : σ → α × σ) : Dialogue σ α :=
  read fun s => let (a, s') := f s; write s' (done a)

/-- The answer of a request, or its error in the words of the caller. -/
def fetch (wrap : ApiError → ε) (request : Request) :
    ExceptT ε (Dialogue σ) request.Answer :=
  ExceptT.mk <| ask request fun
    | .ok answer => done (.ok answer)
    | .error error => done (.error (wrap error))

/-- Carry a dialogue out with a service. -/
def carry (service : Service τ) : Dialogue σ α → Activity (σ × τ) α
  | done a => .done a
  | ask request next =>
    ((service request).focus Prod.snd fun t s => (s.1, t)).bind fun reply =>
      carry service (next reply)
  | read next => .read fun s => carry service (next s.1)
  | write memory next => .read fun s => .write (memory, s.2) (carry service next)

/-- Carry out a dialogue that needs no memory. -/
def carryAlone (service : Service τ) : Dialogue Unit α → Activity τ α
  | done a => .done a
  | ask request next => (service request).bind fun reply => carryAlone service (next reply)
  | read next => carryAlone service (next ())
  | write _ next => carryAlone service next

/-- Carry a dialogue out with fixed replies. -/
def answerBy (reply : (request : Request) → request.Reply) : Dialogue σ α → σ → α × σ
  | done a, s => (a, s)
  | ask request next, s => answerBy reply (next (reply request)) s
  | read next, s => answerBy reply (next s) s
  | write memory next, _ => answerBy reply next memory

end Dialogue
end SealedDrive
