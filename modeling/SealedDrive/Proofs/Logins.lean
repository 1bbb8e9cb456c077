import SealedDrive.Proofs.Served
import SealedDrive.Session.Manager

/-!
What is done without a wait is done within every bound, so no bound of a session manager cuts short
what the drive in memory answers at once. A login attaches the client to a session that it issues
(`Server.attached`); where one password opens the account (`Server.Opens`), the key pass is salted
from it.
-/

namespace SealedDrive

section

variable {σ α β ε : Type} {p : Activity σ α} {turn : Nat → σ → σ} {left left' : Nat} {s s' : σ}

namespace Activity

theorem burst_bind {a : α} (f : α → Activity σ β)
    (h : p.burst left s = (.done a, left', s')) :
    (p.bind f).burst left s = (f a).burst left' s' := by
  induction p generalizing left s with
  | done b => cases h; rfl
  | crash => cases h
  | read next ih => exact ih s h
  | write state next ih => exact ih h
  | allowance takes next ih => exact ih _ h
  | wait millis leave next ih => cases h

theorem run_of_burst {a : α} (h : p.burst left s = (.done a, left', s')) :
    p.run turn left s = (some a, left', s') := by
  induction p generalizing left s with
  | done b => cases h; rfl
  | crash => cases h
  | read next ih => exact ih s h
  | write state next ih => exact ih h
  | allowance takes next ih => exact ih _ h
  | wait millis leave next ih => cases h

theorem burst_withinFrom {a : α} (h : p.burst left s = (.done a, left', s')) (watches : Bool)
    (budget : Nat) :
    (withinFrom watches budget p).burst left s = (.done (some a), left', s') := by
  induction p generalizing left s with
  | done b => cases h; rfl
  | crash => cases h
  | read next ih => exact ih s h
  | write state next ih => exact ih h
  | allowance takes next ih => exact ih _ h
  | wait millis leave next ih => cases h

/-- What is done without a wait is done within every bound. -/
theorem burst_before {p : Activity σ (Except ε α)} {a : Except ε α}
    (h : p.burst left s = (.done a, left', s')) (span : Span) (error : ε) :
    (p.before span error).burst left s = (.done a, left', s') := by
  have hwithin := burst_withinFrom h (0 < left) span.millis
  exact burst_bind (fun answer => done (answer.getD (.error error))) hwithin

end Activity

end

/-! ## Logging in -/

/-- The drive once a session is issued and attached. -/
def Server.attached (s : Server) : Server :=
  { s.issueSession.2 with current := some s.issueSession.1.uid, awaitingTwoFactor := false }

/-- One password logs in to the drive and unlocks the keys. -/
structure Server.Opens (s : Server) (request : LoginRequest) (keyPass : KeyPass) : Prop where
  username : s.username = request.username ∧ request.username.isEmpty = false
  password : s.password = request.password ∧ request.password.isEmpty = false
  passwordMode : s.passwordMode = .one
  twoFactorCode : s.twoFactorCode = none
  salted : ∃ key, s.user.primaryKey? = some key ∧
    Keyring.saltFor (Bytes.ofText request.password) s.salts key.id = .ok keyPass

/-- The same world around another drive. -/
def World.withServer (world : World) (server : Server) : World :=
  { world with bench := world.bench.setServer server }

theorem Keyring.saltFor_encode {salts : List Salt} {keyId : String} {salt : Bytes}
    (h : (salts.find? (·.id = keyId)).bind (·.keySalt) = some (Base64.encode salt))
    (password : Bytes) :
    Keyring.saltFor password salts keyId = .ok (Keyring.salt password salt) := by
  unfold Keyring.saltFor
  rw [h]
  simp only [Base64.decode_encode]

/-- An account that is created for a user name and one password. -/
theorem Account.opens_create {username password : String} (husername : username.isEmpty = false)
    (hpassword : password.isEmpty = false) :
    (Account.create username password none none).server.Opens ⟨username, password, none, none⟩
      (Account.create username password none none).keyPass where
  username := ⟨rfl, husername⟩
  password := ⟨rfl, hpassword⟩
  passwordMode := rfl
  twoFactorCode := rfl
  salted := ⟨_, rfl, Keyring.saltFor_encode rfl (Bytes.ofText password)⟩

/-- An account opens the same way after a session was issued and attached. -/
theorem Server.Opens.attached {s : Server} {request : LoginRequest} {keyPass : KeyPass}
    (h : s.Opens request keyPass) : s.attached.Opens request keyPass :=
  ⟨h.username, h.password, h.passwordMode, h.twoFactorCode, h.salted⟩

end SealedDrive
