import SealedDrive.Deadline
import SealedDrive.Dialogue
import SealedDrive.Keyring
import SealedDrive.Listing.Config
import SealedDrive.Session.LoginRequest

/-!
Sessions. A locked session has tokens and the records of the user and the addresses, but no keys;
unlocking it with a key pass gives a session with the user keyring and one keyring per address.
There is nothing in between: either all keys that should open do, or none is handed out.
-/

namespace SealedDrive

/-- A session whose keys are still locked. -/
structure LockedSession where
  tokens : Tokens
  user : User
  addresses : List Address
  lister : ListerConfig := {}
  /-- Bound on each walk and child listing of the unlocked session. -/
  timeout : Option Span := none
  deriving DecidableEq

/-- An unlocked session. Its keys never change. -/
structure Session where
  /-- Tells this unlocking from all others. -/
  number : Nat
  tokens : Tokens
  user : User
  addresses : List Address
  userKeyring : Keyring
  /-- Keyrings by address id. -/
  addressKeyrings : List (String × Keyring)
  lister : ListerConfig
  timeout : Option Span
  deriving DecidableEq

namespace LockedSession

variable {σ : Type}

def shown (locked : LockedSession) : String :=
  Text.shownRecord "LockedSession" [("uid", Text.quoted locked.tokens.uid),
    ("user", Text.quoted locked.user.name), ("addresses", toString locked.addresses.length)]

/-- Fail when a value is empty. -/
def require (value : String) (what : Credential) : ExceptT SessionError (Dialogue σ) Unit :=
  if value.isEmpty then throw (.missingCredential what) else pure ()

/-- A value that has to be there and not be empty. -/
def requireSome (value : Option String) (error : SessionError) :
    ExceptT SessionError (Dialogue σ) String :=
  match value.filter fun text => !text.isEmpty with
  | some text => pure text
  | none => throw error

/-- Attach to stored tokens and load the records of the account. -/
def restore (tokens : Tokens) : ExceptT SessionError (Dialogue σ) LockedSession := do
  require tokens.uid .uid
  require tokens.accessToken .accessToken
  require tokens.refreshToken .refreshToken
  Dialogue.fetch .api (.resume tokens)
  let user ← Dialogue.fetch .api .getUser
  let addresses ← Dialogue.fetch .api .getAddresses
  return { tokens, user, addresses }

/-- The password that unlocks the keys. -/
def keyPassword (mode : PasswordMode) (request : LoginRequest) :
    ExceptT SessionError (Dialogue σ) String :=
  match mode with
  | .one => pure request.password
  | .two => requireSome request.mailboxPassword (.missingCredential .mailboxPassword)

/-- The key that a key pass is salted for. -/
def primaryKey (user : User) : ExceptT SessionError (Dialogue σ) UserKey :=
  match user.primaryKey? with
  | some key => pure key
  | none => throw .noUserKey

/-- Log in and salt the key pass for the primary user key. The key pass is what a caller stores to
restore the session later. -/
def login (request : LoginRequest) :
    ExceptT SessionError (Dialogue σ) (LockedSession × KeyPass) := do
  require request.username .username
  require request.password .password
  let auth : Auth ← Dialogue.fetch .api (.login request.username request.password)
  if auth.twoFactorEnabled then
    let code ← requireSome request.twoFactorCode .twoFactorRequired
    Dialogue.fetch .api (.submitTwoFactor code)
  let password ← keyPassword auth.passwordMode request
  let user ← Dialogue.fetch .api .getUser
  let salts ← Dialogue.fetch .api .getSalts
  let key ← primaryKey user
  let keyPass ← ExceptT.mk <| pure <|
    (Keyring.saltFor (Bytes.ofText password) salts key.id).mapError .crypto
  let addresses ← Dialogue.fetch .api .getAddresses
  return ({ tokens := auth.tokens, user, addresses }, keyPass)

/-- Unlock the user keyring and the keyring of every address. -/
def unlock (locked : LockedSession) (number : Nat) (keyPass : KeyPass) :
    Except SessionError Session :=
  if keyPass.isEmpty then .error (.crypto .emptyKeyPass)
  else
    match Keyring.unlock locked.user locked.addresses keyPass with
    | .error error => .error (.crypto error)
    | .ok unlocked =>
      .ok
        { number
          tokens := locked.tokens
          user := locked.user
          addresses := locked.addresses
          userKeyring := unlocked.user
          addressKeyrings := unlocked.addresses
          lister := locked.lister
          timeout := locked.timeout }

end LockedSession

namespace Session

def shown (session : Session) : String :=
  Text.shownRecord "Session" [("uid", Text.quoted session.tokens.uid),
    ("user", Text.quoted session.user.name),
    ("address_key_rings", toString session.addressKeyrings.length)]

/-- The address registered under an email; the last one listed when there are several. -/
def address? (session : Session) (email : String) : Option Address :=
  session.addresses.reverse.find? (·.email = email)

def addressKeyring? (session : Session) (addressId : String) : Option Keyring :=
  session.addressKeyrings.lookup addressId

/-- The keyring of the address registered under an email. -/
def addressKeyringFor? (session : Session) (email : String) : Option Keyring :=
  (session.address? email).bind fun address => session.addressKeyring? address.id

/-- The keyring that checks what an email signed; a miss says what is missing. -/
def signerKeyring (session : Session) (email : String) : Except DriveError Keyring :=
  match session.address? email with
  | none => .error (.keyNotFound ("no address for " ++ email))
  | some address =>
    match session.addressKeyring? address.id with
    | none => .error (.keyNotFound ("no keyring for address " ++ address.id))
    | some ring => .ok ring

/-- Run an operation on the tree under the session's time bound. -/
def bounded {τ α : Type} (session : Session) (p : Activity τ (Except DriveError α)) :
    Activity τ (Except DriveError α) :=
  match session.timeout with
  | none => p
  | some span => p.before span (.timedOut span)

end Session
end SealedDrive
