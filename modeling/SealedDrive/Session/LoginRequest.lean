import SealedDrive.Text.Quoted

/-!
What a caller gives for a login. Asking for it is the caller's job; an absent second factor or
mailbox password becomes an error once the server asks for it.
-/

namespace SealedDrive

structure LoginRequest where
  username : String
  password : String
  /-- Needed when a separate password unlocks the keys. -/
  mailboxPassword : Option String
  twoFactorCode : Option String
  deriving DecidableEq, Repr

/-- The text shown for a login hides the passwords. -/
def LoginRequest.shown (request : LoginRequest) : String :=
  Text.shownRecord "LoginRequest" [("username", Text.quoted request.username),
    ("password", Text.quoted "<hidden>"), ("mailbox_password", Text.quoted "<hidden>"),
    ("two_factor_code", Text.shownOption Text.quoted request.twoFactorCode)]

end SealedDrive
