import SealedDrive.KeyPass
import SealedDrive.Record.Account

/-!
Stored credentials: all that is needed to restore a session without a password.
-/

namespace SealedDrive

open Json (FieldReader)

structure Credentials where
  tokens : Tokens
  /-- The salted key pass as base64. -/
  saltedKeyPass : String
  deriving DecidableEq, Repr

namespace Credentials

def ofKeyPass (tokens : Tokens) (keyPass : KeyPass) : Credentials := ⟨tokens, keyPass.toBase64⟩

def keyPass (credentials : Credentials) : Except CryptoError KeyPass :=
  KeyPass.ofBase64 credentials.saltedKeyPass

/-- The same key pass with other tokens. -/
def withTokens (credentials : Credentials) (tokens : Tokens) : Credentials :=
  { credentials with tokens }

/-- The text shown for credentials hides the secrets. -/
def shown (credentials : Credentials) : String :=
  Text.shownRecord "Credentials" [("tokens", credentials.tokens.shown),
    ("salted_key_pass", Text.quoted "<redacted>")]

def toObject (credentials : Credentials) : Json :=
  .record (credentials.tokens.fields ++ [("salted_key_pass", .text credentials.saltedKeyPass)])

/-- Read credentials that lie inside `level` objects, their own included. -/
def ofObject? (level : Nat) (j : Json) : Option Credentials :=
  (do
    let saltedKeyPass ← .required
    return ⟨← Tokens.reader, saltedKeyPass⟩ : FieldReader Credentials).readFrom
    (j.flatSlots? level ["salted_key_pass"] Tokens.names)

instance : JsonForm Credentials where
  toJson := toObject
  ofJson? := ofObject? 1

end Credentials
end SealedDrive
