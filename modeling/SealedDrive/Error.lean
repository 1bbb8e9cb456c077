import SealedDrive.Text.Base64
import SealedDrive.Text.Quoted
import SealedDrive.Text.Span

/-!
What can go wrong, as causes. The wording of each cause is in `message`; `shown` is the short form
used when a whole listing is shown. An error that wraps another one puts its own words in front.
-/

namespace SealedDrive

/-! ## The server -/

inductive ApiError where
  | other (text : String)
  | notFound (what : String)
  | unauthorized
  | status (code : UInt16) (text : String)
  deriving DecidableEq, Repr

namespace ApiError

def message : ApiError → String
  | .other text => "api error: " ++ text
  | .notFound what => "not found: " ++ what
  | .unauthorized => "unauthorized"
  | .status code text =>
    "request failed with status " ++ toString code.toNat ++ ": " ++ text

def shown : ApiError → String
  | .other text => "Default(" ++ text ++ ")"
  | .notFound what => "NotFound(" ++ Text.quoted what ++ ")"
  | .unauthorized => "Unauthorized"
  | .status code text =>
    Text.shownRecord "Status" [("status", toString code.toNat), ("message", Text.quoted text)]

end ApiError

/-! ## Keys -/

inductive CryptoError where
  | other (text : String)
  /-- Key material of a wrong length. -/
  | keySize (expected found : Nat)
  | emptyKeyPass
  | missingSalt (keyId : String)
  | locked (what : String)
  | decrypt (text : String)
  | verification (text : String)
  /-- Text that is no base64. -/
  | encoding (fault : Base64.Fault)
  deriving DecidableEq, Repr

namespace CryptoError

/-- What stands behind the general words of a cause that has no words of its own. -/
def detail : CryptoError → String
  | .other text => text
  | .keySize expected found =>
    "invalid key size, expected " ++ toString expected ++ ", got " ++ toString found
  | _ => ""

def message : CryptoError → String
  | .emptyKeyPass => "empty key pass"
  | .missingSalt keyId => "no salt for key " ++ keyId
  | .locked what => "failed to unlock key " ++ what
  | .decrypt text => "decryption failed: " ++ text
  | .verification text => "signature verification failed: " ++ text
  | .encoding _ => "encoding error"
  | error => "crypto error: " ++ error.detail

def shown : CryptoError → String
  | .emptyKeyPass => "EmptyKeyPass"
  | .missingSalt keyId => "MissingSalt(" ++ Text.quoted keyId ++ ")"
  | .locked what => "Locked(" ++ Text.quoted what ++ ")"
  | .decrypt text => "Decrypt(" ++ Text.quoted text ++ ")"
  | .verification text => "Verification(" ++ Text.quoted text ++ ")"
  | .encoding fault => "Encoding(" ++ fault.shown ++ ")"
  | error => "Default(" ++ error.detail ++ ")"

end CryptoError

/-! ## Stored credentials -/

inductive StoreError where
  | other (text : String)
  | io
  /-- The file holds no table of credentials. -/
  | malformed
  | unreplaced
  | unknownAccount (account : String)
  deriving DecidableEq, Repr

namespace StoreError

def message : StoreError → String
  | .other text => "store error: " ++ text
  | .io => "io error"
  | .malformed => "json error"
  | .unreplaced => "failed to replace session file"
  | .unknownAccount account => "unknown account: " ++ account

def shown : StoreError → String
  | .other text => "Default(" ++ text ++ ")"
  | .io => "Io"
  | .malformed => "Json"
  | .unreplaced => "Persist"
  | .unknownAccount account => "UnknownAccount(" ++ Text.quoted account ++ ")"

end StoreError

/-! ## Settings -/

inductive ConfigError where
  | io
  /-- A number that the file format cannot hold. -/
  | unwritable
  | malformed
  deriving DecidableEq, Repr

/-! ## Sessions -/

/-- What a login or a stored session has to bring. -/
inductive Credential where
  | username
  | password
  | mailboxPassword
  | uid
  | accessToken
  | refreshToken
  deriving DecidableEq, Repr

def Credential.label : Credential → String
  | .username => "username"
  | .password => "password"
  | .mailboxPassword => "mailbox password"
  | .uid => "uid"
  | .accessToken => "access token"
  | .refreshToken => "refresh token"

inductive SessionError where
  | other (text : String)
  | missingCredential (what : Credential)
  | notLoggedIn
  | twoFactorRequired
  | noUserKey
  | timedOut (span : Span)
  | api (error : ApiError)
  | crypto (error : CryptoError)
  | store (error : StoreError)
  deriving DecidableEq, Repr

namespace SessionError

def message : SessionError → String
  | .other text => "session error: " ++ text
  | .missingCredential what => "missing " ++ what.label
  | .notLoggedIn => "not logged in"
  | .twoFactorRequired => "two factor code required"
  | .noUserKey => "user has no keys"
  | .timedOut span => "timed out after " ++ span.shown
  | .api error => "api error: " ++ error.message
  | .crypto error => "crypto error: " ++ error.message
  | .store error => "store error: " ++ error.message

def shown : SessionError → String
  | .other text => "Default(" ++ text ++ ")"
  | .missingCredential what => "MissingCredential(" ++ Text.quoted what.label ++ ")"
  | .notLoggedIn => "NotLoggedIn"
  | .twoFactorRequired => "TwoFactorRequired"
  | .noUserKey => "NoUserKey"
  | .timedOut span => "TimedOut(" ++ span.shown ++ ")"
  | .api error => "Api(" ++ error.shown ++ ")"
  | .crypto error => "Crypto(" ++ error.shown ++ ")"
  | .store error => "Store(" ++ error.shown ++ ")"

/-- Whether the caller should log in again rather than report a failure. -/
def isNotLoggedIn : SessionError → Bool
  | .notLoggedIn => true
  | _ => false

end SessionError

/-! ## The drive -/

inductive DriveError where
  | other (text : String)
  | noFileProperties (linkId : String)
  | malformedAttributes (linkId : String)
  /-- The server sent another link than the root asked for. -/
  | unexpectedRoot (asked shareId found : String)
  | keyNotFound (what : String)
  | notAFolder (path : String)
  | fileNotFound (path : String)
  | invalidPath (path : String)
  | parentMismatch (linkId : String) (expected : Option String)
  | api (error : ApiError)
  | crypto (error : CryptoError)
  | session (error : SessionError)
  | cancelled
  | timedOut (span : Span)
  | workerPanicked (count : Nat)
  deriving DecidableEq, Repr

namespace DriveError

/-- What stands behind the general words of a cause that has no words of its own. -/
def detail : DriveError → String
  | .other text => text
  | .noFileProperties linkId => "file link " ++ linkId ++ " has no file properties"
  | .malformedAttributes linkId => "invalid extended attributes on " ++ linkId
  | .unexpectedRoot asked shareId found =>
    "asked for root link " ++ asked ++ " of share " ++ shareId ++ ", got " ++ found
  | _ => ""

def message : DriveError → String
  | .keyNotFound what => "key not found: " ++ what
  | .notAFolder path => "not a folder: " ++ path
  | .fileNotFound path => "file not found: " ++ path
  | .invalidPath path => "invalid path: " ++ Text.quoted path
  | .parentMismatch linkId expected =>
    "link " ++ linkId ++ " does not belong under " ++ Text.shownOption Text.quoted expected
  | .api error => "api error: " ++ error.message
  | .crypto error => "crypto error: " ++ error.message
  | .session error => "session error: " ++ error.message
  | .cancelled => "cancelled"
  | .timedOut span => "timed out after " ++ span.shown
  | .workerPanicked count => toString count ++ " lister worker(s) panicked"
  | error => "drive error: " ++ error.detail

def shown : DriveError → String
  | .keyNotFound what => "KeyNotFound(" ++ Text.quoted what ++ ")"
  | .notAFolder path => "NotAFolder(" ++ Text.quoted path ++ ")"
  | .fileNotFound path => "FileNotFound(" ++ Text.quoted path ++ ")"
  | .invalidPath path => "InvalidPath(" ++ Text.quoted path ++ ")"
  | .parentMismatch linkId expected =>
    Text.shownRecord "ParentMismatch" [("link_id", Text.quoted linkId),
      ("expected", Text.shownOption Text.quoted expected)]
  | .api error => "Api(" ++ error.shown ++ ")"
  | .crypto error => "Crypto(" ++ error.shown ++ ")"
  | .session error => "Session(" ++ error.shown ++ ")"
  | .cancelled => "Cancelled"
  | .timedOut span => "TimedOut(" ++ span.shown ++ ")"
  | .workerPanicked count => "WorkerPanicked(" ++ toString count ++ ")"
  | error => "Default(" ++ error.detail ++ ")"

/-- Whether the caller should log in again rather than report a failure. -/
def isNotLoggedIn : DriveError → Bool
  | .session error => error.isNotLoggedIn
  | .api .unauthorized => true
  | _ => false

end DriveError
end SealedDrive
