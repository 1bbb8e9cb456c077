import SealedDrive.Activity
import SealedDrive.Error
import SealedDrive.Record.Account
import SealedDrive.Record.Link

/-!
What a client may ask of the server, and what carries the questions out. The client decides which
records to ask for and in which order; transport and authentication are the service's business.
-/

namespace SealedDrive

inductive Request where
  | login (username password : String)
  | submitTwoFactor (code : String)
  /-- Attach the client to tokens that were issued before. -/
  | resume (tokens : Tokens)
  /-- End the server session with this uid. -/
  | revoke (uid : String)
  | getUser
  | getAddresses
  | getSalts
  | listVolumes
  | getVolume (volumeId : String)
  /-- The metadata of all shares; deleted ones too when `all` is set. -/
  | listShares (all : Bool)
  | getShare (shareId : String)
  | getLink (shareId linkId : String)
  /-- The children of a folder; trashed ones too when `all` is set. -/
  | listChildren (shareId linkId : String) (all : Bool)
  deriving DecidableEq, Repr

namespace Request

/-- What a request is answered with when it succeeds. -/
def Answer : Request → Type
  | login _ _ => Auth
  | submitTwoFactor _ => Unit
  | resume _ => Unit
  | revoke _ => Unit
  | getUser => User
  | getAddresses => List Address
  | getSalts => List Salt
  | listVolumes => List VolumeRecord
  | getVolume _ => VolumeRecord
  | listShares _ => List ShareMetadata
  | getShare _ => ShareRecord
  | getLink _ _ => LinkRecord
  | listChildren _ _ _ => List LinkRecord

/-- The answer or the reason why there is none. -/
abbrev Reply (request : Request) : Type := Except ApiError request.Answer

/-- The name of what is asked for. -/
def method : Request → String
  | login _ _ => "login"
  | submitTwoFactor _ => "submit_two_factor"
  | resume _ => "resume"
  | revoke _ => "revoke"
  | getUser => "get_user"
  | getAddresses => "get_addresses"
  | getSalts => "get_salts"
  | listVolumes => "list_volumes"
  | getVolume _ => "get_volume"
  | listShares _ => "list_shares"
  | getShare _ => "get_share"
  | getLink _ _ => "get_link"
  | listChildren _ _ _ => "list_children"

/-- What the request is about; empty when it is about the account as a whole. -/
def subject : Request → String
  | login username _ => username
  | submitTwoFactor code => code
  | resume tokens => tokens.uid
  | revoke uid => uid
  | getVolume volumeId => volumeId
  | listShares all => if all then "all" else ""
  | getShare shareId => shareId
  | getLink _ linkId => linkId
  | listChildren _ linkId _ => linkId
  | _ => ""

/-- Whether the request asks for data of the account rather than for a session. -/
def isData : Request → Bool
  | login _ _ | submitTwoFactor _ | resume _ | revoke _ => false
  | _ => true

end Request

/-- What answers requests, in its own time and on its own state. -/
abbrev Service (σ : Type) := (request : Request) → Activity σ request.Reply

end SealedDrive
