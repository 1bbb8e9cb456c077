import SealedDrive.Record.Status
import SealedDrive.Text.Quoted

/-!
The records about an account: tokens of a server session, the user with its keys, the addresses
with theirs, and the salts of the user keys.
-/

namespace SealedDrive

open Json (FieldReader)

/-- The tokens of one server session. -/
structure Tokens where
  uid : String
  accessToken : String
  refreshToken : String
  deriving DecidableEq, Repr, Inhabited

namespace Tokens

def names : List String := ["uid", "access_token", "refresh_token"]

def fields (tokens : Tokens) : List (String × Json) :=
  [("uid", .text tokens.uid), ("access_token", .text tokens.accessToken),
    ("refresh_token", .text tokens.refreshToken)]

def reader : FieldReader Tokens := do
  return ⟨← .required, ← .required, ← .required⟩

instance : JsonForm Tokens where
  toJson tokens := .record tokens.fields
  ofJson? j := reader.readFrom (j.slots? names)

/-- The text shown for tokens hides the secrets. -/
def shown (tokens : Tokens) : String :=
  Text.shownRecord "Tokens" [("uid", Text.quoted tokens.uid),
    ("access_token", Text.quoted "<redacted>"), ("refresh_token", Text.quoted "<redacted>")]

end Tokens

/-- Which password unlocks the keys. -/
inductive PasswordMode where
  /-- The login password does. -/
  | one
  /-- A separate mailbox password does. -/
  | two
  deriving DecidableEq, Repr, Inhabited

namespace PasswordMode

def name : PasswordMode → String
  | .one => "one"
  | .two => "two"

def ofName? : String → Option PasswordMode
  | "one" => some .one
  | "two" => some .two
  | _ => none

def shown : PasswordMode → String
  | .one => "One"
  | .two => "Two"

instance : JsonForm PasswordMode where
  toJson mode := .text mode.name
  ofJson? := Json.ofVariant? ofName?

end PasswordMode

/-- The answer to a successful login. -/
structure Auth where
  tokens : Tokens
  passwordMode : PasswordMode
  twoFactorEnabled : Bool
  deriving DecidableEq, Repr

structure UserKey where
  id : String
  privateKey : String
  primary : Bool
  deriving DecidableEq, Repr

namespace UserKey

instance : JsonForm UserKey where
  toJson key := .record
    [("id", .text key.id), ("private_key", .text key.privateKey), ("primary", .bool key.primary)]
  ofJson? j :=
    (do return ⟨← .required, ← .required, ← .required⟩ : FieldReader UserKey).readFrom
      (j.slots? ["id", "private_key", "primary"])

end UserKey

structure User where
  id : String
  name : String
  displayName : String
  email : String
  keys : List UserKey
  usedSpace : Int64
  maxSpace : Int64
  deriving DecidableEq

namespace User

/-- The key that the key pass is salted for: the first one flagged primary, else the first. -/
def primaryKey? (user : User) : Option UserKey :=
  user.keys.find? (·.primary) <|> user.keys.head?

instance : JsonForm User where
  toJson user := .record
    [("id", .text user.id), ("name", .text user.name), ("display_name", .text user.displayName),
      ("email", .text user.email), ("keys", toJson user.keys),
      ("used_space", toJson user.usedSpace), ("max_space", toJson user.maxSpace)]
  ofJson? j :=
    (do return ⟨← .required, ← .required, ← .required, ← .required, ← .required, ← .required,
      ← .required⟩ : FieldReader User).readFrom
      (j.slots? ["id", "name", "display_name", "email", "keys", "used_space", "max_space"])

end User

structure AddressKey where
  id : String
  privateKey : String
  /-- The key sealed to the user key. -/
  token : Option String
  signature : Option String
  primary : Bool
  active : Bool
  deriving DecidableEq, Repr

namespace AddressKey

instance : JsonForm AddressKey where
  toJson key := .record
    [("id", .text key.id), ("private_key", .text key.privateKey),
      ("token", .ofOption .text key.token), ("signature", .ofOption .text key.signature),
      ("primary", .bool key.primary), ("active", .bool key.active)]
  ofJson? j :=
    (do return ⟨← .required, ← .required, ← .optional, ← .optional, ← .required, ← .required⟩ :
      FieldReader AddressKey).readFrom
      (j.slots? ["id", "private_key", "token", "signature", "primary", "active"])

end AddressKey

structure Address where
  id : String
  email : String
  addressType : AddressType
  status : AddressStatus
  order : UInt32
  keys : List AddressKey
  deriving DecidableEq

namespace Address

instance : JsonForm Address where
  toJson address := .record
    [("id", .text address.id), ("email", .text address.email),
      ("address_type", toJson address.addressType), ("status", toJson address.status),
      ("order", toJson address.order), ("keys", toJson address.keys)]
  ofJson? j :=
    (do return ⟨← .required, ← .required, ← .required, ← .required, ← .required, ← .required⟩ :
      FieldReader Address).readFrom
      (j.slots? ["id", "email", "address_type", "status", "order", "keys"])

/-- The key that is unlocked for an address: the first active one flagged primary, else the first
active one. -/
def activeKey? (address : Address) : Option AddressKey :=
  let active := address.keys.filter (·.active)
  active.find? (·.primary) <|> active.head?

end Address

/-- The salt for one user key. -/
structure Salt where
  id : String
  keySalt : Option String
  deriving DecidableEq, Repr

namespace Salt

instance : JsonForm Salt where
  toJson salt := .record [("id", .text salt.id), ("key_salt", .ofOption .text salt.keySalt)]
  ofJson? j :=
    (do return ⟨← .required, ← .optional⟩ : FieldReader Salt).readFrom (j.slots? ["id", "key_salt"])

end Salt
end SealedDrive
