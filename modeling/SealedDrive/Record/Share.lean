import SealedDrive.Record.Status
import SealedDrive.Text.Quoted

/-!
The records about volumes and shares, and the wrapped keys that shares and links carry.
-/

namespace SealedDrive

open Json (FieldReader)

structure VolumeRecord where
  volumeId : String
  state : VolumeState
  usedSpace : Int64
  /-- Absent for a volume without limit. -/
  maxSpace : Option Int64
  /-- The main share of the volume. -/
  shareId : String
  deriving DecidableEq

namespace VolumeRecord

instance : JsonForm VolumeRecord where
  toJson volume := .record
    [("volume_id", .text volume.volumeId), ("state", toJson volume.state),
      ("used_space", toJson volume.usedSpace), ("max_space", .ofOption toJson volume.maxSpace),
      ("share_id", .text volume.shareId)]
  ofJson? j :=
    (do return ⟨← .required, ← .required, ← .required, ← .optional, ← .required⟩ :
      FieldReader VolumeRecord).readFrom
      (j.slots? ["volume_id", "state", "used_space", "max_space", "share_id"])

def shown (volume : VolumeRecord) : String :=
  Text.shownRecord "VolumeRecord" [("volume_id", Text.quoted volume.volumeId),
    ("state", "VolumeState(" ++ toString volume.state.code.toNat ++ ")"),
    ("used_space", toString volume.usedSpace.toInt),
    ("max_space", Text.shownOption (fun n => toString n.toInt) volume.maxSpace),
    ("share_id", Text.quoted volume.shareId)]

end VolumeRecord

/-- What the listing of all shares tells about one share. -/
structure ShareMetadata where
  shareId : String
  /-- The root link of the share. -/
  linkId : String
  volumeId : String
  shareType : ShareType
  state : ShareState
  creator : String
  flags : ShareFlags
  locked : Bool
  deriving DecidableEq, Repr

namespace ShareMetadata

def names : List String :=
  ["share_id", "link_id", "volume_id", "share_type", "state", "creator", "flags", "locked"]

def fields (share : ShareMetadata) : List (String × Json) :=
  [("share_id", .text share.shareId), ("link_id", .text share.linkId),
    ("volume_id", .text share.volumeId), ("share_type", toJson share.shareType),
    ("state", toJson share.state), ("creator", .text share.creator),
    ("flags", toJson share.flags), ("locked", .bool share.locked)]

def reader : FieldReader ShareMetadata := do
  return ⟨← .required, ← .required, ← .required, ← .required, ← .required, ← .required,
    ← .required, ← .required⟩

instance : JsonForm ShareMetadata where
  toJson share := .record share.fields
  ofJson? j := reader.readFrom (j.slots? names)

end ShareMetadata

/-- A key wrapped for a parent keyring and signed. -/
structure EncryptedKey where
  key : String
  passphrase : String
  passphraseSignature : String
  deriving DecidableEq, Repr, Inhabited

namespace EncryptedKey

instance : JsonForm EncryptedKey where
  toJson key := .record
    [("key", .text key.key), ("passphrase", .text key.passphrase),
      ("passphrase_signature", .text key.passphraseSignature)]
  ofJson? j :=
    (do return ⟨← .required, ← .required, ← .required⟩ : FieldReader EncryptedKey).readFrom
      (j.slots? ["key", "passphrase", "passphrase_signature"])

/-- The text shown for a wrapped key names the key and leaves out the rest. -/
def shown (key : EncryptedKey) : String :=
  "EncryptedKey \x7b key: " ++ Text.quoted key.key ++ ", .. \x7d"

end EncryptedKey

/-- A share with its key. -/
structure ShareRecord where
  metadata : ShareMetadata
  /-- The address whose keyring unwraps the share key. -/
  addressId : String
  key : EncryptedKey
  deriving DecidableEq, Repr

namespace ShareRecord

instance : JsonForm ShareRecord where
  toJson share := .record
    (share.metadata.fields ++ [("address_id", .text share.addressId), ("key", toJson share.key)])
  ofJson? j :=
    (do
      let addressId ← .required
      let key ← .required
      return ⟨← ShareMetadata.reader, addressId, key⟩ : FieldReader ShareRecord).readFrom
      (j.flatSlots? 1 ["address_id", "key"] ShareMetadata.names)

end ShareRecord
end SealedDrive
