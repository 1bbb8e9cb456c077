import SealedDrive.Record.Share

/-!
The records about links, the encrypted files and folders of a share, and the extended attributes
that a file revision carries once they are decrypted.
-/

namespace SealedDrive

open Json (FieldReader)

inductive LinkType where
  | folder
  | file
  deriving DecidableEq, Repr

namespace LinkType

def label : LinkType → String
  | .folder => "folder"
  | .file => "file"

def ofLabel? : String → Option LinkType
  | "folder" => some .folder
  | "file" => some .file
  | _ => none

def shown : LinkType → String
  | .folder => "Folder"
  | .file => "File"

instance : JsonForm LinkType where
  toJson type := .text type.label
  ofJson? := Json.ofVariant? ofLabel?

end LinkType

inductive LinkState where
  | draft
  | active
  | trashed
  | deleted
  deriving DecidableEq, Repr

namespace LinkState

def label : LinkState → String
  | .draft => "draft"
  | .active => "active"
  | .trashed => "trashed"
  | .deleted => "deleted"

def ofLabel? : String → Option LinkState
  | "draft" => some .draft
  | "active" => some .active
  | "trashed" => some .trashed
  | "deleted" => some .deleted
  | _ => none

def shown : LinkState → String
  | .draft => "Draft"
  | .active => "Active"
  | .trashed => "Trashed"
  | .deleted => "Deleted"

/-- Trashed and deleted links are listed on request only. -/
def isTrashed : LinkState → Bool
  | .trashed | .deleted => true
  | _ => false

instance : JsonForm LinkState where
  toJson state := .text state.label
  ofJson? := Json.ofVariant? ofLabel?

end LinkState

structure RevisionRecord where
  id : String
  size : Int64
  createTime : Int64
  signatureEmail : String
  /-- The sealed extended attributes. -/
  xattr : Option String
  deriving DecidableEq

namespace RevisionRecord

instance : JsonForm RevisionRecord where
  toJson revision := .record
    [("id", .text revision.id), ("size", toJson revision.size),
      ("create_time", toJson revision.createTime),
      ("signature_email", .text revision.signatureEmail),
      ("xattr", .ofOption .text revision.xattr)]
  ofJson? j :=
    (do return ⟨← .required, ← .required, ← .required, ← .required, ← .optional⟩ :
      FieldReader RevisionRecord).readFrom
      (j.slots? ["id", "size", "create_time", "signature_email", "xattr"])

end RevisionRecord

structure FileProperties where
  contentKey : EncryptedKey
  activeRevision : RevisionRecord
  deriving DecidableEq

namespace FileProperties

instance : JsonForm FileProperties where
  toJson properties := .record
    [("content_key", toJson properties.contentKey),
      ("active_revision", toJson properties.activeRevision)]
  ofJson? j :=
    (do return ⟨← .required, ← .required⟩ : FieldReader FileProperties).readFrom
      (j.slots? ["content_key", "active_revision"])

end FileProperties

structure LinkRecord where
  linkId : String
  /-- Absent for the root link of a share. -/
  parentLinkId : Option String
  linkType : LinkType
  /-- The sealed name. -/
  name : String
  nameSignatureEmail : String
  signatureEmail : String
  nodeKey : EncryptedKey
  state : LinkState
  mimeType : String
  size : Int64
  createTime : Int64
  modifyTime : Int64
  /-- Zero when the link never expires. -/
  expirationTime : Int64
  /-- Present on files only. -/
  fileProperties : Option FileProperties
  deriving DecidableEq

namespace LinkRecord

def names : List String :=
  ["link_id", "parent_link_id", "link_type", "name", "name_signature_email", "signature_email",
    "node_key", "state", "mime_type", "size", "create_time", "modify_time", "expiration_time",
    "file_properties"]

instance : JsonForm LinkRecord where
  toJson link := .record
    [("link_id", .text link.linkId), ("parent_link_id", .ofOption .text link.parentLinkId),
      ("link_type", toJson link.linkType), ("name", .text link.name),
      ("name_signature_email", .text link.nameSignatureEmail),
      ("signature_email", .text link.signatureEmail), ("node_key", toJson link.nodeKey),
      ("state", toJson link.state), ("mime_type", .text link.mimeType),
      ("size", toJson link.size), ("create_time", toJson link.createTime),
      ("modify_time", toJson link.modifyTime),
      ("expiration_time", toJson link.expirationTime),
      ("file_properties", .ofOption toJson link.fileProperties)]
  ofJson? j :=
    (do return ⟨← .required, ← .optional, ← .required, ← .required, ← .required, ← .required,
      ← .required, ← .required, ← .required, ← .required, ← .required, ← .required, ← .required,
      ← .optional⟩ : FieldReader LinkRecord).readFrom (j.slots? names)

end LinkRecord

/-! ## Extended attributes -/

structure XAttrCommon where
  modificationTime : Option String
  size : Option Int64
  blockSizes : List Int64
  deriving DecidableEq

namespace XAttrCommon

def empty : XAttrCommon := ⟨none, none, []⟩

instance : JsonForm XAttrCommon where
  toJson common := .record
    [("ModificationTime", .ofOption .text common.modificationTime),
      ("Size", .ofOption toJson common.size), ("BlockSizes", toJson common.blockSizes)]
  ofJson? j :=
    (do return ⟨← .optionalOrNone, ← .optionalOrNone, ← .withDefault []⟩ :
      FieldReader XAttrCommon).readFrom (j.slots? ["ModificationTime", "Size", "BlockSizes"])

end XAttrCommon

/-- The extended attributes of a file revision. -/
structure XAttr where
  common : XAttrCommon
  deriving DecidableEq

namespace XAttr

def empty : XAttr := ⟨.empty⟩

instance : JsonForm XAttr where
  toJson xattr := .record [("Common", toJson xattr.common)]
  ofJson? j :=
    (do return ⟨← .withDefault .empty⟩ : FieldReader XAttr).readFrom (j.slots? ["Common"])

end XAttr
end SealedDrive
