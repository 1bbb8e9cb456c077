import SealedDrive.Drive.Arena
import SealedDrive.Drive.Path
import SealedDrive.Json.Octets

/-!
Shares and links. A share is the root of one encrypted tree; a link is a file or a folder of it,
held as its handle and the node it stood for when it was handed out.
-/

namespace SealedDrive

structure Share where
  session : Session
  record : ShareRecord
  /-- Derived from the owning address; opens the root. -/
  keyring : Keyring
  deriving DecidableEq

/-- A share together with what is known of its tree. -/
structure OpenShare where
  share : Share
  arena : Arena
  deriving DecidableEq

structure Link where
  handle : Nat
  node : Node
  deriving DecidableEq

namespace Arena

def linkAt (arena : Arena) (handle : Nat) : Link := ⟨handle, arena.nodeAt handle⟩

def rootLink (arena : Arena) : Link := arena.linkAt 0

end Arena

namespace Share

def id (share : Share) : String := share.record.metadata.shareId

def volumeId (share : Share) : String := share.record.metadata.volumeId

/-- The keyring of the address that owns a share. -/
def ownerKeyring (session : Session) (shareId : String) (record : ShareRecord) :
    Except DriveError Keyring :=
  match session.addressKeyring? record.addressId with
  | some ring => .ok ring
  | none => .error (.keyNotFound
      ("share " ++ shareId ++ " belongs to address " ++ record.addressId))

/-- Ask for a share, derive its keyring and decrypt its root. -/
def load {σ : Type} (session : Session) (shareId : String) :
    ExceptT DriveError (Dialogue σ) OpenShare := do
  let record : ShareRecord ← Dialogue.fetch .api (.getShare shareId)
  let owner ← ExceptT.mk <| pure <| ownerKeyring session shareId record
  let keyring ← ExceptT.mk <| pure <| (Keyring.derive record.key owner owner).mapError .crypto
  let root : LinkRecord ← Dialogue.fetch .api (.getLink shareId record.metadata.linkId)
  if root.linkId ≠ record.metadata.linkId then
    throw (.unexpectedRoot record.metadata.linkId shareId root.linkId)
  let node ← ExceptT.mk <| pure <| Node.derive session none keyring root
  return ⟨⟨session, record, keyring⟩, .ofRoot node⟩

/-- Decrypt a record as a child of a link and add it to the arena. The record has to name the
link as its parent. -/
def materialize (share : Share) (parent : Link) (record : LinkRecord) (arena : Arena) :
    Except DriveError Link × Arena :=
  if record.parentLinkId ≠ some parent.node.id then
    (.error (.parentMismatch record.linkId (some parent.node.id)), arena)
  else
    match Node.derive share.session (some parent.handle) parent.node.nodeKeyring record with
    | .error error => (.error error, arena)
    | .ok node =>
      let (handle, arena) := arena.insert node
      (.ok ⟨handle, node⟩, arena)

/-- Materialize a record inside a dialogue. -/
def adopt (share : Share) (parent : Link) (record : LinkRecord) :
    ExceptT DriveError (Dialogue Arena) Link :=
  ExceptT.mk (Dialogue.update (share.materialize parent record))

/-- What the arena is now. -/
def arenaNow : ExceptT DriveError (Dialogue Arena) Arena :=
  ExceptT.mk (.read fun arena => .done (.ok arena))

/-- Open a link by id. A link that is known is answered as it is; of any other the parent has to be
known. -/
def openLink (share : Share) (linkId : String) :
    ExceptT DriveError (Dialogue Arena) Link := do
  let arena ← arenaNow
  match arena.find? linkId with
  | some handle => return arena.linkAt handle
  | none =>
    let record : LinkRecord ← Dialogue.fetch .api (.getLink share.id linkId)
    let arena ← arenaNow
    match record.parentLinkId.bind arena.find? with
    | some handle => share.adopt (arena.linkAt handle) record
    | none => throw (.parentMismatch record.linkId record.parentLinkId)

def shown (share : Share) (arena : Arena) : String :=
  Text.shownRecord "Share" [("share_id", Text.quoted share.id),
    ("volume_id", Text.quoted share.volumeId), ("links", toString arena.size)]

end Share

namespace Link

def id (link : Link) : String := link.node.id

def name (link : Link) : String := link.node.name

def isFolder (link : Link) : Bool := link.node.isFolder

def isRoot (link : Link) : Bool := link.node.parent.isNone

def shown (link : Link) : String :=
  Text.shownRecord "Link" [("link_id", Text.quoted link.id), ("name", Text.quoted link.name),
    ("type", link.node.record.linkType.shown), ("state", link.node.record.state.shown)]

/-- The parent as the arena knows it now; absent for the root. -/
def parent? (link : Link) (arena : Arena) : Option Link := link.node.parent.map arena.linkAt

/-- The names from the root down to the link. -/
def path (link : Link) (arena : Arena) : String :=
  Path.join (link.node :: arena.climb arena.size link.node.parent |>.map (·.name)).reverse

/-- Ask for the children of a folder and decrypt them in order. The first child that cannot be
decrypted fails the whole listing. -/
def children (link : Link) (share : Share) (all : Bool) :
    ExceptT DriveError (Dialogue Arena) (List Link) := do
  if !link.isFolder then
    throw (.notAFolder (link.path (← Share.arenaNow)))
  let records : List LinkRecord ← Dialogue.fetch .api (.listChildren share.id link.id all)
  records.mapM (share.adopt link)

/-- The extended attributes of the active revision; absent when it carries none, and when the record
has no file properties, whatever its type. -/
def extendedAttributes (link : Link) (session : Session) : Except DriveError (Option XAttr) :=
  match link.node.record.fileProperties with
  | none => .ok none
  | some properties =>
    match properties.activeRevision.xattr with
    | none => .ok none
    | some message => do
      let verifier ← session.signerKeyring properties.activeRevision.signatureEmail
      let octets ← (link.node.contentKeyring.openMessage message verifier).mapError .crypto
      match (Json.ofBytes? octets).bind ofJson? with
      | some xattr => return some xattr
      | none => .error (.malformedAttributes link.id)

end Link
end SealedDrive
