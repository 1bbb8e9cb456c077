import SealedDrive.Session.Basic

/-!
The links of one share that were decrypted so far. A node is a link whose keys and name were all
derived; a record that fails any step never becomes one. Nodes are kept in an arena under handles:
a node that comes again replaces the old one under its handle, so a handle stays good for the life
of the share.
-/

namespace SealedDrive

/-- A link whose keys and name are known. -/
structure Node where
  /-- The handle of the parent; absent for the root. -/
  parent : Option Nat
  record : LinkRecord
  name : String
  /-- For files, the size of the active revision. -/
  size : Int64
  /-- For files, the time of the active revision. -/
  modifyTime : Int64
  /-- Opens the children. -/
  nodeKeyring : Keyring
  /-- Opens the content. -/
  contentKeyring : Keyring
  deriving DecidableEq

namespace Node

def id (node : Node) : String := node.record.linkId

def isFolder (node : Node) : Bool := node.record.linkType = .folder

/-- The content keyring, the size and the time of a link. -/
def contents (record : LinkRecord) (nodeKeyring signer : Keyring) :
    Except DriveError (Keyring × Int64 × Int64) :=
  match record.linkType with
  | .folder => .ok (nodeKeyring, record.size, record.modifyTime)
  | .file =>
    match record.fileProperties with
    | none => .error (.noFileProperties record.linkId)
    | some properties => do
      let content ← (Keyring.derive properties.contentKey nodeKeyring signer).mapError .crypto
      return (content, properties.activeRevision.size, properties.activeRevision.createTime)

/-- Derive the keys of a link and decrypt its name, given the keyring it is sealed to. -/
def derive (session : Session) (parent : Option Nat) (parentKeyring : Keyring)
    (record : LinkRecord) : Except DriveError Node := do
  let signer ← session.signerKeyring record.signatureEmail
  let nodeKeyring ← (Keyring.derive record.nodeKey parentKeyring signer).mapError .crypto
  let nameSigner ← session.signerKeyring record.nameSignatureEmail
  let octets ← (parentKeyring.openMessage record.name nameSigner).mapError .crypto
  let name ←
    match Bytes.text? octets with
    | some name => .ok name
    | none => .error (.crypto (.decrypt ("name of link " ++ record.linkId ++ " is not utf-8")))
  let (contentKeyring, size, modifyTime) ← contents record nodeKeyring signer
  return { parent, record, name, size, modifyTime, nodeKeyring, contentKeyring }

end Node

/-- The nodes of a share, the root first, and their handles by link id. -/
structure Arena where
  root : Node
  rest : List Node
  byId : List (String × Nat)
  deriving DecidableEq

namespace Arena

def nodes (arena : Arena) : List Node := arena.root :: arena.rest

/-- How many links are known, the root among them. -/
def size (arena : Arena) : Nat := arena.nodes.length

/-- An arena that knows the root only. -/
def ofRoot (root : Node) : Arena := ⟨root, [], [(root.id, 0)]⟩

/-- The node under a handle; a handle that was never given out stands for the root. -/
def nodeAt (arena : Arena) (handle : Nat) : Node := arena.nodes.getD handle arena.root

def find? (arena : Arena) (linkId : String) : Option Nat := arena.byId.lookup linkId

/-- Put a node under a handle in use. -/
def replace (arena : Arena) (handle : Nat) (node : Node) : Arena :=
  match handle with
  | 0 => { arena with root := node }
  | i + 1 => { arena with rest := arena.rest.set i node }

/-- Add a node, or replace the one with the same id. -/
def insert (arena : Arena) (node : Node) : Nat × Arena :=
  match arena.find? node.id with
  | some handle => (handle, arena.replace handle node)
  | none =>
    let handle := arena.size
    (handle, { arena with
      rest := arena.rest ++ [node]
      byId := arena.byId ++ [(node.id, handle)] })

/-- The nodes from a handle upwards to the root, as far as `steps` reaches. -/
def climb (arena : Arena) : Nat → Option Nat → List Node
  | 0, _ => []
  | _, none => []
  | steps + 1, some handle =>
    let node := arena.nodeAt handle
    node :: arena.climb steps node.parent

/-- Whether the way up from a handle comes to an end within `steps`. -/
def climbEnds (arena : Arena) : Nat → Option Nat → Bool
  | _, none => true
  | 0, some _ => false
  | steps + 1, some handle => arena.climbEnds steps (arena.nodeAt handle).parent

end Arena
end SealedDrive
