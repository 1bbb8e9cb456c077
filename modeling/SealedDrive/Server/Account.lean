import SealedDrive.Server.State
import SealedDrive.Store.Credentials

/-!
Building an encrypted account. Every key, share and link is sealed the way a client has to unwrap
it, so a session against the drive goes through the whole chain of keys. Keyrings are derived from
labels, names are numbered, and times count up from a fixed instant.
-/

namespace SealedDrive

/-- An account under construction: the drive that serves it and the keys behind its records. -/
structure Account where
  server : Server
  keyPass : KeyPass
  userKey : Keyring
  /-- Signing keyrings by email, those of strangers too. -/
  signers : List (String × Keyring) := []
  /-- Keyrings of the active addresses, by address id. -/
  addressKeys : List (String × Keyring) := []
  /-- Emails of the share owners, by share id. -/
  owners : List (String × String) := []
  /-- Node keyrings by link id. -/
  nodeKeys : List (String × Keyring) := []
  /-- How many names were given out. Like that of the sessions the number has no end. -/
  named : Nat := 0

/-- What a link to be added is like. -/
structure LinkSpec where
  name : String
  linkType : LinkType
  size : Int64
  state : LinkState := .active
  /-- Signs the node key; the owner of the share when absent. -/
  signer : Option String := none
  /-- Signs the name; whoever signs the node key when absent. -/
  nameSigner : Option String := none
  mimeType : String
  xattr : Option String := none

namespace LinkSpec

def folder (name : String) : LinkSpec :=
  { name, linkType := .folder, size := 0, mimeType := "Folder" }

def file (name : String) (size : Int64) : LinkSpec :=
  { name, linkType := .file, size, mimeType := "application/octet-stream" }

end LinkSpec

namespace Account

/-- The instant that all times are counted from, in seconds. -/
def baseTime : Int64 := 1700000000

def userKeyId : String := "user-key-1"

/-- A fresh name. -/
def freshName (account : Account) (kind : String) : String × Account :=
  (kind ++ "-" ++ toString (account.named + 1), { account with named := account.named + 1 })

def changeServer (account : Account) (f : Server → Server) : Account :=
  { account with server := f account.server }

/-- The keyring that signs for an email. -/
def signer (account : Account) (email : String) : Keyring :=
  (account.signers.lookup email).getD (.ofSeed ("unknown/" ++ email))

/-! ## Addresses -/

/-- Add an address; without an active key no keyring is unlocked for it. -/
def pushAddress (account : Account) (email : String) (active : Bool) : String × Account :=
  let (id, account) := account.freshName "address"
  let key := Keyring.ofSeed ("address/" ++ email)
  let order := account.server.addresses.length + 1
  let address : Address :=
    { id, email
      addressType := if order = 1 then AddressType.primary else AddressType.secondary
      status := if active then AddressStatus.enabled else AddressStatus.disabled
      order := UInt32.ofNat order
      keys := [{
        id := id ++ "-key"
        privateKey := ""
        token := some (account.userKey.sealMessage key.bytes account.userKey)
        signature := none
        primary := true
        active }] }
  let account := account.changeServer fun s => { s with addresses := s.addresses ++ [address] }
  (id, { account with
    signers := setEntry email key account.signers
    addressKeys :=
      if active then setEntry id key account.addressKeys else account.addressKeys })

def addAddress (account : Account) (email : String) : String × Account :=
  account.pushAddress email true

def addInactiveAddress (account : Account) (email : String) : String × Account :=
  account.pushAddress email false

/-- Add a signer that the account knows nothing about. -/
def addForeignSigner (account : Account) (email : String) : Account :=
  { account with
    signers := setEntry email (.ofSeed ("foreign/" ++ email)) account.signers }

def primaryEmail (account : Account) : String :=
  (account.server.addresses.head?.map (·.email)).getD ""

def addressId? (account : Account) (email : String) : Option String :=
  (account.server.addresses.find? (·.email = email)).map (·.id)

/-- An account whose keys the mailbox password unlocks, or the login password when there is none.
Its first address is named after the user. -/
def create (username password : String) (mailboxPassword twoFactorCode : Option String) :
    Account :=
  let salt := Bytes.ofText (username ++ "-salt")
  let keyPassword := mailboxPassword.getD password
  let keyPass := Keyring.salt (Bytes.ofText keyPassword) salt
  let passKey :=
    match Keyring.ofKeyPass keyPass with
    | .ok ring => ring
    | .error _ => .ofSeed keyPassword
  let userKey := Keyring.ofSeed (username ++ "/user")
  let user : User :=
    { id := "user-" ++ username
      name := username
      displayName := username
      email := username
      keys := [⟨userKeyId, passKey.sealMessage userKey.bytes passKey, true⟩]
      usedSpace := 0
      maxSpace := 5 * 1024 * 1024 * 1024 }
  let server : Server :=
    { username, password
      passwordMode := if mailboxPassword.isSome then .two else .one
      twoFactorCode, user
      salts := [⟨userKeyId, some (Base64.encode salt)⟩] }
  let email := if username.toList.contains '@' then username else username ++ "@example.com"
  (({ server, keyPass, userKey } : Account).addAddress email).2

/-! ## Volumes, shares and links -/

def addVolume (account : Account) : String × Account :=
  let (id, account) := account.freshName "volume"
  let volume : VolumeRecord := ⟨id, VolumeState.active, 0, none, ""⟩
  (id, account.changeServer fun s => { s with volumes := s.volumes ++ [volume] })

/-- The record of a link below a parent with the given keyring. -/
def buildLink (account : Account) (shareId linkId : String) (parentLinkId : Option String)
    (parentKey : Keyring) (spec : LinkSpec) : LinkRecord × Account :=
  let signerEmail := spec.signer.getD ((account.owners.lookup shareId).getD "")
  let nameSignerEmail := spec.nameSigner.getD signerEmail
  let signer := account.signer signerEmail
  let nameSigner := account.signer nameSignerEmail
  let nodeKey := Keyring.ofSeed ("node/" ++ linkId)
  let createTime := baseTime + Int64.ofNat account.named
  let fileProperties : Option FileProperties :=
    match spec.linkType with
    | .folder => none
    | .file =>
      let contentKey := Keyring.ofSeed ("content/" ++ linkId)
      some
        { contentKey := contentKey.wrap nodeKey signer
          activeRevision :=
            { id := linkId ++ "-revision"
              size := spec.size
              createTime := createTime + 60
              signatureEmail := signerEmail
              xattr := spec.xattr.map fun text =>
                contentKey.sealMessage (Bytes.ofText text) signer } }
  let record : LinkRecord :=
    { linkId, parentLinkId
      linkType := spec.linkType
      name := parentKey.sealMessage (Bytes.ofText spec.name) nameSigner
      nameSignatureEmail := nameSignerEmail
      signatureEmail := signerEmail
      nodeKey := nodeKey.wrap parentKey signer
      state := spec.state
      mimeType := spec.mimeType
      size := 0
      createTime
      modifyTime := createTime
      expirationTime := 0
      fileProperties }
  (record, { account with nodeKeys := setEntry linkId nodeKey account.nodeKeys })

/-- Put a link at the end of a share's links. -/
def pushLink (account : Account) (shareId : String) (link : LinkRecord) : Account :=
  account.changeServer fun s =>
    { s with links :=
        setEntry shareId ((s.links.lookup shareId).getD [] ++ [link]) s.links }

/-- Whether a new share becomes the main share of a volume: the first volume of that id has none. -/
def wantsMainShare (volumes : List VolumeRecord) (volumeId : String) : Bool :=
  match volumes.find? (·.volumeId = volumeId) with
  | some volume => volume.shareId.isEmpty
  | none => false

/-- Change the first entry that a test picks. -/
def changeFirst {α : Type} (test : α → Bool) (f : α → α) : List α → List α
  | [] => []
  | a :: rest => if test a then f a :: rest else a :: changeFirst test f rest

/-- Add a share owned by an email, with its root folder. The first share of a volume is its main
share. Answers the ids of the share and of its root. -/
def addShare (account : Account) (volumeId email rootName : String) :
    (String × String) × Account :=
  let (shareId, account) := account.freshName "share"
  let (rootId, account) := account.freshName "link"
  let shareKey := Keyring.ofSeed ("share/" ++ shareId)
  let addressKey := account.signer email
  let main := wantsMainShare account.server.volumes volumeId
  let record : ShareRecord :=
    { metadata :=
        { shareId
          linkId := rootId
          volumeId
          shareType := if main then ShareType.main else ShareType.standard
          state := ShareState.active
          creator := email
          flags := if main then ShareFlags.primary else ShareFlags.none
          locked := false }
      addressId := (account.addressId? email).getD ""
      key := shareKey.wrap addressKey addressKey }
  let account := account.changeServer fun s =>
    { s with
      volumes :=
        if main then changeFirst (·.volumeId = volumeId) ({ · with shareId }) s.volumes
        else s.volumes
      shares := s.shares ++ [record]
      links := setEntry shareId [] s.links }
  let account := { account with owners := setEntry shareId email account.owners }
  let (root, account) := account.buildLink shareId rootId none shareKey
    { LinkSpec.folder rootName with signer := some email }
  ((shareId, rootId), account.pushLink shareId root)

/-- Add a link under a parent. -/
def addLink (account : Account) (shareId parentLinkId : String) (spec : LinkSpec) :
    String × Account :=
  let (linkId, account) := account.freshName "link"
  let parentKey :=
    (account.nodeKeys.lookup parentLinkId).getD (.ofSeed ("missing/" ++ parentLinkId))
  let (link, account) := account.buildLink shareId linkId (some parentLinkId) parentKey spec
  (linkId, account.pushLink shareId link)

/-! ## Later changes -/

/-- Change the first link with an id. -/
def changeLink (account : Account) (linkId : String) (f : LinkRecord → LinkRecord) : Account :=
  let holds (entry : String × List LinkRecord) : Bool := entry.2.any (·.linkId = linkId)
  let change (entry : String × List LinkRecord) : String × List LinkRecord :=
    (entry.1, changeFirst (·.linkId = linkId) f entry.2)
  account.changeServer fun s => { s with links := changeFirst holds change s.links }

/-- Seal a link's name under a key that has nothing to do with it. -/
def corruptName (account : Account) (linkId : String) : Account :=
  let garbage := Keyring.ofSeed "corrupt"
  account.changeLink linkId fun link =>
    { link with name := garbage.sealMessage (Bytes.ofText "corrupt") garbage }

def trash (account : Account) (linkId : String) : Account :=
  account.changeLink linkId ({ · with state := .trashed })

def deleteShare (account : Account) (shareId : String) : Account :=
  let delete (share : ShareRecord) : ShareRecord :=
    { share with metadata.state := ShareState.deleted }
  account.changeServer fun s =>
    { s with shares := changeFirst (·.metadata.shareId = shareId) delete s.shares }

/-! ## Sessions without a login -/

def issueTokens (account : Account) : Tokens × Account :=
  let (tokens, server) := account.server.issueSession
  (tokens, { account with server })

/-- Credentials of a fresh server session. -/
def credentials (account : Account) : Credentials × Account :=
  let (tokens, account) := account.issueTokens
  (.ofKeyPass tokens account.keyPass, account)

end Account
end SealedDrive
