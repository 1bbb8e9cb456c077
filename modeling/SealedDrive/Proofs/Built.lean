import Mathlib.Data.List.Forall2
import SealedDrive.Proofs.Derivation
import SealedDrive.Proofs.Files
import SealedDrive.Proofs.Plan
import SealedDrive.Proofs.Sealing

/-!
An account follows its plan. Every call of a builder seals what the plan adds, under keyrings that
follow from the ids and emails alone, and it signs with the keyring of an address that a session of
the account will unlock.
-/

namespace SealedDrive

/-! ## Keyrings by label -/

namespace Keyring

def ofAddress (email : String) : Keyring := .ofSeed ("address/" ++ email)

def ofShare (shareId : String) : Keyring := .ofSeed ("share/" ++ shareId)

def ofNode (linkId : String) : Keyring := .ofSeed ("node/" ++ linkId)

def ofContent (linkId : String) : Keyring := .ofSeed ("content/" ++ linkId)

end Keyring

/-! ## Records -/

namespace Entry

/-- What a link is sealed to. -/
def parentKeyring (entry : Entry) : Keyring :=
  match entry.parent with
  | none => .ofShare entry.shareId
  | some parentId => .ofNode parentId

def contentKeyring (entry : Entry) : Keyring :=
  match entry.linkType with
  | .folder => .ofNode entry.linkId
  | .file => .ofContent entry.linkId

/-- The record is that of the entry, signed by some of the emails. -/
structure Describes (emails : List String) (entry : Entry) (record : LinkRecord) : Prop where
  linkId : record.linkId = entry.linkId
  parent : record.parentLinkId = entry.parent
  linkType : record.linkType = entry.linkType
  state : record.state = entry.state
  signed : record.signatureEmail ∈ emails
  nameSigned : record.nameSignatureEmail ∈ emails
  fits : Plan.FitName entry.name
  name : record.name = entry.parentKeyring.sealMessage (Bytes.ofText entry.name)
    (.ofAddress record.nameSignatureEmail)
  nodeKey : record.nodeKey =
    (Keyring.ofNode entry.linkId).wrap entry.parentKeyring (.ofAddress record.signatureEmail)
  folder : entry.linkType = .folder → record.size = entry.size
  file : entry.linkType = .file → ∃ properties, record.fileProperties = some properties ∧
    properties.contentKey = (Keyring.ofContent entry.linkId).wrap (.ofNode entry.linkId)
      (.ofAddress record.signatureEmail) ∧
    properties.activeRevision.size = entry.size

/-- A node with all that the entry says. -/
structure Shows (entry : Entry) (node : Node) : Prop where
  linkId : node.id = entry.linkId
  name : node.name = entry.name
  linkType : node.record.linkType = entry.linkType
  state : node.record.state = entry.state
  nodeKeyring : node.nodeKeyring = .ofNode entry.linkId
  contentKeyring : node.contentKeyring = entry.contentKeyring
  size : node.size = entry.size

variable {emails : List String} {entry : Entry} {record : LinkRecord}

/-- A session that knows the signers opens the record, and finds what the entry says. -/
theorem Describes.derive {session : Session}
    (hs : ∀ email ∈ emails, session.signerKeyring email = .ok (.ofAddress email))
    (h : entry.Describes emails record) (parent : Option Nat) :
    ∃ node, Node.derive session parent entry.parentKeyring record = .ok node ∧
      node.parent = parent ∧ node.record = record ∧ entry.Shows node := by
  have hnode : Keyring.derive record.nodeKey entry.parentKeyring
      (.ofAddress record.signatureEmail) = .ok (.ofNode entry.linkId) := by
    rw [h.nodeKey]
    exact Keyring.derive_wrap _ _ _
  have hcontent : Node.ContentOf record (.ofNode entry.linkId)
      (.ofAddress record.signatureEmail) entry.contentKeyring := by
    simp only [Node.ContentOf, contentKeyring, h.linkType]
    cases ht : entry.linkType with
    | folder => rfl
    | file =>
      obtain ⟨properties, hp, hk, -⟩ := h.file ht
      refine ⟨properties, hp, ?_⟩
      rw [hk]
      exact Keyring.derive_wrap _ _ _
  have hsize : (Node.measures record).1 = entry.size := by
    simp only [Node.measures, h.linkType]
    cases ht : entry.linkType with
    | folder => exact h.folder ht
    | file =>
      obtain ⟨properties, hp, -, hsize⟩ := h.file ht
      rw [hp]
      exact hsize
  have hname : entry.parentKeyring.openMessage record.name
      (.ofAddress record.nameSignatureEmail) = .ok (Bytes.ofText entry.name) := by
    rw [h.name]
    exact Keyring.openMessage_sealMessage h.fits
  refine ⟨⟨parent, record, entry.name, (Node.measures record).1, (Node.measures record).2,
    .ofNode entry.linkId, entry.contentKeyring⟩, Node.derive_eq_ok_iff.mpr ?_, rfl, rfl,
    h.linkId, rfl, h.linkType, h.state, rfl, rfl, hsize⟩
  exact ⟨rfl, rfl, rfl, ⟨_, hs _ h.signed, hnode, hcontent⟩,
    ⟨_, _, hs _ h.nameSigned, hname, Bytes.text?_ofText _⟩⟩

theorem Describes.mono (h : entry.Describes emails record) {more : List String}
    (hm : emails ⊆ more) : entry.Describes more record :=
  { h with signed := hm h.signed, nameSigned := hm h.nameSigned }

end Entry

/-! ## Accounts -/

@[simp]
theorem lookup_setEntry {α : Type} (key key' : String) (value : α) (entries : List (String × α)) :
    (setEntry key value entries).lookup key' =
      if key' = key then some value else entries.lookup key' := by
  induction entries with
  | nil => exact Arena.lookup_single key key' value
  | cons entry rest ih =>
    obtain ⟨k, v⟩ := entry
    unfold setEntry
    by_cases hk : k = key
    · rw [if_pos hk]
      by_cases hk' : key' = key
      · simp [hk']
      · have hne : key' ≠ k := fun he => hk' (he.trans hk)
        simp [hk', hne, List.lookup_cons, beq_false_of_ne]
    · rw [if_neg hk, List.lookup_cons, List.lookup_cons, ih]
      by_cases hk' : key' = key
      · have hne : key' ≠ k := fun he => hk (he.symm.trans hk')
        rw [beq_false_of_ne hne, if_pos hk']
      · rw [if_neg hk', if_neg hk']

theorem mem_keys_setEntry {α : Type} {key key' : String} {value : α}
    {entries : List (String × α)} (h : key' ∈ (setEntry key value entries).map (·.1)) :
    key' = key ∨ key' ∈ entries.map (·.1) := by
  induction entries with
  | nil => exact .inl (List.mem_singleton.mp h)
  | cons entry rest ih =>
    unfold setEntry at h
    split at h
    · rcases List.mem_cons.mp h with h | h
      · exact .inl h
      · exact .inr (List.mem_cons_of_mem _ h)
    · rcases List.mem_cons.mp h with h | h
      · exact .inr (h ▸ List.mem_cons_self)
      · exact (ih h).imp id (List.mem_cons_of_mem _)

theorem nodup_setEntry {α : Type} {key : String} {value : α} {entries : List (String × α)}
    (h : (entries.map (·.1)).Nodup) : ((setEntry key value entries).map (·.1)).Nodup := by
  induction entries with
  | nil => exact List.nodup_cons.mpr ⟨List.not_mem_nil, List.nodup_nil⟩
  | cons entry rest ih =>
    obtain ⟨hnot, hrest⟩ := List.nodup_cons.mp h
    unfold setEntry
    split
    · next he => exact List.nodup_cons.mpr ⟨he ▸ hnot, hrest⟩
    · next he =>
      refine List.nodup_cons.mpr ⟨fun hm => ?_, ih hrest⟩
      exact (mem_keys_setEntry hm).elim he hnot

theorem lookup_of_mem {α : Type} {entries : List (String × α)} (h : (entries.map (·.1)).Nodup)
    {pair : String × α} (hm : pair ∈ entries) : entries.lookup pair.1 = some pair.2 := by
  induction entries with
  | nil => cases hm
  | cons entry rest ih =>
    obtain ⟨hnot, hrest⟩ := List.nodup_cons.mp h
    rcases List.mem_cons.mp hm with rfl | hm
    · exact List.lookup_cons_self
    · have hkey : pair.1 ∈ rest.map (·.1) := List.mem_map_of_mem hm
      have hne : pair.1 ≠ entry.1 := fun he => absurd hkey (he.symm ▸ hnot)
      rw [List.lookup_cons, beq_false_of_ne hne]
      exact ih hrest hm

namespace Account

/-- The key pass opens the user key, and the two open all keys of the addresses. -/
def Unlocks (account : Account) : Prop :=
  ∃ passKey primary, Keyring.ofKeyPass account.keyPass = .ok passKey ∧
    account.server.user.primaryKey? = some primary ∧
    passKey.openKey primary.privateKey passKey = .ok account.userKey ∧
    Keyring.unlockAddresses passKey account.userKey [] account.server.addresses =
      .ok account.addressKeys

/-- The account holds what the plan says: it unlocks, its addresses are those that were registered,
and every share and link is sealed as its entry asks for. -/
structure Follows (plan : Plan) (account : Account) : Prop where
  named : account.named = plan.named
  unlocks : account.Unlocks
  registered : account.server.addresses.map (fun address =>
    (address.email, address.activeKey?.isSome)) = plan.registered
  addressIds : ∀ address ∈ account.server.addresses,
    ∃ n ≤ plan.named, address.id = Plan.label "address" n
  addressKeys : ∀ address ∈ account.server.addresses, address.activeKey?.isSome →
    account.addressKeys.lookup address.id = some (.ofAddress address.email)
  signers : ∀ email ∈ plan.registered.map (·.1), email ∉ plan.foreign →
    account.signers.lookup email = some (.ofAddress email)
  owners : ∀ share ∈ plan.shares, account.owners.lookup share.id = some share.owner
  shares : ∀ share ∈ plan.shares, ∃ record,
    account.server.shares.find? (·.metadata.shareId = share.id) = some record ∧
      record.metadata.linkId = share.rootId ∧
      account.addressId? share.owner = some record.addressId ∧
      record.key = (Keyring.ofShare share.id).wrap (.ofAddress share.owner)
        (.ofAddress share.owner)
  shareIds : ∀ record ∈ account.server.shares,
    ∃ n ≤ plan.named, record.metadata.shareId = Plan.label "share" n
  links : ∀ share ∈ plan.shares, ∃ records, account.server.links.lookup share.id = some records ∧
    List.Forall₂ (Entry.Describes plan.used)
      (plan.entries.filter (·.shareId = share.id)) records
  linkKeys : (account.server.links.map (·.1)).Nodup
  linkShares : ∀ id ∈ account.server.links.map (·.1), ∃ share ∈ plan.shares, share.id = id
  nodeKeys : ∀ entry ∈ plan.entries,
    account.nodeKeys.lookup entry.linkId = some (.ofNode entry.linkId)
  available : account.server.failingShares = []

variable {plan : Plan} {account : Account}

/-- The one address of an email that is owned, and its keyring. -/
theorem Follows.address (hf : account.Follows plan) {email : String} (h : plan.Owns email) :
    ∃ address, account.server.addresses.filter (·.email = email) = [address] ∧
      address.email = email ∧ account.addressKeys.lookup address.id = some (.ofAddress email) := by
  have hfilter := h.1
  rw [← hf.registered, List.filter_map] at hfilter
  obtain ⟨address, hlist, hpair⟩ := List.map_eq_singleton_iff.mp hfilter
  have hone : account.server.addresses.filter (·.email = email) = [address] := hlist
  obtain ⟨hm, -⟩ := List.mem_filter.mp (hone ▸ List.mem_singleton_self address :
    address ∈ account.server.addresses.filter (·.email = email))
  obtain ⟨he, ha⟩ := Prod.mk.inj hpair
  exact ⟨address, hone, he, he ▸ hf.addressKeys address hm ha⟩

theorem find?_of_filter {α : Type} {p : α → Bool} {l : List α} {a : α} (h : l.filter p = [a]) :
    l.find? p = some a ∧ l.reverse.find? p = some a := by
  rw [← List.head?_filter, ← List.head?_filter, List.filter_reverse, h]
  exact ⟨rfl, rfl⟩

theorem Follows.addressId? (hf : account.Follows plan) {email : String} (h : plan.Owns email) :
    ∃ id, account.addressId? email = some id ∧
      account.addressKeys.lookup id = some (.ofAddress email) := by
  obtain ⟨address, hone, -, hk⟩ := hf.address h
  refine ⟨address.id, ?_, hk⟩
  unfold Account.addressId?
  rw [(find?_of_filter hone).1]
  rfl

theorem Follows.signer (hf : account.Follows plan) {email : String} (h : plan.Owns email) :
    account.signer email = .ofAddress email := by
  have hm : email ∈ plan.registered.map (·.1) := by
    have hmem : (email, true) ∈ plan.registered.filter (·.1 = email) :=
      h.1 ▸ List.mem_singleton_self _
    exact List.mem_map_of_mem (List.mem_filter.mp hmem).1
  unfold Account.signer
  rw [hf.signers email hm h.2]
  rfl

/-! ### Addresses -/

/-- The address that is added next. -/
def nextAddress (account : Account) (email : String) (active : Bool) : Address :=
  let id := Plan.label "address" (account.named + 1)
  let order := account.server.addresses.length + 1
  { id, email
    addressType := if order = 1 then AddressType.primary else AddressType.secondary
    status := if active then AddressStatus.enabled else AddressStatus.disabled
    order := UInt32.ofNat order
    keys := [{
      id := id ++ "-key"
      privateKey := ""
      token := some (account.userKey.sealMessage (Keyring.ofAddress email).bytes account.userKey)
      signature := none
      primary := true
      active }] }

theorem pushAddress_eq (account : Account) (email : String) (active : Bool) :
    (account.pushAddress email active).2 =
      { account with
        named := account.named + 1
        server := { account.server with
          addresses := account.server.addresses ++ [account.nextAddress email active] }
        signers := setEntry email (.ofAddress email) account.signers
        addressKeys :=
          if active then
            setEntry (account.nextAddress email active).id (.ofAddress email) account.addressKeys
          else account.addressKeys } := rfl

theorem activeKey?_nextAddress (account : Account) (email : String) (active : Bool) :
    (account.nextAddress email active).activeKey? =
      if active then (account.nextAddress email active).keys.head? else none := by
  cases active <;> rfl

theorem unlockAddresses_append (passKey user : Keyring) (rings : List (String × Keyring))
    (addresses : List Address) (last : Address) :
    Keyring.unlockAddresses passKey user rings (addresses ++ [last]) =
      (Keyring.unlockAddresses passKey user rings addresses >>= fun rings =>
        Keyring.unlockAddresses passKey user rings [last]) := by
  induction addresses generalizing rings with
  | nil => rfl
  | cons address rest ih =>
    rw [List.cons_append, Keyring.unlockAddresses, Keyring.unlockAddresses]
    cases address.activeKey? with
    | none => exact ih rings
    | some key =>
      cases hk : Keyring.unlockAddressKey passKey user key with
      | error error => simp only [hk]; rfl
      | ok ring => simp only [hk]; exact ih _

/-- The address that is added unlocks to the keyring that signs for it. -/
theorem unlockAddresses_nextAddress (account : Account) (passKey : Keyring) (email : String)
    (active : Bool) (rings : List (String × Keyring)) :
    Keyring.unlockAddresses passKey account.userKey rings [account.nextAddress email active] =
      .ok (if active then
        setEntry (account.nextAddress email active).id (.ofAddress email) rings else rings) := by
  unfold Keyring.unlockAddresses
  rw [activeKey?_nextAddress]
  cases active with
  | false => rfl
  | true =>
    have hk : Keyring.unlockAddressKey passKey account.userKey
        ⟨Plan.label "address" (account.named + 1) ++ "-key", "",
          some (account.userKey.sealMessage (Keyring.ofAddress email).bytes account.userKey), none,
          true, true⟩ = .ok (.ofAddress email) := by
      unfold Keyring.unlockAddressKey
      dsimp only
      rw [Keyring.openKey_sealMessage]
    simp only [nextAddress, List.head?_cons, if_true, hk]
    rfl

theorem Unlocks.pushAddress (hu : account.Unlocks) (email : String) (active : Bool) :
    (account.pushAddress email active).2.Unlocks := by
  obtain ⟨passKey, primary, hpass, hprimary, hopen, hrings⟩ := hu
  rw [pushAddress_eq]
  refine ⟨passKey, primary, hpass, hprimary, hopen, ?_⟩
  rw [unlockAddresses_append, hrings]
  exact unlockAddresses_nextAddress account passKey email active account.addressKeys

theorem Follows.pushAddress (hf : account.Follows plan) (email : String) (active : Bool) :
    (account.pushAddress email active).2.Follows
      { plan with
        named := plan.named + 1, registered := plan.registered ++ [(email, active)] } := by
  have hunlocks := hf.unlocks.pushAddress email active
  rw [pushAddress_eq] at hunlocks ⊢
  have hid : (account.nextAddress email active).id = Plan.label "address" (plan.named + 1) := by
    rw [← hf.named]
    rfl
  have hactive : (account.nextAddress email active).activeKey?.isSome = active := by
    rw [activeKey?_nextAddress]
    cases active <;> rfl
  refine { hf with
    named := congrArg (· + 1) hf.named, unlocks := hunlocks
    registered := ?_, addressIds := ?_, addressKeys := ?_, signers := ?_, shares := ?_
    shareIds := ?_ }
  · rw [List.map_append, hf.registered, List.map_singleton, hactive]
    rfl
  · intro address hm
    rcases List.mem_append.mp hm with hm | hm
    · exact Plan.label_mono (hf.addressIds address hm) (Nat.le_succ _)
    · rw [List.mem_singleton.mp hm]
      exact ⟨_, Nat.le_refl _, hid⟩
  · intro address hm ha
    rcases List.mem_append.mp hm with hold | hnew
    · have hne : address.id ≠ (account.nextAddress email active).id := by
        rw [hid]
        exact Plan.label_ne (hf.addressIds address hold) (Nat.lt_succ_self _)
      cases active with
      | false => exact hf.addressKeys address hold ha
      | true =>
        rw [if_pos rfl, lookup_setEntry, if_neg hne]
        exact hf.addressKeys address hold ha
    · rw [List.mem_singleton.mp hnew] at ha ⊢
      rw [hactive] at ha
      rw [if_pos ha, lookup_setEntry, if_pos rfl]
      rfl
  · intro other hm hforeign
    rw [lookup_setEntry]
    split
    · next he => rw [he]
    · next he =>
      refine hf.signers other ?_ hforeign
      rw [List.map_append, List.mem_append] at hm
      exact hm.resolve_right fun hm => he (List.mem_singleton.mp hm)
  · intro share hm
    obtain ⟨record, hr, hroot, hid, hkey⟩ := hf.shares share hm
    refine ⟨record, hr, hroot, ?_, hkey⟩
    obtain ⟨address, ha, he⟩ := Option.map_eq_some_iff.mp hid
    unfold Account.addressId?
    rw [List.find?_append, ha]
    exact congrArg some he
  · intro record hm
    exact Plan.label_mono (hf.shareIds record hm) (Nat.le_succ _)

/-! ### Links -/

theorem buildLink_snd (account : Account) (shareId linkId : String) (parentLinkId : Option String)
    (parentKey : Keyring) (spec : LinkSpec) :
    (account.buildLink shareId linkId parentLinkId parentKey spec).2 =
      { account with
        nodeKeys := setEntry linkId (.ofNode linkId) account.nodeKeys } := rfl

/-- The record of a link is sealed as its entry asks for, when those who sign it are known. -/
theorem describes_buildLink (account : Account) {emails : List String} {shareId linkId : String}
    {parentLinkId : Option String} {spec : LinkSpec} (hfit : Plan.FitName spec.name)
    (hsigner : spec.signer.getD ((account.owners.lookup shareId).getD "") ∈ emails)
    (hspec : ∀ email ∈ Plan.signersOf spec, email ∈ emails)
    (hs : ∀ email ∈ emails, account.signer email = .ofAddress email) :
    (Entry.ofSpec shareId linkId parentLinkId spec).Describes emails
      (account.buildLink shareId linkId parentLinkId
        (Entry.ofSpec shareId linkId parentLinkId spec).parentKeyring spec).1 := by
  have hname : spec.nameSigner.getD
      (spec.signer.getD ((account.owners.lookup shareId).getD "")) ∈ emails := by
    cases hn : spec.nameSigner with
    | none => exact hsigner
    | some email => exact hspec email (by simp [Plan.signersOf, hn])
  refine ⟨rfl, rfl, rfl, rfl, hsigner, hname, hfit, ?_, ?_, ?_, ?_⟩
  · simp only [buildLink, hs _ hname]
    rfl
  · simp only [buildLink, hs _ hsigner]
    rfl
  · intro ht
    have ht : spec.linkType = .folder := ht
    simp only [buildLink, Entry.ofSpec, ht]
  · intro ht
    have ht : spec.linkType = .file := ht
    simp only [buildLink, Entry.ofSpec, ht, hs _ hsigner]
    exact ⟨_, rfl, rfl, rfl⟩

/-- The records of a share when a link is added to it. -/
theorem describes_push {emails more : List String} (hm : emails ⊆ more) {shareId : String}
    {entries : List Entry} {records : List LinkRecord}
    (h : List.Forall₂ (Entry.Describes emails) (entries.filter (·.shareId = shareId)) records)
    {entry : Entry} {record : LinkRecord} (he : entry.shareId = shareId)
    (hd : entry.Describes more record) :
    List.Forall₂ (Entry.Describes more) ((entries ++ [entry]).filter (·.shareId = shareId))
      (records ++ [record]) := by
  have hlast : [entry].filter (·.shareId = shareId) = [entry] := by simp [he]
  rw [List.filter_append, hlast]
  exact List.rel_append (h.imp fun _ _ hd => hd.mono hm) (.cons hd .nil)

/-- The records of a share when a link is added to another. -/
theorem describes_other {emails more : List String} (hm : emails ⊆ more) {shareId : String}
    {entries : List Entry} {records : List LinkRecord}
    (h : List.Forall₂ (Entry.Describes emails) (entries.filter (·.shareId = shareId)) records)
    {entry : Entry} (he : entry.shareId ≠ shareId) :
    List.Forall₂ (Entry.Describes more) ((entries ++ [entry]).filter (·.shareId = shareId))
      records := by
  have hlast : [entry].filter (·.shareId = shareId) = [] := by simp [he]
  rw [List.filter_append, hlast, List.append_nil]
  exact h.imp fun _ _ hd => hd.mono hm

/-- The keyrings of the links when one is added under a new number. -/
theorem nodeKeys_push (hs : plan.Sound)
    (h : ∀ entry ∈ plan.entries,
      account.nodeKeys.lookup entry.linkId = some (.ofNode entry.linkId))
    {last : Entry} {n : Nat} (hn : plan.named < n) (hl : last.linkId = Plan.label "link" n) :
    ∀ entry ∈ plan.entries ++ [last],
      (setEntry last.linkId (.ofNode last.linkId) account.nodeKeys).lookup entry.linkId =
        some (.ofNode entry.linkId) := by
  intro entry hm
  rw [lookup_setEntry]
  rcases List.mem_append.mp hm with hm | hm
  · rw [if_neg ?_]
    · exact h entry hm
    · rw [hl]
      exact Plan.label_ne (hs.linkIds entry hm) hn
  · rw [List.mem_singleton.mp hm, if_pos rfl]

theorem addLink_eq (account : Account) (shareId parentLinkId : String) (spec : LinkSpec) :
    (account.addLink shareId parentLinkId spec).2 =
      let linkId := Plan.label "link" (account.named + 1)
      let record := (buildLink { account with named := account.named + 1 } shareId linkId
        (some parentLinkId) ((account.nodeKeys.lookup parentLinkId).getD
          (.ofSeed ("missing/" ++ parentLinkId))) spec).1
      { account with
        named := account.named + 1
        nodeKeys := setEntry linkId (.ofNode linkId) account.nodeKeys
        server := { account.server with
          links := setEntry shareId ((account.server.links.lookup shareId).getD [] ++ [record])
            account.server.links } } := rfl

theorem Follows.addLink (hf : account.Follows plan) (hs : plan.Sound)
    {shareId parentLinkId : String} {spec : LinkSpec}
    (h : plan.Permits (.link shareId parentLinkId spec)) :
    (account.addLink shareId parentLinkId spec).2.Follows
      (plan.step (.link shareId parentLinkId spec)) := by
  have howns := (hs.step h).used
  obtain ⟨hsigners, hfit, parent, hpm, hps, hpi, hpt⟩ := h
  obtain ⟨share, hsm, hsid⟩ := hs.shareOf parent hpm
  have hsid : share.id = shareId := hsid.trans hps
  have howner := hf.owners share hsm
  rw [hsid] at howner
  have hsub : plan.used ⊆ Plan.signersOf spec ++ plan.used := List.subset_append_right _ _
  have hnew : (plan.nextLink shareId parentLinkId spec).Describes
      (Plan.signersOf spec ++ plan.used) (buildLink { account with named := account.named + 1 }
        shareId (Plan.label "link" (account.named + 1)) (some parentLinkId)
        ((account.nodeKeys.lookup parentLinkId).getD
          (.ofSeed ("missing/" ++ parentLinkId))) spec).1 := by
    rw [← hpi, hf.nodeKeys parent hpm, hpi, hf.named]
    refine describes_buildLink { account with named := plan.named + 1 } hfit ?_
      (fun email hm => List.mem_append_left _ hm) fun email hm => hf.signer (howns email hm)
    cases hsig : spec.signer with
    | none =>
      rw [Option.getD_none, howner, Option.getD_some]
      exact hsub (hs.owner share hsm)
    | some email => exact List.mem_append_left _ (by simp [Plan.signersOf, hsig])
  rw [addLink_eq]
  refine { hf with
    named := congrArg (· + 1) hf.named, addressIds := ?_, shareIds := ?_, links := ?_
    linkKeys := nodup_setEntry hf.linkKeys, linkShares := ?_, nodeKeys := ?_ }
  · intro address hm
    exact Plan.label_mono (hf.addressIds address hm) (Nat.le_succ _)
  · intro record hm
    exact Plan.label_mono (hf.shareIds record hm) (Nat.le_succ _)
  · intro other hom
    obtain ⟨records, hlookup, hdesc⟩ := hf.links other hom
    rw [lookup_setEntry]
    by_cases he : other.id = shareId
    · rw [he] at hlookup hdesc ⊢
      rw [if_pos rfl, hlookup]
      exact ⟨_, rfl, describes_push hsub hdesc rfl hnew⟩
    · rw [if_neg he]
      exact ⟨records, hlookup, describes_other hsub hdesc (Ne.symm he)⟩
  · intro id hm
    rcases mem_keys_setEntry hm with rfl | hm
    · exact ⟨share, hsm, hsid⟩
    · exact hf.linkShares id hm
  · have hid : (plan.nextLink shareId parentLinkId spec).linkId =
        Plan.label "link" (plan.named + 1) := rfl
    rw [hf.named]
    exact nodeKeys_push hs hf.nodeKeys (Nat.lt_succ_self _) hid

/-! ### Shares -/

/-- The record of the share that is added next. -/
def nextShareRecord (account : Account) (volumeId email : String) : ShareRecord :=
  let shareId := Plan.label "share" (account.named + 1)
  let main := wantsMainShare account.server.volumes volumeId
  { metadata :=
      { shareId
        linkId := Plan.label "link" (account.named + 1 + 1)
        volumeId
        shareType := if main then ShareType.main else ShareType.standard
        state := ShareState.active
        creator := email
        flags := if main then ShareFlags.primary else ShareFlags.none
        locked := false }
    addressId := (account.addressId? email).getD ""
    key := (Keyring.ofShare shareId).wrap (account.signer email) (account.signer email) }

/-- The account with the next share, but without its root. -/
def withShare (account : Account) (volumeId email : String) : Account :=
  let shareId := Plan.label "share" (account.named + 1)
  { account with
    named := account.named + 1 + 1
    owners := setEntry shareId email account.owners
    server := { account.server with
      volumes :=
        if wantsMainShare account.server.volumes volumeId then
          changeFirst (·.volumeId = volumeId) ({ · with shareId }) account.server.volumes
        else account.server.volumes
      shares := account.server.shares ++ [account.nextShareRecord volumeId email]
      links := setEntry shareId [] account.server.links } }

theorem addShare_eq (account : Account) (volumeId email rootName : String) :
    (account.addShare volumeId email rootName).2 =
      let shareId := Plan.label "share" (account.named + 1)
      let rootId := Plan.label "link" (account.named + 1 + 1)
      let spec := { LinkSpec.folder rootName with signer := some email }
      let root := (account.withShare volumeId email).buildLink shareId rootId none
        (.ofShare shareId) spec
      root.2.pushLink shareId root.1 := rfl

/-- The root of the share that is added next, as its entry asks for. -/
theorem Follows.describes_root (hf : account.Follows plan) (hs : plan.Sound)
    {volumeId owner rootName : String} (h : plan.Permits (.share volumeId owner rootName)) :
    (plan.nextRoot rootName).Describes (owner :: plan.used)
      ((account.withShare volumeId owner).buildLink (Plan.label "share" (plan.named + 1))
        (Plan.label "link" (plan.named + 2)) none (.ofShare (Plan.label "share" (plan.named + 1)))
        { LinkSpec.folder rootName with signer := some owner }).1 := by
  have howns := (hs.step h).used
  have hspec : ∀ email ∈ [owner], email ∈ owner :: plan.used := fun email hm =>
    List.mem_singleton.mp hm ▸ List.mem_cons_self
  have hentry : plan.nextRoot rootName = .ofSpec (Plan.label "share" (plan.named + 1))
      (Plan.label "link" (plan.named + 2)) none
      { LinkSpec.folder rootName with signer := some owner } := rfl
  rw [hentry]
  exact describes_buildLink (account.withShare volumeId owner) h.2 List.mem_cons_self hspec
    fun email hm => hf.signer (howns email hm)

/-- The shares when one is added under a new number. -/
theorem Follows.shares_push (hf : account.Follows plan) {volumeId owner : String}
    (ho : plan.Owns owner) (share : PlannedShare)
    (hm : share ∈ plan.shares ++ [plan.nextShare owner]) :
    ∃ record, (account.withShare volumeId owner).server.shares.find?
        (·.metadata.shareId = share.id) = some record ∧
      record.metadata.linkId = share.rootId ∧
      account.addressId? share.owner = some record.addressId ∧
      record.key = (Keyring.ofShare share.id).wrap (.ofAddress share.owner)
        (.ofAddress share.owner) := by
  rcases List.mem_append.mp hm with hm | hm
  · obtain ⟨record, hr, hrest⟩ := hf.shares share hm
    refine ⟨record, ?_, hrest⟩
    show (account.server.shares ++ [_]).find? _ = _
    rw [List.find?_append, hr]
    rfl
  · rw [List.mem_singleton.mp hm]
    obtain ⟨id, hid, -⟩ := hf.addressId? ho
    refine ⟨account.nextShareRecord volumeId owner, ?_, ?_, ?_, ?_⟩
    · show (account.server.shares ++ [_]).find? _ = _
      have hnone : account.server.shares.find?
          (·.metadata.shareId = (plan.nextShare owner).id) = none := by
        rw [List.find?_eq_none]
        intro record hm he
        exact Plan.label_ne (hf.shareIds record hm) (Nat.lt_succ_self _) (of_decide_eq_true he)
      have hlast : (account.nextShareRecord volumeId owner).metadata.shareId =
          (plan.nextShare owner).id := by
        unfold nextShareRecord
        rw [hf.named]
        rfl
      rw [List.find?_append, hnone, Option.none_or, List.find?_singleton, hlast]
      simp
    · unfold nextShareRecord
      rw [hf.named]
      rfl
    · unfold nextShareRecord
      rw [hid]
      exact hid
    · unfold nextShareRecord
      rw [hf.named, hf.signer ho]
      rfl

theorem Follows.addShare (hf : account.Follows plan) (hs : plan.Sound)
    {volumeId owner rootName : String} (h : plan.Permits (.share volumeId owner rootName)) :
    (account.addShare volumeId owner rootName).2.Follows
      (plan.step (.share volumeId owner rootName)) := by
  have hroot := hf.describes_root hs h
  have hsub : plan.used ⊆ owner :: plan.used := List.subset_cons_self _ _
  have hnew : ∀ share ∈ plan.shares, share.id ≠ Plan.label "share" (plan.named + 1) := by
    intro share hm
    exact Plan.label_ne (hs.shareIds share hm) (Nat.lt_succ_self _)
  rw [addShare_eq, hf.named]
  refine { hf with
    named := congrArg (· + 1 + 1) hf.named, addressIds := ?_, owners := ?_
    shares := hf.shares_push h.1, shareIds := ?_, links := ?_
    linkKeys := nodup_setEntry (nodup_setEntry hf.linkKeys), linkShares := ?_
    nodeKeys := ?_ }
  · intro address hm
    exact Plan.label_mono (hf.addressIds address hm) (Nat.le_add_right _ 2)
  · intro share hm
    show (setEntry _ owner account.owners).lookup share.id = _
    rw [lookup_setEntry, hf.named]
    rcases List.mem_append.mp hm with hm | hm
    · rw [if_neg (hnew share hm)]
      exact hf.owners share hm
    · rw [List.mem_singleton.mp hm]
      exact if_pos rfl
  · intro record hm
    rcases List.mem_append.mp hm with hm | hm
    · exact Plan.label_mono (hf.shareIds record hm) (Nat.le_add_right _ 2)
    · rw [List.mem_singleton.mp hm, nextShareRecord, hf.named]
      exact ⟨plan.named + 1, Nat.le_succ _, rfl⟩
  · intro share hm
    have hlinks : (account.withShare volumeId owner).server.links =
        setEntry (Plan.label "share" (plan.named + 1)) [] account.server.links := by
      rw [← hf.named]
      rfl
    show ∃ records, (setEntry _ _ _).lookup share.id = _ ∧ _
    rw [lookup_setEntry, buildLink_snd, hlinks, lookup_setEntry, lookup_setEntry, if_pos rfl]
    rcases List.mem_append.mp hm with hm | hm
    · rw [if_neg (hnew share hm), if_neg (hnew share hm)]
      obtain ⟨records, hlookup, hdesc⟩ := hf.links share hm
      exact ⟨records, hlookup, describes_other hsub hdesc (hnew share hm).symm⟩
    · have hid : (plan.nextShare owner).id = Plan.label "share" (plan.named + 1) := rfl
      rw [List.mem_singleton.mp hm, if_pos hid]
      refine ⟨_, rfl, describes_push hsub ?_ rfl hroot⟩
      have hnone : plan.entries.filter (·.shareId = (plan.nextShare owner).id) = [] := by
        rw [List.filter_eq_nil_iff]
        intro entry hm he
        obtain ⟨other, hom, ho⟩ := hs.shareOf entry hm
        exact hnew other hom (ho.trans (of_decide_eq_true he))
      rw [hnone]
      exact .nil
  · intro id hm
    have hid : id = Plan.label "share" (plan.named + 1) ∨ id ∈ account.server.links.map (·.1) := by
      rcases mem_keys_setEntry hm with h | h
      · exact .inl h
      · exact hf.named ▸ mem_keys_setEntry h
    rcases hid with rfl | hm
    · exact ⟨plan.nextShare owner, List.mem_append_right _ List.mem_cons_self, rfl⟩
    · obtain ⟨share, hsm, he⟩ := hf.linkShares id hm
      exact ⟨share, List.mem_append_left _ hsm, he⟩
  · have hid : (plan.nextRoot rootName).linkId = Plan.label "link" (plan.named + 2) := rfl
    exact nodeKeys_push hs hf.nodeKeys (Nat.lt_add_of_pos_right Nat.two_pos) hid

/-! ### Later changes -/

/-- When the test picks one entry at most, changing the first one changes all. -/
theorem changeFirst_eq_map {α : Type} {test : α → Bool} {f : α → α} {l : List α}
    (h : l.Pairwise fun a b => ¬ (test a ∧ test b)) :
    changeFirst test f l = l.map fun a => if test a then f a else a := by
  induction l with
  | nil => rfl
  | cons a rest ih =>
    obtain ⟨ha, hrest⟩ := List.pairwise_cons.mp h
    unfold changeFirst
    rw [List.map_cons]
    by_cases ht : test a
    · rw [if_pos ht, if_pos ht]
      have hid : rest.map (fun b => if test b then f b else b) = rest.map id :=
        List.map_congr_left fun b hb => if_neg fun hb' => ha b hb ⟨ht, hb'⟩
      rw [hid, List.map_id]
    · rw [if_neg ht, if_neg ht, ih hrest]

theorem mem_changeFirst {α : Type} {test : α → Bool} {f : α → α} {l : List α} {b : α}
    (h : b ∈ changeFirst test f l) : ∃ a ∈ l, b = a ∨ b = f a := by
  induction l with
  | nil => cases h
  | cons a rest ih =>
    unfold changeFirst at h
    split at h
    · rcases List.mem_cons.mp h with h | h
      · exact ⟨a, List.mem_cons_self, .inr h⟩
      · exact ⟨b, List.mem_cons_of_mem _ h, .inl rfl⟩
    · rcases List.mem_cons.mp h with h | h
      · exact ⟨a, List.mem_cons_self, .inl h⟩
      · obtain ⟨c, hc, he⟩ := ih h
        exact ⟨c, List.mem_cons_of_mem _ hc, he⟩

/-- A search that the change does not touch ends at the same place. -/
theorem find?_changeFirst {α : Type} {test p : α → Bool} {f : α → α} (hp : ∀ a, p (f a) = p a)
    {l : List α} {a : α} (h : l.find? p = some a) :
    ∃ b, (changeFirst test f l).find? p = some b ∧ (b = a ∨ b = f a) := by
  induction l with
  | nil => cases h
  | cons c rest ih =>
    unfold changeFirst
    cases hc : p c with
    | true =>
      rw [List.find?_cons_of_pos hc] at h
      have he : c = a := Option.some.inj h
      subst he
      split
      · exact ⟨f c, List.find?_cons_of_pos ((hp c).trans hc), .inr rfl⟩
      · exact ⟨c, List.find?_cons_of_pos hc, .inl rfl⟩
    | false =>
      have hn : ¬ p c = true := by rw [hc]; exact Bool.false_ne_true
      rw [List.find?_cons_of_neg hn] at h
      split
      · exact ⟨a, (List.find?_cons_of_neg (hp c ▸ hn)).trans h, .inl rfl⟩
      · obtain ⟨b, hb, he⟩ := ih h
        exact ⟨b, (List.find?_cons_of_neg hn).trans hb, he⟩

theorem Follows.deleteShare (hf : account.Follows plan) (shareId : String) :
    (account.deleteShare shareId).Follows plan := by
  refine { hf with shares := ?_, shareIds := ?_ }
  · intro share hm
    obtain ⟨record, hr, hroot, hid, hkey⟩ := hf.shares share hm
    let deleted (record : ShareRecord) : ShareRecord :=
      { record with metadata.state := ShareState.deleted }
    have hfind : ∃ changed, (account.deleteShare shareId).server.shares.find?
        (·.metadata.shareId = share.id) = some changed ∧
          (changed = record ∨ changed = deleted record) :=
      find?_changeFirst (f := deleted) (fun _ => rfl) hr
    obtain ⟨changed, hc, rfl | rfl⟩ := hfind
    · exact ⟨_, hc, hroot, hid, hkey⟩
    · exact ⟨_, hc, hroot, hid, hkey⟩
  · intro record hm
    obtain ⟨old, hom, rfl | rfl⟩ := mem_changeFirst hm
    · exact hf.shareIds record hom
    · exact hf.shareIds old hom

/-- The records under a key are those of a share of the plan. -/
theorem Follows.records (hf : account.Follows plan) {pair : String × List LinkRecord}
    (hm : pair ∈ account.server.links) :
    List.Forall₂ (Entry.Describes plan.used) (plan.entries.filter (·.shareId = pair.1)) pair.2 := by
  obtain ⟨share, hsm, he⟩ := hf.linkShares pair.1 (List.mem_map_of_mem hm)
  obtain ⟨records, hlookup, hdesc⟩ := hf.links share hsm
  rw [he, lookup_of_mem hf.linkKeys hm] at hlookup
  cases hlookup
  exact he ▸ hdesc

theorem describes_ids {emails : List String} {entries : List Entry} {records : List LinkRecord}
    (h : List.Forall₂ (Entry.Describes emails) entries records) :
    records.map (·.linkId) = entries.map (·.linkId) := by
  induction h with
  | nil => rfl
  | cons hd _ ih => rw [List.map_cons, List.map_cons, hd.linkId, ih]

/-- A record that is the link's own is found under one key only. -/
theorem Follows.single (hf : account.Follows plan) (hs : plan.Sound) (linkId : String) :
    account.server.links.Pairwise fun a b =>
      ¬ (a.2.any (·.linkId = linkId) ∧ b.2.any (·.linkId = linkId)) := by
  have hentry : ∀ pair ∈ account.server.links, pair.2.any (·.linkId = linkId) →
      ∃ entry ∈ plan.entries, entry.linkId = linkId ∧ entry.shareId = pair.1 := by
    intro pair hm ha
    obtain ⟨record, hr, he⟩ := List.any_eq_true.mp ha
    have hid : record.linkId ∈ pair.2.map (·.linkId) := List.mem_map_of_mem hr
    rw [describes_ids (hf.records hm)] at hid
    obtain ⟨entry, hem, hid⟩ := List.mem_map.mp hid
    obtain ⟨hem, hshare⟩ := List.mem_filter.mp hem
    exact ⟨entry, hem, hid.trans (of_decide_eq_true he), of_decide_eq_true hshare⟩
  have hkeys := List.pairwise_map.mp hf.linkKeys
  refine hkeys.imp_of_mem fun ha hb hne hboth => hne ?_
  obtain ⟨entry, hem, hid, hshare⟩ := hentry _ ha hboth.1
  obtain ⟨other, hom, hoid, hoshare⟩ := hentry _ hb hboth.2
  have he : entry = other := hs.eq_of_id hem hom (hid.trans hoid.symm)
  rw [← hshare, he, hoshare]

/-- What trashing does to the records of a share. -/
def trashed (linkId : String) (records : List LinkRecord) : List LinkRecord :=
  records.map fun record =>
    if record.linkId = linkId then { record with state := .trashed } else record

theorem Follows.trash_links (hf : account.Follows plan) (hs : plan.Sound) (linkId : String) :
    (account.trash linkId).server.links =
      account.server.links.map fun pair => (pair.1, trashed linkId pair.2) := by
  refine (changeFirst_eq_map (hf.single hs linkId)).trans (List.map_congr_left fun pair hm => ?_)
  have hnodup : (pair.2.map (·.linkId)).Nodup := by
    rw [describes_ids (hf.records hm)]
    exact hs.nodup.sublist (List.filter_sublist.map _)
  have hone : pair.2.Pairwise fun a b =>
      ¬ (decide (a.linkId = linkId) = true ∧ decide (b.linkId = linkId) = true) := by
    refine (List.pairwise_map.mp hnodup).imp fun hne hboth => hne ?_
    rw [of_decide_eq_true hboth.1, of_decide_eq_true hboth.2]
  have hall : changeFirst (·.linkId = linkId) ({ · with state := .trashed }) pair.2 =
      trashed linkId pair.2 := by
    rw [changeFirst_eq_map hone, trashed]
    simp only [decide_eq_true_eq]
  rw [hall]
  split
  · rfl
  · next hnone =>
    have hid : trashed linkId pair.2 = pair.2 := by
      have hsame : trashed linkId pair.2 = pair.2.map id :=
        List.map_congr_left fun record hr => if_neg fun he =>
          hnone (List.any_eq_true.mpr ⟨record, hr, decide_eq_true he⟩)
      rw [hsame, List.map_id]
    rw [hid]

@[simp]
theorem lookup_map_snd {α : Type} (f : α → α) (key : String) (entries : List (String × α)) :
    (entries.map fun pair => (pair.1, f pair.2)).lookup key = (entries.lookup key).map f :=
  lookup_map_value (fun _ => f) entries key

theorem describes_trashed {emails : List String} (linkId : String) {entries : List Entry}
    {records : List LinkRecord} (h : List.Forall₂ (Entry.Describes emails) entries records) :
    List.Forall₂ (Entry.Describes emails)
      (entries.map fun entry =>
        if entry.linkId = linkId then { entry with state := .trashed } else entry)
      (trashed linkId records) := by
  induction h with
  | nil => exact .nil
  | @cons entry _ _ _ hd _ ih =>
    refine .cons ?_ ih
    beta_reduce
    by_cases he : entry.linkId = linkId
    · rw [if_pos he, if_pos (hd.linkId.trans he)]
      exact { hd with state := rfl }
    · rw [if_neg he, if_neg fun hr => he (hd.linkId.symm.trans hr)]
      exact hd

theorem Follows.trash (hf : account.Follows plan) (hs : plan.Sound) (linkId : String) :
    (account.trash linkId).Follows (plan.step (.trash linkId)) := by
  have hlinks := hf.trash_links hs linkId
  have hkeys : (account.trash linkId).server.links.map (·.1) =
      account.server.links.map (·.1) := by
    rw [hlinks, List.map_map]
    rfl
  refine { hf with links := ?_, linkKeys := hkeys ▸ hf.linkKeys, linkShares := ?_, nodeKeys := ?_ }
  · intro share hm
    obtain ⟨records, hlookup, hdesc⟩ := hf.links share hm
    refine ⟨trashed linkId records, ?_, ?_⟩
    · rw [hlinks, lookup_map_snd, hlookup]
      rfl
    · have hfilter : (plan.step (.trash linkId)).entries.filter (·.shareId = share.id) =
          (plan.entries.filter (·.shareId = share.id)).map fun entry =>
            if entry.linkId = linkId then { entry with state := .trashed } else entry := by
        show (plan.entries.map _).filter _ = _
        rw [List.filter_map]
        congr 1
        refine List.filter_congr fun entry _ => ?_
        rw [Function.comp_apply]
        split <;> rfl
      rw [hfilter]
      exact describes_trashed linkId hdesc
  · rw [hkeys]
    exact hf.linkShares
  · intro entry hm
    obtain ⟨old, hom, rfl⟩ := List.mem_map.mp hm
    have hid : (if old.linkId = linkId then
        { old with state := LinkState.trashed } else old).linkId = old.linkId := by
      split <;> rfl
    rw [hid]
    exact hf.nodeKeys old hom

/-! ### All calls -/

theorem Follows.step (hf : account.Follows plan) (hs : plan.Sound) {call : Build}
    (h : plan.Permits call) : (call.apply account).Follows (plan.step call) := by
  cases call with
  | address email => exact hf.pushAddress email true
  | inactiveAddress email => exact hf.pushAddress email false
  | foreignSigner email =>
    refine { hf with signers := fun other hm hforeign => ?_ }
    have hforeign : other ∉ email :: plan.foreign := hforeign
    rw [List.mem_cons, not_or] at hforeign
    show (setEntry email _ account.signers).lookup other = _
    rw [lookup_setEntry, if_neg hforeign.1]
    exact hf.signers other hm hforeign.2
  | volume =>
    refine { hf with named := congrArg (· + 1) hf.named, addressIds := ?_, shareIds := ?_ }
    · intro address hm
      exact Plan.label_mono (hf.addressIds address hm) (Nat.le_succ _)
    · intro record hm
      exact Plan.label_mono (hf.shareIds record hm) (Nat.le_succ _)
  | share volumeId owner rootName => exact hf.addShare hs h
  | link shareId parentLinkId spec => exact hf.addLink hs h
  | trash linkId => exact hf.trash hs linkId
  | deleteShare shareId => exact hf.deleteShare shareId

/-- By induction on the calls: an account that was built follows the plan of its calls. -/
theorem Follows.steps (hf : account.Follows plan) (hs : plan.Sound) {calls : List Build}
    (h : plan.Allows calls) :
    (calls.foldl Build.apply account).Follows (calls.foldl Plan.step plan) := by
  induction calls generalizing plan account with
  | nil => exact hf
  | cons call rest ih => exact ih (hf.step hs h.1) (hs.step h.1) h.2

/-- A salted key pass is always a key. -/
theorem ofKeyPass_salt (password salt : Bytes) :
    ∃ ring, Keyring.ofKeyPass (Keyring.salt password salt) = .ok ring := by
  unfold Keyring.ofKeyPass Keyring.salt
  generalize Blake3.deriveKey _ _ = digest
  exact ⟨⟨digest⟩, Keyring.ofBytes_bytes ⟨digest⟩⟩

theorem follows_create (username password : String)
    (mailboxPassword twoFactorCode : Option String) :
    (create username password mailboxPassword twoFactorCode).Follows (.start username) := by
  refine Follows.pushAddress ?_ _ true
  obtain ⟨passKey, hpass⟩ := ofKeyPass_salt (Bytes.ofText (mailboxPassword.getD password))
    (Bytes.ofText (username ++ "-salt"))
  have hnone : ∀ {α : Type} {P : α → Prop}, ∀ a ∈ ([] : List α), P a :=
    fun _ hm => absurd hm List.not_mem_nil
  simp only [hpass]
  exact ⟨rfl, ⟨passKey, _, hpass, rfl, Keyring.openKey_sealMessage _ _ _, rfl⟩, rfl, hnone, hnone,
    hnone, hnone, hnone, hnone, hnone, List.nodup_nil, hnone, hnone, rfl⟩

/-- The account that these calls build for a user. -/
def built (username password : String) (mailboxPassword twoFactorCode : Option String)
    (calls : List Build) : Account :=
  calls.foldl Build.apply (create username password mailboxPassword twoFactorCode)

theorem follows_built {username : String} {calls : List Build}
    (h : (Plan.start username).Allows calls) (password : String)
    (mailboxPassword twoFactorCode : Option String) :
    (built username password mailboxPassword twoFactorCode calls).Follows (.built username calls) :=
  (follows_create username password mailboxPassword twoFactorCode).steps
    (Plan.sound_start username) h

end Account
end SealedDrive
