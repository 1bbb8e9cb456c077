import SealedDrive.Proofs.Complete
import SealedDrive.Proofs.Loading
import SealedDrive.Proofs.Ring

/-!
Extended attributes. The record alone settles what there is to tell of them: the message that the
active revision carries has to open under the content keyring of the link and the keyring of
whoever signed the revision, and has to read as attributes. The type of the link has no part in it.
Of an account that was built, every link in hand tells the attributes that it was added with.
-/

namespace SealedDrive

/-! ## What a link tells -/

/-- Who signed the active revision of a record, and its sealed attributes; absent when it carries
none. -/
def LinkRecord.attributes? (record : LinkRecord) : Option (String × String) :=
  record.fileProperties.bind fun properties =>
    properties.activeRevision.xattr.map (properties.activeRevision.signatureEmail, ·)

/-- Octets that read as attributes. -/
def XAttr.ofBytes? (octets : Bytes) : Option XAttr := (Json.ofBytes? octets).bind ofJson?

namespace Link

/-- What a link tells of its attributes, one case for each step that settles it. -/
inductive Discloses (link : Link) (session : Session) : Except DriveError (Option XAttr) → Prop
  | nothing : link.node.record.attributes? = none → Discloses link session (.ok none)
  | attributes {email message : String} {verifier : Keyring} {octets : Bytes} {xattr : XAttr} :
    link.node.record.attributes? = some (email, message) →
    session.signerKeyring email = .ok verifier →
    link.node.contentKeyring.openMessage message verifier = .ok octets →
    XAttr.ofBytes? octets = some xattr → Discloses link session (.ok (some xattr))
  /-- The session has no keyring for whoever signed the revision. -/
  | unknown {email message about : String} :
    link.node.record.attributes? = some (email, message) →
    session.signerKeyring email = .error (.keyNotFound about) →
    Discloses link session (.error (.keyNotFound about))
  | closed {email message : String} {verifier : Keyring} {error : CryptoError} :
    link.node.record.attributes? = some (email, message) →
    session.signerKeyring email = .ok verifier →
    link.node.contentKeyring.openMessage message verifier = .error error →
    Discloses link session (.error (.crypto error))
  | malformed {email message : String} {verifier : Keyring} {octets : Bytes} :
    link.node.record.attributes? = some (email, message) →
    session.signerKeyring email = .ok verifier →
    link.node.contentKeyring.openMessage message verifier = .ok octets →
    XAttr.ofBytes? octets = none → Discloses link session (.error (.malformedAttributes link.id))

variable {link : Link} {session : Session} {answer : Except DriveError (Option XAttr)}

theorem extendedAttributes_eq (link : Link) (session : Session) :
    link.extendedAttributes session =
      (match link.node.record.attributes? with
      | none => .ok none
      | some (email, message) => do
        let verifier ← session.signerKeyring email
        let octets ← (link.node.contentKeyring.openMessage message verifier).mapError .crypto
        match XAttr.ofBytes? octets with
        | some xattr => return some xattr
        | none => .error (.malformedAttributes link.id)) := by
  unfold extendedAttributes LinkRecord.attributes?
  cases link.node.record.fileProperties with
  | none => rfl
  | some properties =>
    dsimp only [Option.bind_some]
    cases properties.activeRevision.xattr <;> rfl

/-- A keyring that is missing is missed by name. -/
theorem signerKeyring_error {email : String} {error : DriveError}
    (h : session.signerKeyring email = .error error) : ∃ about, error = .keyNotFound about := by
  unfold Session.signerKeyring at h
  split at h
  · cases h
    exact ⟨_, rfl⟩
  · split at h
    · cases h
      exact ⟨_, rfl⟩
    · cases h

theorem discloses_iff :
    link.Discloses session answer ↔ link.extendedAttributes session = answer := by
  rw [extendedAttributes_eq]
  constructor
  · intro h
    cases h with
    | nothing hr => rw [hr]
    | attributes hr hs ho hx => simp only [hr, hs, ho, hx, bind, Except.bind, Except.mapError]; rfl
    | unknown hr hs => simp only [hr, hs, bind, Except.bind]
    | closed hr hs ho => simp only [hr, hs, ho, bind, Except.bind, Except.mapError]
    | malformed hr hs ho hx => simp only [hr, hs, ho, hx, bind, Except.bind, Except.mapError]
  · rintro rfl
    cases hr : link.node.record.attributes? with
    | none => exact .nothing hr
    | some signed =>
      obtain ⟨email, message⟩ := signed
      cases hs : session.signerKeyring email with
      | error error =>
        obtain ⟨about, rfl⟩ := signerKeyring_error hs
        simp only [hs, bind, Except.bind]
        exact .unknown hr hs
      | ok verifier =>
        cases ho : link.node.contentKeyring.openMessage message verifier with
        | error error =>
          simp only [hs, ho, bind, Except.bind, Except.mapError]
          exact .closed hr hs ho
        | ok octets =>
          cases hx : XAttr.ofBytes? octets with
          | none =>
            simp only [hs, ho, hx, bind, Except.bind, Except.mapError]
            exact .malformed hr hs ho hx
          | some xattr =>
            simp only [hs, ho, hx, bind, Except.bind, Except.mapError]
            exact .attributes hr hs ho hx

end Link

/-! ## Attributes that were sealed for a link -/

/-- What is told of attributes that were given as text. -/
def XAttr.reading (linkId : String) : Option String → Except DriveError (Option XAttr)
  | none => .ok none
  | some text =>
    match XAttr.ofBytes? (Bytes.ofText text) with
    | some xattr => .ok (some xattr)
    | none => .error (.malformedAttributes linkId)

/-- The attributes that a link is added with; a folder takes none. -/
def LinkSpec.attributes (spec : LinkSpec) : Option String :=
  match spec.linkType with
  | .folder => none
  | .file => spec.xattr

/-- The record has these attributes, sealed for its link and signed by whoever signed the rest. -/
structure LinkRecord.Carries (record : LinkRecord) (signer : Keyring) (attributes : Option String) :
    Prop where
  sealed : record.attributes? = attributes.map fun text =>
    (record.signatureEmail,
      (Keyring.ofContent record.linkId).sealMessage (Bytes.ofText text) signer)
  file : attributes.isSome → record.linkType = .file

/-- A link whose keys were opened tells the attributes that were sealed for it. -/
theorem Link.extendedAttributes_of_carries {link : Link} {session : Session} {signer : Keyring}
    {attributes : Option String} (hc : link.node.record.Carries signer attributes)
    (hs : session.signerKeyring link.node.record.signatureEmail = .ok signer)
    (hk : link.node.record.linkType = .file → link.node.contentKeyring = .ofContent link.id)
    (hfit : ∀ text, attributes = some text → Aead.Fits (Bytes.ofText text)) :
    link.extendedAttributes session = XAttr.reading link.id attributes := by
  cases attributes with
  | none => exact discloses_iff.mp (.nothing hc.sealed)
  | some text =>
    have hopen : link.node.contentKeyring.openMessage
        ((Keyring.ofContent link.node.record.linkId).sealMessage (Bytes.ofText text) signer)
        signer = .ok (Bytes.ofText text) := by
      rw [hk (hc.file rfl)]
      exact Keyring.openMessage_sealMessage (hfit text rfl)
    cases hx : XAttr.ofBytes? (Bytes.ofText text) with
    | none =>
      rw [XAttr.reading, hx]
      exact discloses_iff.mp (.malformed hc.sealed hs hopen hx)
    | some xattr =>
      rw [XAttr.reading, hx]
      exact discloses_iff.mp (.attributes hc.sealed hs hopen hx)

namespace Account

theorem carries_buildLink (account : Account) (shareId linkId : String)
    (parentLinkId : Option String) (parentKey : Keyring) (spec : LinkSpec) {record : LinkRecord}
    (hb : (account.buildLink shareId linkId parentLinkId parentKey spec).1 = record) :
    record.Carries (account.signer record.signatureEmail) spec.attributes := by
  subst hb
  unfold LinkSpec.attributes
  cases ht : spec.linkType with
  | folder => exact ⟨by simp [LinkRecord.attributes?, buildLink, ht], nofun⟩
  | file =>
    refine ⟨?_, fun _ => ht⟩
    simp only [LinkRecord.attributes?, buildLink, ht, Option.bind_some, Option.map_map]
    rfl

/-- The content keyring of a file that opens under the keyring it was sealed to, when the session
knows its signer. -/
theorem contentKeyring_of_derive (account : Account) {shareId linkId : String}
    {parentLinkId : Option String} {parentKey : Keyring} {spec : LinkSpec} {record : LinkRecord}
    (hb : (account.buildLink shareId linkId parentLinkId parentKey spec).1 = record)
    {session : Session} {parent : Option Nat} {node : Node}
    (hs : session.signerKeyring record.signatureEmail = .ok (account.signer record.signatureEmail))
    (hd : Node.derive session parent parentKey record = .ok node) (ht : record.linkType = .file) :
    node.contentKeyring = .ofContent linkId := by
  obtain ⟨-, hr, -, ⟨signer, hsigner, hnode, hcontent⟩, -⟩ := Node.derive_eq_ok_iff.mp hd
  rw [hr] at hsigner hnode hcontent
  obtain rfl : account.signer record.signatureEmail = signer :=
    Except.ok.inj (hs.symm.trans hsigner)
  have hwrap : record.nodeKey =
      (Keyring.ofNode linkId).wrap parentKey (account.signer record.signatureEmail) := by
    rw [← hb]
    rfl
  rw [hwrap, Keyring.derive_wrap] at hnode
  have hfile : ∃ properties, record.fileProperties = some properties ∧ properties.contentKey =
      (Keyring.ofContent linkId).wrap (.ofNode linkId) (account.signer record.signatureEmail) := by
    subst hb
    have ht : spec.linkType = .file := ht
    simp only [buildLink, ht]
    exact ⟨_, rfl, rfl⟩
  obtain ⟨properties, hp, hwrapped⟩ := hfile
  simp only [Node.ContentOf, ht, hp, Option.some.injEq, exists_eq_left', hwrapped,
    ← Except.ok.inj hnode, Keyring.derive_wrap] at hcontent
  exact (Except.ok.inj hcontent).symm

end Account

/-! ## Attributes of an account -/

namespace Plan

/-- The attributes of the links by id, after a call. -/
def tell (plan : Plan) (told : String → Option String) : Build → String → Option String
  | .share _ _ _ => Function.update told (label "link" (plan.named + 2)) none
  | .link _ _ spec => Function.update told (label "link" (plan.named + 1)) spec.attributes
  | _ => told

/-- The attributes that the links were added with, by id, after these calls. -/
def attributes (plan : Plan) (told : String → Option String) : List Build → String → Option String
  | [] => told
  | call :: rest => (plan.step call).attributes (plan.tell told call) rest

end Plan

namespace Account

/-- Every link carries the attributes that are told of it. -/
def Carry (told : String → Option String) (links : List (String × List LinkRecord)) : Prop :=
  ∀ pair ∈ links, ∀ record ∈ pair.2,
    record.Carries (.ofAddress record.signatureEmail) (told record.linkId)

theorem mem_setEntry {α : Type} {key : String} {value : α} {entries : List (String × α)}
    {pair : String × α} (h : pair ∈ setEntry key value entries) :
    pair = (key, value) ∨ pair ∈ entries := by
  induction entries with
  | nil => exact .inl (List.mem_singleton.mp h)
  | cons entry rest ih =>
    unfold setEntry at h
    split at h
    · exact (List.mem_cons.mp h).imp id (List.mem_cons_of_mem _)
    · rcases List.mem_cons.mp h with h | h
      · exact .inr (h ▸ List.mem_cons_self)
      · exact (ih h).imp id (List.mem_cons_of_mem _)

theorem mem_of_lookup {α : Type} {entries : List (String × α)} {key : String} {value : α}
    (h : entries.lookup key = some value) : (key, value) ∈ entries := by
  obtain ⟨before, after, rfl, -⟩ := List.lookup_eq_some_iff.mp h
  exact List.mem_append_right _ List.mem_cons_self

/-- A link with an id of its own is put at the end of a share. -/
theorem Carry.push {told : String → Option String} {links : List (String × List LinkRecord)}
    (hc : Carry told links) {last : LinkRecord}
    (hnew : ∀ pair ∈ links, ∀ record ∈ pair.2, record.linkId ≠ last.linkId)
    {attributes : Option String} (hl : last.Carries (.ofAddress last.signatureEmail) attributes)
    (shareId : String) :
    Carry (Function.update told last.linkId attributes)
      (setEntry shareId ((links.lookup shareId).getD [] ++ [last]) links) := by
  -- the links that were there have other ids, so they are told of as before
  have hold : Carry (Function.update told last.linkId attributes) links := by
    intro pair hp record hr
    rw [Function.update_of_ne (hnew pair hp record hr)]
    exact hc pair hp record hr
  intro pair hp record hr
  rcases mem_setEntry hp with rfl | hp
  · rcases List.mem_append.mp hr with hr | hr
    · cases hlookup : links.lookup shareId with
      | none =>
        rw [hlookup] at hr
        cases hr
      | some records =>
        rw [hlookup] at hr
        exact hold _ (mem_of_lookup hlookup) record hr
    · rw [List.mem_singleton.mp hr, Function.update_self]
      exact hl
  · exact hold pair hp record hr

variable {plan : Plan} {account : Account} {told : String → Option String}

/-- A later number makes an id that no record has. -/
theorem Follows.linkId_ne (hf : account.Follows plan) (hs : plan.Sound) {n : Nat}
    (hn : plan.named < n) :
    ∀ pair ∈ account.server.links, ∀ record ∈ pair.2, record.linkId ≠ Plan.label "link" n := by
  intro pair hp record hr
  obtain ⟨entry, he, hd⟩ := exists_of_forall₂_right (hf.records hp) hr
  rw [hd.linkId]
  exact Plan.label_ne (hs.linkIds entry (List.mem_of_mem_filter he)) hn

/-- The record that is added for a link. -/
theorem exists_addLink (account : Account) (shareId parentLinkId : String) (spec : LinkSpec) :
    ∃ last, last.linkId = Plan.label "link" (account.named + 1) ∧
      last.Carries (account.signer last.signatureEmail) spec.attributes ∧
      (account.addLink shareId parentLinkId spec).2.server.links = setEntry shareId
        ((account.server.links.lookup shareId).getD [] ++ [last]) account.server.links :=
  ⟨_, rfl, carries_buildLink { account with named := account.named + 1 } _ _ _ _ _ rfl, rfl⟩

/-- The record that is added for the root of a share. -/
theorem exists_addShare (account : Account) (volumeId owner rootName : String) :
    ∃ root, root.linkId = Plan.label "link" (account.named + 2) ∧ root.attributes? = none ∧
      (account.addShare volumeId owner rootName).2.server.links =
        setEntry (Plan.label "share" (account.named + 1))
          (((setEntry (Plan.label "share" (account.named + 1)) [] account.server.links).lookup
            (Plan.label "share" (account.named + 1))).getD [] ++ [root])
          (setEntry (Plan.label "share" (account.named + 1)) [] account.server.links) :=
  ⟨_, rfl, rfl, rfl⟩

theorem Carry.addShare (hc : Carry told account.server.links) (hf : account.Follows plan)
    (hs : plan.Sound) (volumeId owner rootName : String) :
    Carry (plan.tell told (.share volumeId owner rootName))
      (account.addShare volumeId owner rootName).2.server.links := by
  obtain ⟨root, hid, hnone, hlinks⟩ := account.exists_addShare volumeId owner rootName
  rw [hf.named] at hid hlinks
  have hcleared : Carry told (setEntry (Plan.label "share" (plan.named + 1)) []
      account.server.links) := by
    intro pair hp record hr
    rcases mem_setEntry hp with rfl | hp
    · cases hr
    · exact hc pair hp record hr
  have hnew : ∀ pair ∈ setEntry (Plan.label "share" (plan.named + 1)) [] account.server.links,
      ∀ record ∈ pair.2, record.linkId ≠ root.linkId := by
    intro pair hp record hr
    rcases mem_setEntry hp with rfl | hp
    · cases hr
    · exact hid ▸ hf.linkId_ne hs (by omega) pair hp record hr
  have hcarries : root.Carries (.ofAddress root.signatureEmail) none := ⟨hnone, nofun⟩
  have hpushed := hcleared.push hnew hcarries (Plan.label "share" (plan.named + 1))
  rw [hid] at hpushed
  exact hlinks ▸ hpushed

theorem Carry.addLink (hc : Carry told account.server.links) (hf : account.Follows plan)
    (hs : plan.Sound) {shareId parentLinkId : String} {spec : LinkSpec}
    (h : plan.Permits (.link shareId parentLinkId spec)) :
    Carry (plan.tell told (.link shareId parentLinkId spec))
      (account.addLink shareId parentLinkId spec).2.server.links := by
  obtain ⟨last, hid, hcarries, hlinks⟩ := account.exists_addLink shareId parentLinkId spec
  rw [hf.named] at hid
  have hafter := hf.addLink hs h
  have howns := (hs.step h).used
  obtain ⟨-, -, parent, hpm, hps, -⟩ := h
  obtain ⟨share, hsm, hsid⟩ := hs.shareOf parent hpm
  have hlookup : (account.addLink shareId parentLinkId spec).2.server.links.lookup share.id =
      some ((account.server.links.lookup shareId).getD [] ++ [last]) := by
    rw [hlinks, lookup_setEntry, if_pos (hsid.trans hps)]
  obtain ⟨entry, -, -, hd⟩ := hafter.holds hsm
    ⟨_, hlookup, List.mem_append_right _ (List.mem_singleton_self last)⟩
  rw [hf.signer (howns _ hd.signed)] at hcarries
  have hpushed := hc.push (fun pair hp record hr => hid ▸
    hf.linkId_ne hs (Nat.lt_succ_self _) pair hp record hr) hcarries shareId
  rw [hid] at hpushed
  exact hlinks ▸ hpushed

theorem Carry.trash (hc : Carry told account.server.links) (linkId : String) :
    Carry told (account.trash linkId).server.links := by
  have hkeeps : ∀ record : LinkRecord, record.Carries (.ofAddress record.signatureEmail)
      (told record.linkId) → LinkRecord.Carries { record with state := .trashed }
        (.ofAddress record.signatureEmail) (told record.linkId) :=
    fun record h => ⟨h.sealed, h.file⟩
  intro pair hp record hr
  obtain ⟨old, hold, rfl | rfl⟩ := mem_changeFirst hp
  · exact hc pair hold record hr
  · obtain ⟨before, hbefore, rfl | rfl⟩ := mem_changeFirst hr
    · exact hc old hold record hbefore
    · exact hkeeps before (hc old hold before hbefore)

/-- What one call does to the links keeps them as they are told of. -/
theorem Carry.step (hc : Carry told account.server.links) (hf : account.Follows plan)
    (hs : plan.Sound) {call : Build} (h : plan.Permits call) :
    Carry (plan.tell told call) (call.apply account).server.links := by
  cases call with
  | address => exact hc
  | inactiveAddress => exact hc
  | foreignSigner => exact hc
  | volume => exact hc
  | deleteShare => exact hc
  | share volumeId owner rootName => exact hc.addShare hf hs volumeId owner rootName
  | link shareId parentLinkId spec => exact hc.addLink hf hs h
  | trash linkId => exact hc.trash linkId

/-- By induction on the calls: every link of an account carries what it was added with. -/
theorem Carry.steps (hc : Carry told account.server.links) (hf : account.Follows plan)
    (hs : plan.Sound) {calls : List Build} (h : plan.Allows calls) :
    Carry (plan.attributes told calls) (calls.foldl Build.apply account).server.links := by
  induction calls generalizing plan account told with
  | nil => exact hc
  | cons call rest ih => exact ih (hc.step hf hs h.1) (hf.step hs h.1) (hs.step h.1) h.2

end Account

/-! ## Whole runs -/

namespace OpenShare.Opens

variable {plan : Plan} {account : Account} {share : PlannedShare} {root : Entry}
  {opened : OpenShare} {number : Nat} {tokens : Tokens} {loaded : World} {s : Traffic World}

/-- Whatever clients do with a share of the account, every link in hand was made of a record of
it. -/
theorem holds_record (ho : opened.Opens plan (account.sessionOf number tokens) share root)
    (hf : account.Follows plan) (hs : plan.Sound) (hw : World.Serves account.server loaded)
    (hroot : account.server.Holds share.id opened.arena.root.record)
    (hr : Traffic.Run (World.service true) opened.share (World.Serves account.server)
      (.start opened.arena loaded) s) {link : Link} (hm : link ∈ s.links) :
    account.server.Holds share.id link.node.record := by
  obtain ⟨u, hu, -, hsub, -⟩ := ho.mirrors hf hs hw hr
  have hbound := (hu.proper.knows link (hsub hm)).bound
  have hnode : link.node = u.arena.nodeAt link.handle :=
    congrArg Link.node (hu.current link (hsub hm))
  rw [hnode]
  rcases Nat.eq_zero_or_pos link.handle with hz | hpos
  · rw [hz, hu.root]
    exact hroot
  · obtain ⟨_, -, hholds, -⟩ := hu.child hpos hbound
    exact hholds

/-- So every link in hand tells what it was added with. -/
theorem extendedAttributes_eq (ho : opened.Opens plan (account.sessionOf number tokens) share root)
    (hf : account.Follows plan) (hs : plan.Sound) (hw : World.Serves account.server loaded)
    (hroot : account.server.Holds share.id opened.arena.root.record)
    {told : String → Option String} (hc : Account.Carry told account.server.links)
    (hfit : ∀ id text, told id = some text → Aead.Fits (Bytes.ofText text))
    (hr : Traffic.Run (World.service true) opened.share (World.Serves account.server)
      (.start opened.arena loaded) s) {link : Link} (hm : link ∈ s.links) :
    link.extendedAttributes opened.share.session = XAttr.reading link.id (told link.id) := by
  have hholds := ho.holds_record hf hs hw hroot hr hm
  obtain ⟨records, hlookup, hrecord⟩ := hholds
  have hcarries : link.node.record.Carries (.ofAddress link.node.record.signatureEmail)
      (told link.id) := hc _ (Account.mem_of_lookup hlookup) _ hrecord
  obtain ⟨_, -, -, hd⟩ := hf.holds ho.planned ⟨records, hlookup, hrecord⟩
  obtain ⟨entry, -, -, hshows⟩ := ho.shows_link hf hs hw hr hm
  have hsigner : opened.share.session.signerKeyring link.node.record.signatureEmail =
      .ok (.ofAddress link.node.record.signatureEmail) := by
    rw [ho.session_eq]
    exact hf.signerKeyring hs hd.signed number tokens
  refine Link.extendedAttributes_of_carries hcarries hsigner (fun ht => ?_) (hfit link.id)
  have hfile : entry.linkType = .file := hshows.linkType.symm.trans ht
  have hid : link.id = entry.linkId := hshows.linkId
  rw [hshows.contentKeyring, Entry.contentKeyring, hfile, hid]

end OpenShare.Opens

/-- The root of a share that loads is made of the record that the drive holds for it. -/
theorem Account.holds_root {account : Account} {session : Session} {shareId : String}
    {opened : OpenShare} {world loaded : World} {left left' : Nat}
    (hw : World.Serves account.server world)
    (hrun : (session.share (World.service true) shareId).run World.turn left world =
      (some (.ok opened), left', loaded)) :
    account.server.Holds shareId opened.arena.root.record := by
  have hmeets : (session.share (World.service true) shareId).Meets _ _ _ () :=
    meets_share_replies (World.gives_service account.server) trivial fun _ => trivial
  obtain ⟨_, -, -, hpost, -⟩ := hmeets.run World.allows_turn left hw
  obtain ⟨-, hopens⟩ := hpost _ (congrArg Prod.fst hrun)
  exact Server.holds_findLink hopens.root.symm

/-- Whatever a server sent for it, a link tells nothing when its record carries no attributes, and
otherwise what they read as, when they open for it and for whoever signed the revision, and else
why not. A file that was added with attributes tells what they read as wherever it opens under the
keyring that it was sealed to; and in an account that was built, every link in hand tells what it
was added with, and every link can be reached. -/
theorem attributes_as_sealed {username : String} {calls : List Build}
    (h : (Plan.start username).Allows calls)
    (hfit : ∀ id text, (Plan.start username).attributes (fun _ => none) calls id = some text →
      Aead.Fits (Bytes.ofText text))
    (password : String) (mailboxPassword twoFactorCode : Option String) (number left : Nat) :
    (∀ (link : Link) (session : Session) (answer : Except DriveError (Option XAttr)),
      link.extendedAttributes session = answer ↔ link.Discloses session answer) ∧
    (∀ (account : Account) (shareId linkId : String) (parentLinkId : Option String)
      (parentKey : Keyring) (spec : LinkSpec) (record : LinkRecord) (session : Session)
      (parent : Option Nat) (node : Node) (handle : Nat),
      (account.buildLink shareId linkId parentLinkId parentKey spec).1 = record →
      session.signerKeyring record.signatureEmail =
        .ok (account.signer record.signatureEmail) →
      Node.derive session parent parentKey record = .ok node →
      (∀ text, spec.attributes = some text → Aead.Fits (Bytes.ofText text)) →
      Link.extendedAttributes ⟨handle, node⟩ session = XAttr.reading linkId spec.attributes) ∧
    ∃ session world, (World.freshSession true number).run.run World.turn left
        { bench := ⟨.built username password mailboxPassword twoFactorCode calls, [], [], []⟩ } =
          (some (.ok session), left, world) ∧
      ∀ share ∈ (Plan.built username calls).shares, ∀ left, ∃ opened left' loaded,
        (session.share (World.service true) share.id).run World.turn left world =
          (some (.ok opened), left', loaded) ∧
        (∀ s, Traffic.Run (World.service true) opened.share
            (World.Serves (Account.built username password mailboxPassword twoFactorCode
              calls).server) (.start opened.arena loaded) s →
          ∀ link ∈ s.links, link.extendedAttributes opened.share.session = XAttr.reading link.id
            ((Plan.start username).attributes (fun _ => none) calls link.id)) ∧
        ∀ entry ∈ (Plan.built username calls).entries, entry.shareId = share.id → ∃ s,
          Traffic.Run (World.service true) opened.share
            (World.Serves (Account.built username password mailboxPassword twoFactorCode
              calls).server) (.start opened.arena loaded) s ∧
          ∃ link ∈ s.links, link.id = entry.linkId := by
  refine ⟨fun link session answer => Link.discloses_iff.symm, ?_, ?_⟩
  · intro account shareId linkId parentLinkId parentKey spec record session parent node handle hb
      hs hd hfit
    obtain ⟨-, hr, -⟩ := Node.derive_eq_ok_iff.mp hd
    have hid : linkId = Link.id ⟨handle, node⟩ := by
      rw [Link.id, Node.id, hr, ← hb]
      rfl
    rw [hid]
    have hcarries : node.record.Carries (account.signer record.signatureEmail) spec.attributes := by
      rw [hr]
      exact account.carries_buildLink _ _ _ _ _ hb
    refine Link.extendedAttributes_of_carries hcarries ?_ ?_ hfit
    · rw [hr]
      exact hs
    · rw [hr, ← hid]
      exact account.contentKeyring_of_derive hb hs hd
  · have hsound := Plan.sound_built h
    have hf := Account.follows_built h password mailboxPassword twoFactorCode
    have hnone : Account.Carry (fun _ => none)
        (Account.create username password mailboxPassword twoFactorCode).server.links :=
      fun _ hp => absurd hp List.not_mem_nil
    have hc := hnone.steps (Account.follows_create username password mailboxPassword twoFactorCode)
      (Plan.sound_start username) h
    obtain ⟨world, hw, hrun⟩ := World.run_freshSession hf.unlocks
      { bench := ⟨_, [], [], []⟩ } rfl number World.turn left
    refine ⟨_, world, hrun, fun share hm left => ?_⟩
    obtain ⟨opened, left', loaded, root, hload, hloaded, ho⟩ :=
      hf.run_share hsound hm number _ hw left
    have hroot := Account.holds_root hw hload
    refine ⟨opened, left', loaded, hload, fun s hr link hl => ?_, fun entry he hid => ?_⟩
    · exact ho.extendedAttributes_eq hf hsound hloaded hroot hc hfit hr hl
    · obtain ⟨s, hr, link, hl, hshows⟩ := ho.reaches hf hsound hloaded he hid
      exact ⟨s, hr, link, hl, hshows.linkId⟩

namespace Report

/-- Attributes of a file of ten octets, without a time. -/
def text : String := "\x7b\"Common\": \x7b\"Size\": 10, \"BlockSizes\": [10]\x7d\x7d"

/-- A file with attributes. -/
def calls : List Build :=
  [.volume, .share "volume-2" "alice@example.com" "Root",
    .link "share-3" "link-4" { LinkSpec.file "report.pdf" 10 with xattr := some text }]

def share : PlannedShare := ⟨"share-3", "link-4", "alice@example.com"⟩

def file : Entry := ⟨"share-3", "link-5", some "link-4", "report.pdf", .file, 10, .active⟩

theorem calls_allowed : (Plan.start "alice").Allows calls := by
  simp only [calls, Plan.Allows, Plan.Permits, Plan.Owns, Plan.FitName, Aead.Fits,
    Plan.signersOf]
  decide

theorem fits {id told : String}
    (h : (Plan.start "alice").attributes (fun _ => none) calls id = some told) :
    Aead.Fits (Bytes.ofText told) := by
  have htold : told = text := by
    simp only [calls, Plan.attributes, Plan.tell, Function.update_apply] at h
    grind [LinkSpec.attributes, LinkSpec.file]
  rw [htold, Aead.Fits]
  decide +kernel

end Report

/-- The file is reached, and its attributes read as the text says. -/
theorem attributes_as_sealed_report :
    ∃ session world opened left' loaded, (World.freshSession true 0).run.run World.turn 128
        { bench := ⟨.built "alice" "secret" none none Report.calls, [], [], []⟩ } =
          (some (.ok session), 128, world) ∧
      (session.share (World.service true) "share-3").run World.turn 128 world =
        (some (.ok opened), left', loaded) ∧
      ∃ s, Traffic.Run (World.service true) opened.share
          (World.Serves (Account.built "alice" "secret" none none Report.calls).server)
          (.start opened.arena loaded) s ∧
        ∃ link ∈ s.links, link.id = "link-5" ∧ link.extendedAttributes opened.share.session =
          .ok (some ⟨⟨none, some 10, [10]⟩⟩) := by
  obtain ⟨-, -, session, world, hrun, hshares⟩ := attributes_as_sealed Report.calls_allowed
    (fun _ _ => Report.fits) "secret" none none 0 128
  obtain ⟨opened, left', loaded, hload, htell, hreach⟩ :=
    hshares Report.share (List.mem_singleton.mpr rfl) 128
  obtain ⟨s, hr, link, hm, hid⟩ :=
    hreach Report.file (List.mem_cons_of_mem _ List.mem_cons_self) rfl
  have hid : link.id = "link-5" := hid
  refine ⟨session, world, opened, left', loaded, hrun, hload, s, hr, link, hm, hid, ?_⟩
  rw [htell s hr link hm, hid]
  decide +kernel

/-! ## Folders -/

namespace Labelled

/-- A folder with a message that nobody sealed for its attributes. -/
def record : LinkRecord :=
  { Ring.sealed "link-5" (some "link-4") "Papers" with
    fileProperties := some ⟨⟨"", "", ""⟩,
      ⟨"link-5-revision", 0, 0, "alice@example.com", some "junk"⟩⟩ }

/-- A server that lists it below every link. -/
def service : Service Unit
  | .listChildren _ _ _ => .done (.ok [record])
  | _ => .done (.error .unauthorized)

/-- It opens like the folder without the message. -/
theorem exists_opens : ∃ folder : Node, folder.record = record ∧
    Node.derive Ring.share.session (some 0) (.ofNode "link-4") record = .ok folder := by
  have hfit : Plan.FitName "Papers" := by
    simp only [Plan.FitName, Aead.Fits]
    decide
  obtain ⟨plain, hplain⟩ := Ring.exists_opens "link-5" (some "link-4") hfit (some 0)
  obtain ⟨hp, hr, hm, ⟨signer, hs, hk, hc⟩, ⟨nameSigner, octets, hn, ho, ht⟩⟩ :=
    Node.derive_eq_ok_iff.mp hplain.derive
  rw [hr] at hs hk hc hn ho
  exact ⟨{ plain with record }, rfl, Node.derive_eq_ok_iff.mpr
    ⟨hp, rfl, hm, ⟨signer, hs, hk, hc⟩, ⟨nameSigner, octets, hn, ho, ht⟩⟩⟩

end Labelled

/-- A folder that is asked for its attributes fails, when its record carries a message. -/
theorem folder_attributes_refused : ∃ (root : Node) (s : Traffic Unit) (link : Link),
    root.parent = none ∧ root.Verified Ring.share.session Ring.share.keyring ∧
    Traffic.Run Labelled.service Ring.share (fun _ => True) (.start (.ofRoot root) ()) s ∧
    link ∈ s.links ∧ link.isFolder = true ∧ link.extendedAttributes Ring.share.session =
      .error (.crypto (.decrypt "malformed sealed message")) := by
  have hfit : Plan.FitName "Root" := by
    simp only [Plan.FitName, Aead.Fits]
    decide
  obtain ⟨root, hroot⟩ := Ring.exists_opens "link-4" none hfit none
  obtain ⟨folder, hrecord, hfolder⟩ := Labelled.exists_opens
  have hnamed : Labelled.record.parentLinkId = some (Link.id ⟨0, root⟩) :=
    congrArg some hroot.id_eq.symm
  obtain ⟨handle, after, htaken⟩ : ∃ handle after,
      Ring.share.materialize ⟨0, root⟩ Labelled.record (.ofRoot root) =
        (.ok ⟨handle, folder⟩, after) :=
    ⟨_, _, Share.materialize_of_derive hnamed (hroot.nodeKeyring ▸ hfolder)⟩
  have hisFolder : Link.isFolder ⟨0, root⟩ = true := hroot.isFolder
  have hstart : Traffic.Run Labelled.service Ring.share (fun _ => True) (.start (.ofRoot root) ())
      ⟨.ofRoot root, (), [⟨0, root⟩], []⟩ := .single (.root _)
  have hreply : Labelled.service (.listChildren Ring.share.id (Link.id ⟨0, root⟩) true) =
    .done (.ok [Labelled.record]) := rfl
  have hlist := run_listChildren_single rfl hisFolder hreply htaken (fun _ => id)
    Activity.fullAllowance ()
  obtain ⟨s, hr, hlinks, -⟩ := Traffic.run_of_perform (J := fun _ => True)
    (s := ⟨.ofRoot root, (), [⟨0, root⟩], []⟩) (List.mem_singleton.mpr rfl) hlist
  refine ⟨root, s, ⟨handle, folder⟩, hroot.parent_eq,
    (Node.derive_eq_ok_iff.mp hroot.derive).2.2.2, hstart.trans hr, ?_, ?_, ?_⟩
  · rw [hlinks]
    exact List.mem_cons_self
  · rw [Link.isFolder, Node.isFolder, hrecord]
    rfl
  · have hcarried : folder.record.attributes? = some ("alice@example.com", "junk") := by
      rw [hrecord]
      rfl
    exact Link.discloses_iff.mp (.closed hcarried
      (Ring.follows.signerKeyring Ring.sound (List.mem_singleton.mpr rfl) 0 _) rfl)

end SealedDrive
