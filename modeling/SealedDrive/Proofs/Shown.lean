import SealedDrive.Proofs.Served
import SealedDrive.Proofs.Walk

/-!
A session shows what was built. Every share loads, its root first; and as the records of a share are
fixed and each was sealed for its place, every node that ever stands in the tree shows the entry
that its record was built for, and every listing shows the entries below its folder.
-/

namespace SealedDrive

/-! ## Pairs -/

section

variable {α β γ ε : Type} {R : α → β → Prop} {as : List α} {bs : List β}

theorem exists_of_forall₂_left (h : List.Forall₂ R as bs) {a : α} (ha : a ∈ as) :
    ∃ b ∈ bs, R a b := by
  induction h with
  | nil => cases ha
  | cons hr _ ih =>
    rcases List.mem_cons.mp ha with rfl | ha
    · exact ⟨_, List.mem_cons_self, hr⟩
    · obtain ⟨b, hb, hr⟩ := ih ha
      exact ⟨b, List.mem_cons_of_mem _ hb, hr⟩

theorem exists_of_forall₂_right (h : List.Forall₂ R as bs) {b : β} (hb : b ∈ bs) :
    ∃ a ∈ as, R a b :=
  exists_of_forall₂_left h.flip hb

/-- What opens one by one opens as a whole. -/
theorem mapM_of_forall₂ {f : β → Except ε γ} {S : α → γ → Prop} (h : List.Forall₂ R as bs)
    (hf : ∀ a ∈ as, ∀ b ∈ bs, R a b → ∃ c, f b = .ok c ∧ S a c) :
    ∃ cs, bs.mapM f = .ok cs ∧ List.Forall₂ S as cs := by
  induction h with
  | nil => exact ⟨[], rfl, .nil⟩
  | cons hr _ ih =>
    obtain ⟨c, hc, hs⟩ := hf _ List.mem_cons_self _ List.mem_cons_self hr
    obtain ⟨cs, hcs, hss⟩ := ih fun a ha b hb =>
      hf a (List.mem_cons_of_mem _ ha) b (List.mem_cons_of_mem _ hb)
    refine ⟨c :: cs, ?_, .cons hs hss⟩
    simp only [List.mapM_cons, hc, hcs, bind, Except.bind, pure, Except.pure]

end

/-- A link shows what its spot shows, as neither shows the handle of the parent. -/
theorem Link.shows_spot_iff {arena : Arena} {link : Link} {entry : Entry} :
    entry.Shows (link.spot arena).node ↔ entry.Shows link.node := by
  constructor
  · intro h
    exact ⟨h.linkId, h.name, h.linkType, h.state, h.nodeKeyring, h.contentKeyring, h.size⟩
  · intro h
    exact ⟨h.linkId, h.name, h.linkType, h.state, h.nodeKeyring, h.contentKeyring, h.size⟩

/-! ## Records of a share -/

namespace Server

/-- The drive holds the record among the links of a share. -/
def Holds (base : Server) (shareId : String) (record : LinkRecord) : Prop :=
  ∃ records, base.links.lookup shareId = some records ∧ record ∈ records

theorem holds_findLink {base : Server} {shareId linkId : String} {record : LinkRecord}
    (h : base.findLink shareId linkId = .ok record) : base.Holds shareId record := by
  unfold findLink at h
  cases hl : base.links.lookup shareId with
  | none => rw [hl] at h; cases h
  | some records =>
    rw [hl, Option.bind_some] at h
    cases hf : records.find? (·.linkId = linkId) with
    | none => rw [hf] at h; cases h
    | some found =>
      rw [hf] at h
      cases h
      exact ⟨records, hl, List.mem_of_find?_eq_some hf⟩

theorem lists_findChildren (base : Server) (shareId : String) :
    Use.Lists (base.Holds shareId) (base.findChildren shareId) := by
  intro linkId all listed h record hm
  unfold findChildren at h
  cases hl : base.links.lookup shareId with
  | none => rw [hl] at h; cases h
  | some records =>
    rw [hl] at h
    cases h
    exact ⟨records, hl, List.mem_of_mem_filter hm⟩

theorem gives_use {base : Server} {share : Share} :
    (World.service true).Gives (World.Serves base) False
      (Use.terms share (base.Holds share.id)) := by
  refine (World.gives_service base).mono (fun request ha => ?_) fun request reply ha hr => ?_
  · cases request with
    | getLink | listChildren => exact trivial
    | _ => exact ha.elim
  · cases request with
    | getLink shareId linkId =>
      obtain rfl : shareId = share.id := ha
      intro record he
      exact holds_findLink (hr.symm.trans he)
    | listChildren shareId linkId all =>
      obtain rfl : shareId = share.id := ha
      intro listed he
      exact base.lists_findChildren share.id (hr.symm.trans he)
    | _ => exact ha.elim

theorem gives_listing {base : Server} {share : Share} :
    (World.service true).Gives (World.Serves base) False
      (Use.listingTerms share (base.findChildren share.id)) := by
  refine (World.gives_service base).mono (fun request ha => ?_) fun request reply ha hr => ?_
  · cases request with
    | listChildren => exact trivial
    | _ => exact ha.elim
  · cases request with
    | listChildren shareId linkId all =>
      obtain rfl : shareId = share.id := ha
      exact hr
    | _ => exact ha.elim

end Server

namespace Account

variable {plan : Plan} {account : Account} {share : PlannedShare}

/-- A record of a share was built for an entry of it. -/
theorem Follows.holds (hf : account.Follows plan) (hm : share ∈ plan.shares) {record : LinkRecord}
    (h : account.server.Holds share.id record) :
    ∃ entry ∈ plan.entries, entry.shareId = share.id ∧ entry.Describes plan.used record := by
  obtain ⟨records, hl, hr⟩ := h
  obtain ⟨found, hfound, hdesc⟩ := hf.links share hm
  rw [hl] at hfound
  cases hfound
  obtain ⟨entry, he, hd⟩ := exists_of_forall₂_right hdesc hr
  obtain ⟨he, hid⟩ := List.mem_filter.mp he
  exact ⟨entry, he, of_decide_eq_true hid, hd⟩

/-- No two records of a share have one id. -/
theorem Follows.eq_of_id (hf : account.Follows plan) (hs : plan.Sound) (hm : share ∈ plan.shares)
    {record other : LinkRecord} (h : account.server.Holds share.id record)
    (ho : account.server.Holds share.id other) (hid : record.linkId = other.linkId) :
    record = other := by
  obtain ⟨records, hl, hr⟩ := h
  obtain ⟨others, hol, hor⟩ := ho
  rw [hl] at hol
  cases hol
  obtain ⟨found, hfound, hdesc⟩ := hf.links share hm
  rw [hl] at hfound
  cases hfound
  have hnodup : (records.map (·.linkId)).Nodup := by
    rw [describes_ids hdesc]
    exact hs.nodup.sublist (List.filter_sublist.map _)
  exact List.inj_on_of_nodup_map hnodup hr hor hid

/-- The record of an entry is found under its id. -/
theorem Follows.findLink (hf : account.Follows plan) (hs : plan.Sound) (hm : share ∈ plan.shares)
    {entry : Entry} (he : entry ∈ plan.entries) (hid : entry.shareId = share.id) :
    ∃ record, account.server.findLink share.id entry.linkId = .ok record ∧
      entry.Describes plan.used record := by
  obtain ⟨records, hl, hdesc⟩ := hf.links share hm
  obtain ⟨record, hr, hd⟩ := exists_of_forall₂_left hdesc
    (List.mem_filter.mpr ⟨he, decide_eq_true hid⟩)
  refine ⟨record, ?_, hd⟩
  obtain ⟨found, hfound⟩ : ∃ found, records.find? (·.linkId = entry.linkId) = some found := by
    rw [← Option.isSome_iff_exists, List.find?_isSome]
    exact ⟨record, hr, decide_eq_true hd.linkId⟩
  have hid : found.linkId = entry.linkId := by simpa using List.find?_some hfound
  have hsame : found = record := hf.eq_of_id hs hm ⟨records, hl, List.mem_of_find?_eq_some hfound⟩
    ⟨records, hl, hr⟩ (hid.trans hd.linkId.symm)
  unfold Server.findLink
  rw [hl, Option.bind_some, hfound, hsame]
  rfl

end Account

/-! ## Loading -/

namespace OpenShare

/-- A share of a plan that was loaded: its tree is the root alone, and the root shows its entry. -/
structure Opens (plan : Plan) (session : Session) (share : PlannedShare) (root : Entry)
    (opened : OpenShare) : Prop where
  planned : share ∈ plan.shares
  entry : root ∈ plan.entries
  shareId_eq : root.shareId = share.id
  rootId_eq : root.linkId = share.rootId
  parent_eq : root.parent = none
  session_eq : opened.share.session = session
  id_eq : opened.share.id = share.id
  arena_eq : opened.arena = .ofRoot opened.arena.root
  isRoot : opened.arena.root.parent = none
  shows : root.Shows opened.arena.root

end OpenShare

namespace Account

variable {plan : Plan} {account : Account} {share : PlannedShare}

theorem Follows.findShare (hf : account.Follows plan) (hm : share ∈ plan.shares) :
    ∃ record, account.server.findShare share.id = .ok record ∧
      record.metadata.shareId = share.id ∧ record.metadata.linkId = share.rootId ∧
      account.addressId? share.owner = some record.addressId ∧
      record.key = (Keyring.ofShare share.id).wrap (.ofAddress share.owner)
        (.ofAddress share.owner) := by
  obtain ⟨record, hr, hrest⟩ := hf.shares share hm
  have hid : record.metadata.shareId = share.id := by simpa using List.find?_some hr
  refine ⟨record, ?_, hid, hrest⟩
  unfold Server.findShare
  rw [hf.available, hr]
  rfl

/-- The address that owns a share is one that the session unlocked. -/
theorem Follows.ownerKeyring (hf : account.Follows plan) (hs : plan.Sound)
    (hm : share ∈ plan.shares) {record : ShareRecord}
    (ha : account.addressId? share.owner = some record.addressId) (number : Nat) (tokens : Tokens) :
    Share.ownerKeyring (account.sessionOf number tokens) share.id record =
      .ok (.ofAddress share.owner) := by
  obtain ⟨id, hid, hk⟩ := hf.addressId? (hs.used _ (hs.owner share hm))
  rw [ha] at hid
  cases hid
  have hring : (account.sessionOf number tokens).addressKeyring? record.addressId =
      some (.ofAddress share.owner) := hk
  unfold Share.ownerKeyring
  rw [hring]

theorem Follows.meets_load (hf : account.Follows plan) (hs : plan.Sound) (hm : share ∈ plan.shares)
    {root : Entry} (hr : root ∈ plan.entries) (hid : root.shareId = share.id)
    (hroot : root.linkId = share.rootId) (hnone : root.parent = none) (number : Nat)
    (tokens : Tokens) :
    (Share.load (account.sessionOf number tokens) share.id :
      ExceptT DriveError (Dialogue Unit) OpenShare).run.Meets (.standing fun _ => True)
      account.server.recordTerms (fun r _ => ∃ opened, r = .ok opened ∧
        opened.Opens plan (account.sessionOf number tokens) share root) () := by
  obtain ⟨record, hshare, hsid, hlid, haddress, hkey⟩ := hf.findShare hm
  obtain ⟨rootRecord, hlink, hdesc⟩ := hf.findLink hs hm hr hid
  obtain ⟨node, hnode, hparent, hrecord, hshows⟩ := hdesc.derive
    (fun email he => hf.signerKeyring hs he number tokens) none
  have hring : root.parentKeyring = .ofShare share.id := by
    unfold Entry.parentKeyring
    rw [hnone, hid]
  have hkeyring : (Keyring.derive record.key (.ofAddress share.owner)
      (.ofAddress share.owner)).mapError DriveError.crypto = .ok (.ofShare share.id) := by
    rw [hkey, Keyring.derive_wrap]
    rfl
  have hshared : ∀ reply, account.server.recordTerms.replies (.getShare share.id) reply →
      reply = .ok record := fun _ h => h.trans hshare
  have hlinked : ∀ reply, account.server.recordTerms.replies
      (.getLink share.id record.metadata.linkId) reply → reply = .ok rootRecord := by
    intro reply h
    rw [hlid, ← hroot] at h
    exact h.trans hlink
  unfold Share.load
  refine Dialogue.meets_answer trivial hshared fun _ _ => ?_
  refine Dialogue.meets_ofOk (hf.ownerKeyring hs hm haddress number tokens) ?_
  refine Dialogue.meets_ofOk hkeyring ?_
  refine Dialogue.meets_answer trivial hlinked fun _ _ => ?_
  have hexpected : rootRecord.linkId = record.metadata.linkId := by
    rw [hdesc.linkId, hroot, hlid]
  rw [hring] at hnode
  dsimp only
  rw [if_neg (not_not_intro hexpected)]
  refine Dialogue.meets_ofOk hnode ?_
  exact ⟨_, rfl, hm, hr, hid, hroot, hnone, rfl, hsid, rfl, hparent, hshows⟩

end Account

/-! ## Trees -/

namespace OpenShare.Opens

variable {plan : Plan} {account : Account} {share : PlannedShare} {root : Entry}
  {opened : OpenShare} {number : Nat} {tokens : Tokens} {u : Use}

/-- The records of a share never change, and none of them puts the root below a link. -/
theorem fixed (ho : opened.Opens plan (account.sessionOf number tokens) share root)
    (hf : account.Follows plan) (hs : plan.Sound) :
    Fixed (account.server.Holds share.id) opened.arena.root where
  isRoot := ho.isRoot
  unique := hf.eq_of_id hs ho.planned
  root {record} hr hid := by
    obtain ⟨entry, he, -, hd⟩ := hf.holds ho.planned hr
    have hsame : entry = root :=
      hs.eq_of_id he ho.entry (hd.linkId.symm.trans (hid.trans ho.shows.linkId))
    rw [hd.parent, hsame, ho.parent_eq]

/-- By induction on the handle, since parents come before their children: every node of the tree
shows an entry of the share. -/
theorem shows_nodeAt (ho : opened.Opens plan (account.sessionOf number tokens) share root)
    (hf : account.Follows plan) (hs : plan.Sound)
    (hu : u.Mirrors opened.share (account.server.Holds share.id) opened.arena.root) (h : Nat)
    (hh : h < u.arena.size) :
    ∃ entry ∈ plan.entries, entry.shareId = share.id ∧ entry.Shows (u.arena.nodeAt h) := by
  induction h using Nat.strong_induction_on with
  | _ h ih =>
    rcases Nat.eq_zero_or_pos h with rfl | hpos
    · exact ⟨root, ho.entry, ho.shareId_eq, hu.root ▸ ho.shows⟩
    · obtain ⟨p, hp, hholds, hderive⟩ := hu.child hpos hh
      obtain ⟨parent, -, -, hparent⟩ := ih p hp (Nat.lt_trans hp hh)
      obtain ⟨entry, he, hid, hd⟩ := hf.holds ho.planned hholds
      obtain ⟨hn, -⟩ := Node.derive_eq_ok_iff.mp hderive
      obtain ⟨-, hnames⟩ := hu.proper.sound.parent hh hn
      have hring : (u.arena.nodeAt p).nodeKeyring = entry.parentKeyring := by
        unfold Entry.parentKeyring
        rw [← hd.parent, hnames, hparent.nodeKeyring, ← hparent.linkId]
      obtain ⟨node, hnode, -, -, hshows⟩ := hd.derive
        (fun email hm => hf.signerKeyring hs hm number tokens) (some p)
      rw [ho.session_eq, hring, hnode] at hderive
      cases hderive
      exact ⟨entry, he, hid, hshows⟩

/-- What the drive lists below a folder are the records of the entries below it, in their order. -/
theorem describes_children (hf : account.Follows plan) (hm : share ∈ plan.shares)
    (folderId : String) (all : Bool) :
    ∃ records, account.server.findChildren share.id folderId all = .ok records ∧
      List.Forall₂ (Entry.Describes plan.used) (plan.children share.id folderId all) records := by
  obtain ⟨records, hl, hdesc⟩ := hf.links share hm
  refine ⟨records.filter fun record =>
    record.parentLinkId = some folderId && (all || !record.state.isTrashed), ?_, ?_⟩
  · unfold Server.findChildren
    rw [hl]
    rfl
  · have hchildren : plan.children share.id folderId all =
        (plan.entries.filter (·.shareId = share.id)).filter fun entry =>
          entry.parent = some folderId && (all || !entry.state.isTrashed) := by
      rw [List.filter_filter, Plan.children]
      refine List.filter_congr fun entry _ => ?_
      rw [Bool.eq_iff_iff]
      simp only [decide_eq_true_eq, Bool.and_eq_true, and_comm]
    rw [hchildren]
    refine List.rel_filter (fun entry record hd => ?_) hdesc
    beta_reduce
    rw [hd.parent, hd.state]

/-- Listing a folder opens exactly the entries below it. -/
theorem shows_children (ho : opened.Opens plan (account.sessionOf number tokens) share root)
    (hf : account.Follows plan) (hs : plan.Sound) {folder : Entry} {spot : Spot}
    (hshows : folder.Shows spot.node) (all : Bool) :
    ∃ spots, spot.children (account.sessionOf number tokens)
        (account.server.findChildren share.id) all = .ok spots ∧
      List.Forall₂ (fun entry spot => entry.Shows spot.node)
        (plan.children share.id folder.linkId all) spots := by
  obtain ⟨records, hlist, hdesc⟩ := describes_children hf ho.planned folder.linkId all
  unfold Spot.children
  rw [hshows.linkId, hlist]
  refine mapM_of_forall₂ hdesc fun entry he record _ hd => ?_
  have hparent : entry.parent = some folder.linkId := by
    have hm := (List.mem_filter.mp he).2
    simp only [decide_eq_true_eq] at hm
    exact hm.2.1
  have hring : spot.node.nodeKeyring = entry.parentKeyring := by
    unfold Entry.parentKeyring
    rw [hparent, hshows.nodeKeyring]
  obtain ⟨node, hnode, -, -, hnew⟩ := hd.derive
    (fun email hm => hf.signerKeyring hs hm number tokens) none
  refine ⟨⟨spot.path ++ "/" ++ node.name, node⟩, ?_, hnew⟩
  have hnamed : record.parentLinkId = some spot.node.id := by
    rw [hd.parent, hparent, hshows.linkId]
  unfold Spot.child
  rw [if_neg (not_not_intro hnamed), hring, hnode]
  rfl

/-! ### In traffic -/

variable {loaded : World} {s : Traffic World}

/-- Whatever clients do with a share of the account, its tree mirrors the records. -/
theorem mirrors (ho : opened.Opens plan (account.sessionOf number tokens) share root)
    (hf : account.Follows plan) (hs : plan.Sound) (hw : World.Serves account.server loaded)
    (hr : Traffic.Run (World.service true) opened.share (World.Serves account.server)
      (.start opened.arena loaded) s) :
    ∃ u, Use.Mirrors opened.share (account.server.Holds share.id) opened.arena.root u ∧
      u.arena = s.arena ∧ s.links ⊆ u.links ∧ World.Serves account.server s.server := by
  rw [ho.arena_eq] at hr
  obtain ⟨log, u, hu, hfollows⟩ := (Traffic.follows_start ho.isRoot hw).run
    (ho.id_eq ▸ Server.gives_use) hr
  obtain ⟨hmirrors, -⟩ := (Use.start_mirrors ho.isRoot).steps (ho.fixed hf hs) hu
  exact ⟨u, hmirrors, hfollows.arena, hfollows.links, hfollows.server⟩

/-- Every link in hand shows an entry of the share. -/
theorem shows_link (ho : opened.Opens plan (account.sessionOf number tokens) share root)
    (hf : account.Follows plan) (hs : plan.Sound) (hw : World.Serves account.server loaded)
    (hr : Traffic.Run (World.service true) opened.share (World.Serves account.server)
      (.start opened.arena loaded) s) {link : Link} (hm : link ∈ s.links) :
    ∃ entry ∈ plan.entries, entry.shareId = share.id ∧ entry.Shows link.node := by
  obtain ⟨u, hu, -, hsub, -⟩ := ho.mirrors hf hs hw hr
  obtain ⟨entry, he, hid, hshows⟩ :=
    ho.shows_nodeAt hf hs hu link.handle (hu.proper.knows link (hsub hm)).bound
  exact ⟨entry, he, hid, hu.current link (hsub hm) ▸ hshows⟩

/-- Listing a folder in hand answers the entries below it, whatever the others do meanwhile. -/
theorem run_listChildren (ho : opened.Opens plan (account.sessionOf number tokens) share root)
    (hf : account.Follows plan) (hs : plan.Sound) (hw : World.Serves account.server loaded)
    (hr : Traffic.Run (World.service true) opened.share (World.Serves account.server)
      (.start opened.arena loaded) s) {link : Link} (hm : link ∈ s.links) {folder : Entry}
    (hshows : folder.Shows link.node) (hfolder : folder.linkType = .folder) (all : Bool)
    {turn : Nat → Arena × World → Arena × World}
    (ht : ∀ millis, ((Use.discipline opened.share (account.server.Holds share.id)).beside
      (World.Serves account.server)).Allows (turn millis)) (left : Nat) :
    ∃ links left' state, (link.listChildren (World.service true) opened.share all).run turn left
        (s.arena, s.server) = (some (.ok links), left', state) ∧
      List.Forall₂ (fun entry link => entry.Shows link.node)
        (plan.children share.id folder.linkId all) links := by
  obtain ⟨u, hu, ha, hsub, hserves⟩ := ho.mirrors hf hs hw hr
  have hisFolder : link.isFolder = true := by
    unfold Link.isFolder Node.isFolder
    rw [hshows.linkType, hfolder]
    rfl
  have hspot : folder.Shows (link.spot u.arena).node := Link.shows_spot_iff.mpr hshows
  obtain ⟨spots, hspots, hforall⟩ := ho.shows_children hf hs hspot all
  have htells : ((link.children opened.share all).run.carry (World.service true)).Meets
      ((Use.discipline opened.share (account.server.Holds share.id)).beside
        (World.Serves account.server)) False
      (Use.Tells opened.share (account.server.Holds share.id) opened.arena.root (.ok spots)) u := by
    rw [← hspots, ← ho.session_eq]
    exact (Use.tells_children (ho.fixed hf hs) (account.server.lists_findChildren share.id) hu
      (hsub hm) hisFolder).carry (ho.id_eq ▸ Server.gives_listing)
  have htimeout : opened.share.session.timeout = none := by
    rw [ho.session_eq]
    rfl
  obtain ⟨v, -, -, hpost, hcrash⟩ := htells.run ht left (s := (s.arena, s.server))
    ⟨⟨ha, hu.proper⟩, hserves⟩
  unfold Link.listChildren Session.bounded
  rw [htimeout]
  dsimp only
  rcases hrun : ((link.children opened.share all).run.carry (World.service true)).run turn left
    (s.arena, s.server) with ⟨_ | answer, left', state⟩
  · exact (hcrash (by rw [hrun])).elim
  · have hanswer := (hpost answer (by rw [hrun])).spots
    cases answer with
    | error error => cases hanswer
    | ok links =>
      refine ⟨links, left', state, rfl, ?_⟩
      have hlinks : links.map (Link.spot v.arena) = spots := Except.ok.inj hanswer
      rw [← hlinks, List.forall₂_map_right_iff] at hforall
      exact hforall.imp fun _ _ => Link.shows_spot_iff.mp

/-- By induction on the order in which the links were added: every one of them can be reached. -/
theorem reaches (ho : opened.Opens plan (account.sessionOf number tokens) share root)
    (hf : account.Follows plan) (hs : plan.Sound) (hw : World.Serves account.server loaded)
    {entry : Entry} (he : entry ∈ plan.entries) (hid : entry.shareId = share.id) :
    ∃ s, Traffic.Run (World.service true) opened.share (World.Serves account.server)
      (.start opened.arena loaded) s ∧ ∃ link ∈ s.links, entry.Shows link.node := by
  obtain ⟨before, after, hsplit⟩ := List.append_of_mem he
  induction hn : before.length using Nat.strong_induction_on generalizing entry before after with
  | _ n ih =>
  cases hp : entry.parent with
  | none =>
    have hsame : entry = root :=
      hs.eq_of_id he ho.entry ((hs.rootId entry he hp share ho.planned hid.symm).symm.trans
        ho.rootId_eq.symm)
    exact ⟨_, .single (.root _), opened.arena.rootLink, List.mem_cons_self, hsame ▸ ho.shows⟩
  | some parentId =>
    obtain ⟨parent, hpm, hpid, hplink, hptype⟩ := hs.parent hsplit hp
    obtain ⟨first, second, rfl⟩ := List.append_of_mem hpm
    have hlt : first.length < n := by
      rw [← hn, List.length_append, List.length_cons]
      omega
    have hparent : parent ∈ plan.entries := hsplit ▸ List.mem_append_left _ hpm
    obtain ⟨s, hr, link, hm, hshows⟩ := ih first.length hlt hparent (hpid.trans hid) first
      (second ++ entry :: after) (by rw [hsplit, List.append_assoc, List.cons_append]) rfl
    obtain ⟨links, left, state, hrun, hforall⟩ := ho.run_listChildren hf hs hw hr hm hshows hptype
      true (fun _ => Discipline.allows_id _) Activity.fullAllowance
    have hchild : entry ∈ plan.children share.id parent.linkId true := by
      refine List.mem_filter.mpr ⟨he, ?_⟩
      rw [decide_eq_true_eq]
      exact ⟨hid, hp.trans (congrArg some hplink.symm), rfl⟩
    obtain ⟨child, hc, hshows⟩ := exists_of_forall₂_left hforall hchild
    have hon : (Call.listChildren link true).On s.links := hm
    obtain ⟨s', hr', hlinks, -⟩ := Traffic.run_of_perform hon hrun
    exact ⟨s', hr.trans hr', child, hlinks ▸ List.mem_append_left _ hc, hshows⟩

end OpenShare.Opens

end SealedDrive
