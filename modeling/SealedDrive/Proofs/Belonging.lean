import SealedDrive.Proofs.Asked
import SealedDrive.Proofs.Sequential

/-!
The shares of a volume. There are three ways to them: one compares the record of a share with the
volume, one goes by the metadata that all shares are listed with, and one takes whatever comes under
the id of the main share. So a share that is looked up under its id belongs to the volume, and the
others do as far as the records that the server replies agree with each other.
-/

namespace SealedDrive

variable {σ τ α : Type}

/-! ## What was requested -/

namespace Fetch

variable {load : String → Activity σ (Except DriveError α)} {J : σ → Prop} {crashes : Prop}
  {P : String → Except DriveError α → Prop} {f g : Fetch σ α} {ids : List String} {jobs : List Job}

/-- Jobs come from nowhere but the request. -/
theorem Change.pending_subset (h : Change load J f jobs g) : g.pending ⊆ f.pending := by
  intro job hm
  cases h with
  | abandon =>
    simp only [pending, Option.toList_none, List.append_nil, List.mem_append] at hm ⊢
    exact hm.imp_left .inl
  | close | finish | quit | deliver | crash | doze | wake | join | conclude | answer => exact hm
  | send _ ho hb =>
    simp only [pending, ho, hb, Option.toList_none, List.append_nil, List.append_assoc,
      List.singleton_append] at hm ⊢
    exact hm
  | offer _ ho hb =>
    simp only [pending, ho, hb, Option.toList_none, Option.toList_some, List.append_nil,
      List.append_assoc, List.singleton_append] at hm ⊢
    exact hm
  | take _ _ hq =>
    simp only [pending, Fetch.setWorker, hq, Option.toList_none, List.append_nil] at hm ⊢
    exact List.mem_cons_of_mem _ hm
  | collect _ _ =>
    unfold Fetch.collect at hm
    split at hm
    · exact hm
    · dsimp only at hm
      split at hm <;> exact hm

/-- Whatever a listing of these ids gathers was loaded for one of them. -/
theorem kept_requested (hl : ∀ id ∈ ids, Loads J crashes P id (load id)) :
    Kept load J fun f => f.Keeps J crashes (fun id result => id ∈ ids ∧ P id result) ∧
      ∀ job ∈ f.pending, job.id ∈ ids := by
  have hstep : ∀ {f g : Fetch σ α} {jobs : List Job},
      f.Keeps J crashes (fun id result => id ∈ ids ∧ P id result) ∧
        (∀ job ∈ f.pending, job.id ∈ ids) → Change load J f jobs g →
      g.Keeps J crashes (fun id result => id ∈ ids ∧ P id result) ∧
        ∀ job ∈ g.pending, job.id ∈ ids := by
    intro f g jobs ⟨hf, hids⟩ h
    refine ⟨hf.change_of_queue (fun job hm => ?_) h, fun job hm => hids job (h.pending_subset hm)⟩
    have hid : job.id ∈ ids := hids job (List.mem_append_left _ (List.mem_append_left _ hm))
    exact (hl job.id hid).mono id fun _ _ _ hr => ⟨hid, hr⟩
  exact {
    move := fun hf hs h => ⟨hstep hf (Step.move hs h).change, hf.1.state hs h⟩
    wake := fun hf h => hstep hf (Step.wake h : Step load J _ _ _).change
    leaveLoads := fun hf hs => hf.1.leaveLoads hs }

theorem lists_requested [Crowded σ] (hl : ∀ id ∈ ids, Loads (fun _ => True) True P id (load id))
    (config : ListerConfig) (cancelAfter : Option Nat) :
    Lists (fun id result => id ∈ ids ∧ P id result) (Fetch.run load config cancelAfter ids) := by
  have hpending : ∀ job ∈ (start config ids : Fetch σ α).pending, job.id ∈ ids := by
    intro job hm
    have hid : ids[job.position]? = some job.id := id_of_mem_jobsOf hm
    exact List.mem_of_getElem? hid
  refine (kept_requested hl).lists_run (fun _ hf => hf.1) (fun f hf => ⟨hf.1.leave ?_, hf.2⟩)
    ⟨start_keeps config ids, hpending⟩ cancelAfter
  intro g hg
  cases hg

end Fetch

/-! ## Volumes -/

section

variable {service : Service τ} {replies : (request : Request) → request.Reply → Prop}

/-- A share that is listed was replied under an id that the metadata places on the volume. -/
def Volume.Places (volume : Volume) (replies : (request : Request) → request.Reply → Prop)
    (metadata : List ShareMetadata) (opened : OpenShare) : Prop :=
  ∃ share ∈ metadata, share.volumeId = volume.id ∧
    replies (.getShare share.shareId) (.ok opened.share.record)

theorem Session.mem_wantedIds {volumeId shareId : String} {metadata : List ShareMetadata} :
    shareId ∈ wantedIds (some volumeId) metadata ↔
      ∃ share ∈ metadata, share.volumeId = volumeId ∧ share.shareId = shareId := by
  simp [wantedIds, and_assoc]

theorem meets_share_record (hg : service.Gives (fun _ => True) True ⟨fun _ => True, replies⟩)
    (session : Session) (shareId : String) :
    (session.share service shareId).Meets (.standing fun _ => True) True (fun r _ => ∀ opened,
      r = .ok opened → replies (.getShare shareId) (.ok opened.share.record)) () := by
  refine (meets_share_replies hg trivial fun _ => trivial).mono id fun r _ _ hr opened he => ?_
  subst he
  exact hr.1

theorem meets_volumeShare (hg : service.Gives (fun _ => True) True ⟨fun _ => True, replies⟩)
    (volume : Volume) (shareId : String) :
    (volume.share service shareId).Meets (.standing fun _ => True) True (fun r _ =>
      (∀ opened, r = .ok (some opened) → opened.share.volumeId = volume.id ∧
        replies (.getShare shareId) (.ok opened.share.record)) ∧
      (r = .ok none → ∃ record, replies (.getShare shareId) (.ok record) ∧
        record.metadata.volumeId ≠ volume.id)) () := by
  refine .map ((meets_share_record hg volume.session shareId).mono id fun r _ _ hr => ?_)
  cases r with
  | error error => exact ⟨fun _ he => (by cases he), fun he => (by cases he)⟩
  | ok found =>
    simp only [Except.map]
    split
    · next hid =>
      refine ⟨fun opened he => ?_, fun he => (by cases he)⟩
      cases he
      exact ⟨hid, hr _ rfl⟩
    · next hid => exact ⟨fun _ he => (by cases he), fun _ => ⟨_, hr _ rfl, hid⟩⟩

theorem meets_volumeShares [Crowded τ]
    (hg : service.Gives (fun _ => True) True ⟨fun _ => True, replies⟩) (volume : Volume)
    (all : Bool) :
    (volume.shares service all).Meets (.standing fun _ => True) True (fun r _ => ∀ listing,
      r = .ok listing → ∃ metadata, replies (.listShares all) (.ok metadata) ∧
        ∀ entry ∈ listing.loaded, volume.Places replies metadata entry.2) () := by
  have hmetadata : (Session.listMetadata service all).Meets (.standing fun _ => True) True
      (fun r _ => ∀ metadata, r = .ok metadata → replies (.listShares all) (.ok metadata)) () := by
    refine .map ((hg (.listShares all) trivial).mono id fun r _ _ hr metadata he => ?_)
    cases r with
    | error error => cases he
    | ok listed =>
      cases he
      exact hr
  unfold Volume.shares Session.listShares Session.listSharesWith
  refine Fetch.meets_whileCancelling fun cancelAfter => .bind ?_
  refine (hmetadata.timed 0).mono id fun answer _ _ hm => ?_
  obtain ⟨metadata, spent⟩ := answer
  cases metadata with
  | error error => exact not_ok_error
  | ok metadata =>
    refine (Fetch.lists_requested (fun id _ => meets_share_record hg volume.session id) _ _).mono id
      fun r _ _ hr listing he => ⟨metadata, hm metadata rfl, fun entry hentry => ?_⟩
    obtain ⟨id, hid, hreplied⟩ := hr listing he entry hentry
    obtain ⟨share, hshare, hvolume, rfl⟩ := Session.mem_wantedIds.mp hid
    exact ⟨share, hshare, hvolume, hreplied entry.2 rfl⟩

/-- A share that is looked up on a volume belongs to it. A share that a volume lists, and its main
share, are what the server replies under an id: of a share that the metadata places on the volume,
and of the share that the record of the volume names. -/
theorem volume_shares_as_replied [Crowded τ]
    (hg : service.Gives (fun _ => True) True ⟨fun _ => True, replies⟩) (volume : Volume) :
    (∀ shareId, (volume.share service shareId).Meets (.standing fun _ => True) True (fun r _ =>
      (∀ opened, r = .ok (some opened) → opened.share.volumeId = volume.id ∧
        replies (.getShare shareId) (.ok opened.share.record)) ∧
      (r = .ok none → ∃ record, replies (.getShare shareId) (.ok record) ∧
        record.metadata.volumeId ≠ volume.id)) ()) ∧
    (∀ all, (volume.shares service all).Meets (.standing fun _ => True) True (fun r _ => ∀ listing,
      r = .ok listing → ∃ metadata, replies (.listShares all) (.ok metadata) ∧
        ∀ entry ∈ listing.loaded, volume.Places replies metadata entry.2) ()) ∧
    (volume.mainShare service).Meets (.standing fun _ => True) True (fun r _ => ∀ opened,
      r = .ok opened → replies (.getShare volume.record.shareId) (.ok opened.share.record)) () :=
  ⟨meets_volumeShare hg volume, meets_volumeShares hg volume,
    meets_share_record hg volume.session _⟩

end

/-! ## A server whose records disagree -/

namespace Foreign

def metadata : List ShareMetadata :=
  [⟨"share-3", "link-4", "volume-3", .main, .active, "alice@example.com", .primary, false⟩]

/-- The metadata, and the record of one volume, place a share on that volume; its own record places
it on another one. -/
def reply : (request : Request) → request.Reply
  | .listShares _ => .ok metadata
  | .getShare _ => .ok Ring.share.record
  | .getLink _ _ => .ok (Ring.sealed "link-4" none "Root")
  | _ => .error .unauthorized

def service : Service Unit := fun request => .done (reply request)

def volume (session : Session) : Volume := ⟨session, ⟨"volume-3", .active, 0, none, "share-3"⟩⟩

theorem gives : service.Gives (fun _ => True) False (.fixed reply) := fun _ _ => rfl

theorem exists_opened : ∃ opened : OpenShare,
    Ring.share.session.shareBy reply "share-3" = .ok opened ∧
      opened.share.volumeId = "volume-2" := by
  have hfit : Plan.FitName "Root" := by
    simp only [Plan.FitName, Aead.Fits]
    decide
  obtain ⟨root, hr⟩ := Ring.exists_opens "link-4" none hfit none
  exact ⟨⟨Ring.share, .ofRoot root⟩, Ring.shareBy_eq hr rfl rfl, rfl⟩

/-- The answer of a listing that has just this share. -/
def Lists (opened : OpenShare) (answer : Except DriveError ShareListing) : Prop :=
  ∃ listing, answer = .ok listing ∧ listing.inRequestOrder = [opened]

variable {session : Session} {opened : OpenShare}

theorem lists_of_agrees (h : session.shareBy reply "share-3" = .ok opened)
    {answer : Except DriveError ShareListing}
    (ha : Agrees (eachOf (reply (.listShares true)) (some "volume-3") (session.shareBy reply))
      answer) : Lists opened answer := by
  have heach : eachOf (reply (.listShares true)) (some "volume-3") (session.shareBy reply) =
      .ok (["share-3"], [session.shareBy reply "share-3"]) := rfl
  rw [heach, h] at ha
  cases answer with
  | error error => exact ha.elim
  | ok listing => exact ⟨listing, rfl, ha.values⟩

/-- In whatever order everyone moves, the listing ends with the share. -/
theorem ends_lists (h : session.shareBy reply "share-3" = .ok opened)
    (hp : session.lister.policy = .bestEffort) :
    Fetch.Ends (session.share service) (fun _ => True) session.lister ["share-3"]
      (Lists opened) := by
  have hl := meets_share_fixed session gives
  have hlisted : Session.wantedIds (some "volume-3") metadata = ["share-3"] := rfl
  exact Fetch.ends_of_bestEffort hl (s := ()) trivial hp fun _ ha =>
    lists_of_agrees h (agrees_of_mayAnswer hl hp (some "volume-3") rfl (hlisted ▸ ha))

theorem meets_lists (h : session.shareBy reply "share-3" = .ok opened)
    (hp : session.lister.policy = .bestEffort) (hd : session.lister.deadline = none) :
    ((volume session).shares service true).Meets (.standing fun _ => True) True
      (fun answer _ => Lists opened answer) () := by
  have hagrees := @meets_listSharesWith_agrees Unit service session (fun _ => True) true
    (session.shareBy reply) (reply (.listShares true)) _ session.lister () hp hd trivial
    (fun _ _ _ => trivial) (gives (.listShares true) rfl) (meets_share_fixed session gives)
    (some "volume-3")
  exact hagrees.mono id fun _ _ _ ha => lists_of_agrees h ha

theorem Lists.exists_entry {listing : ShareListing} (h : Lists opened (.ok listing)) :
    ∃ entry ∈ listing.loaded, entry.2 = opened := by
  obtain ⟨_, heq, horder⟩ := h
  cases heq
  have hmem : opened ∈ listing.inRequestOrder := horder ▸ List.mem_singleton.mpr rfl
  obtain ⟨entry, hentry, rfl⟩ := List.mem_map.mp hmem
  exact ⟨entry, List.mem_mergeSort.mp hentry, rfl⟩

theorem meets_places
    (hl : ((volume session).shares service true).Meets (.standing fun _ => True) True
      (fun answer _ => Lists opened answer) ())
    (hr : ((volume session).shares service true).Meets (.standing fun _ => True) True
      (fun answer _ => ∀ listing, answer = .ok listing → ∃ listed,
        .ok listed = reply (.listShares true) ∧ ∀ entry ∈ listing.loaded,
          (volume session).Places (fun request r => r = reply request) listed entry.2) ()) :
    ((volume session).shares service true).Meets (.standing fun _ => True) True
      (fun answer _ => ∃ listing, answer = .ok listing ∧ ∃ entry ∈ listing.loaded,
        entry.2 = opened ∧
          (volume session).Places (fun request r => r = reply request) metadata entry.2) () := by
  refine (hl.and hr).mono id fun answer _ _ ⟨hlists, hplaced⟩ => ?_
  cases answer with
  | error error =>
    obtain ⟨_, heq, -⟩ := hlists
    cases heq
  | ok listing =>
    obtain ⟨entry, hentry, heq⟩ := hlists.exists_entry
    obtain ⟨listed, hlisted, hentries⟩ := hplaced listing rfl
    cases hlisted
    exact ⟨listing, rfl, entry, hentry, heq, hentries entry hentry⟩

/-- The main share is the one that loads. -/
theorem run_mainShare (h : session.shareBy reply "share-3" = .ok opened) :
    (((volume session).mainShare service).run (fun _ => id) 128 ()).1 = some (.ok opened) := by
  show ((session.share service "share-3").run (fun _ => id) 128 ()).1 = _
  rw [run_share_fixed session gives (fun _ => Discipline.allows_id _) 128 trivial, h]

/-- Only when it is looked up the share is not found. -/
theorem run_lookUp (h : session.shareBy reply "share-3" = .ok opened)
    (hid : opened.share.volumeId ≠ "volume-3") :
    (((volume session).share service "share-3").run (fun _ => id) 128 ()).1 =
      some (.ok none) := by
  have hmeets : ((volume session).share service "share-3").Meets (.standing fun _ => True) False
      (fun r _ => r = .ok none) () := by
    refine .map ((meets_share_fixed session gives "share-3").mono id fun r _ _ hr => ?_)
    rw [hr, h]
    exact congrArg Except.ok (if_neg hid)
  exact hmeets.run_eq (fun _ => Discipline.allows_id _) 128 trivial

end Foreign

/-- A share of another volume is listed, and is the main share. -/
theorem foreign_share_returned : ∃ opened : OpenShare, opened.share.volumeId = "volume-2" ∧
    (Foreign.volume Ring.share.session).id = "volume-3" ∧
    (((Foreign.volume Ring.share.session).mainShare Foreign.service).run (fun _ => id) 128 ()).1 =
      some (.ok opened) ∧
    Fetch.Ends (Ring.share.session.share Foreign.service) (fun _ => True) Ring.share.session.lister
      (Session.wantedIds (some "volume-3") Foreign.metadata) (Foreign.Lists opened) ∧
    ((Foreign.volume Ring.share.session).shares Foreign.service true).Meets
      (.standing fun _ => True) True (fun answer _ => Foreign.Lists opened answer) () := by
  obtain ⟨opened, h, hid⟩ := Foreign.exists_opened
  exact ⟨opened, hid, rfl, Foreign.run_mainShare h, Foreign.ends_lists h rfl,
    Foreign.meets_lists h rfl rfl⟩

/-- Looked up, the share is not there, since the record that is replied is of another volume; that
record is the one of the main share, and the metadata places it on the volume. -/
theorem volume_shares_as_replied_foreign : ∃ opened : OpenShare,
    (((Foreign.volume Ring.share.session).mainShare Foreign.service).run (fun _ => id) 128 ()).1 =
      some (.ok opened) ∧
    Foreign.reply (.getShare "share-3") = .ok opened.share.record ∧
    (((Foreign.volume Ring.share.session).share Foreign.service "share-3").run
      (fun _ => id) 128 ()).1 = some (.ok none) ∧
    (∃ record, Foreign.reply (.getShare "share-3") = .ok record ∧
      record.metadata.volumeId ≠ "volume-3") ∧
    ((Foreign.volume Ring.share.session).shares Foreign.service true).Meets
      (.standing fun _ => True) True (fun answer _ => ∃ listing, answer = .ok listing ∧
        ∃ entry ∈ listing.loaded, entry.2 = opened ∧ (Foreign.volume Ring.share.session).Places
          (fun request r => r = Foreign.reply request) Foreign.metadata entry.2) () := by
  have hg : Foreign.service.Gives (fun _ => True) True
      ⟨fun _ => True, fun request r => r = Foreign.reply request⟩ := fun _ _ => rfl
  obtain ⟨opened, h, hid⟩ := Foreign.exists_opened
  have hlists := Foreign.meets_lists h rfl rfl
  -- what the session is made of does not matter any more
  generalize Ring.share.session = session at h hlists ⊢
  obtain ⟨hlookUp, hshares, hmain⟩ := volume_shares_as_replied hg (Foreign.volume session)
  have hrun := Foreign.run_mainShare h
  have hnone := Foreign.run_lookUp h (hid ▸ by decide)
  obtain ⟨-, hrecord⟩ := hmain.exists_post (fun _ => Discipline.allows_id _) trivial hrun
  obtain ⟨-, -, hother⟩ :=
    (hlookUp "share-3").exists_post (fun _ => Discipline.allows_id _) trivial hnone
  obtain ⟨record, hreply, hne⟩ := hother rfl
  exact ⟨opened, hrun, (hrecord opened rfl).symm, hnone, ⟨record, hreply.symm, hne⟩,
    Foreign.meets_places hlists (hshares true)⟩

end SealedDrive
