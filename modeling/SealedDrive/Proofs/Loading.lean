import SealedDrive.Proofs.Listing
import SealedDrive.Proofs.Traffic

/-!
What a loaded share is made of, whatever the server replied: its keyring was opened by the address
that owns it, and its tree is a root that was verified under that keyring. The shares of a listing
and the share that a path leads into were all loaded like that.
-/

namespace SealedDrive

namespace OpenShare

/-- A share as it is right after loading. -/
structure Loaded (session : Session) (opened : OpenShare) : Prop where
  session_eq : opened.share.session = session
  owner : ∃ shareId owner, Share.ownerKeyring session shareId opened.share.record = .ok owner ∧
    Keyring.derive opened.share.record.key owner owner = .ok opened.share.keyring
  arena_eq : opened.arena = .ofRoot opened.arena.root
  isRoot : opened.arena.root.parent = none
  root_id : opened.arena.root.id = opened.share.record.metadata.linkId
  verified : opened.arena.root.Verified session opened.share.keyring

end OpenShare

variable {Γ σ τ : Type} {session : Session}

theorem not_ok_error {α : Type} {error : DriveError} {P : α → Prop} :
    ∀ a, (.error error : Except DriveError α) = .ok a → P a := fun _ h => by cases h

namespace Share

/-- What a load does with the record of its share. -/
def openRecord {σ : Type} (session : Session) (shareId : String) (record : ShareRecord) :
    ExceptT DriveError (Dialogue σ) OpenShare := do
  let owner ← ExceptT.mk <| pure <| ownerKeyring session shareId record
  let keyring ← ExceptT.mk <| pure <| (Keyring.derive record.key owner owner).mapError .crypto
  let root : LinkRecord ← Dialogue.fetch .api (.getLink shareId record.metadata.linkId)
  if root.linkId ≠ record.metadata.linkId then
    throw (.unexpectedRoot record.metadata.linkId shareId root.linkId)
  let node ← ExceptT.mk <| pure <| Node.derive session none keyring root
  return ⟨⟨session, record, keyring⟩, .ofRoot node⟩

theorem load_eq (shareId : String) :
    (load session shareId : ExceptT DriveError (Dialogue σ) OpenShare) =
      Dialogue.fetch .api (.getShare shareId) >>= openRecord session shareId :=
  rfl

theorem ownerKeyring_failsIn (session : Session) (shareId : String) (record : ShareRecord) :
    FailsIn (·.isOfLoad = true) (ownerKeyring session shareId record) := by
  unfold ownerKeyring
  split
  · exact failsIn_ok _
  · exact failsIn_error rfl

/-- A share was made of this record and of what was replied when its root was asked for. -/
structure Opens (session : Session) (replies : (request : Request) → request.Reply → Prop)
    (shareId : String) (record : ShareRecord) (opened : OpenShare) : Prop where
  loaded : opened.Loaded session
  record_eq : opened.share.record = record
  root : replies (.getLink shareId record.metadata.linkId) (.ok opened.arena.root.record)

/-- The record becomes a share, or the load fails in one of the ways of a load. -/
theorem meets_openRecord {d : Discipline Γ σ} {g : Γ} {terms : Terms} {shareId : String}
    (ha : ∀ linkId, terms.asks (.getLink shareId linkId)) (record : ShareRecord) :
    (openRecord session shareId record : ExceptT DriveError (Dialogue σ) OpenShare).run.Meets d
      terms (fun r _ =>
        match r with
        | .ok opened => Opens session terms.replies shareId record opened
        | .error error => error.isOfLoad = true) g := by
  unfold openRecord
  refine Dialogue.meets_ofExcept (fun owner ho => ?_) fun error he =>
    ownerKeyring_failsIn _ _ _ error he
  refine Dialogue.meets_ofExcept (fun keyring hk => ?_) fun error he => failsIn_crypto _ error he
  refine .bindExcept <| Dialogue.meets_fetch (.getLink shareId _) (ha _) fun g _ reply hr => ?_
  cases reply with
  | error error => rfl
  | ok root =>
    show Dialogue.Meets d _ _ ((if root.linkId ≠ record.metadata.linkId then _ else _) :
      Dialogue _ _) g
    by_cases hid : root.linkId = record.metadata.linkId
    · rw [if_neg (not_not_intro hid)]
      refine Dialogue.meets_ofExcept (fun node hn => ?_) fun error he =>
        Node.derive_failsIn _ _ _ _ error he
      obtain ⟨hp, he, -, hv⟩ := Node.derive_eq_ok_iff.mp hn
      refine ⟨⟨rfl, ⟨shareId, owner, ho, mapError_eq_ok_iff.mp hk⟩, rfl, hp, ?_, hv⟩, rfl, ?_⟩
      · rw [← hid, ← he]
        rfl
      · exact he ▸ hr
    · rw [if_pos hid]
      rfl

theorem meets_load {d : Discipline Γ σ} {g : Γ} {terms : Terms} {shareId : String}
    (hs : terms.asks (.getShare shareId)) (ha : ∀ linkId, terms.asks (.getLink shareId linkId)) :
    (load session shareId : ExceptT DriveError (Dialogue σ) OpenShare).run.Meets d terms (fun r _ =>
      match r with
      | .ok opened => terms.replies (.getShare shareId) (.ok opened.share.record) ∧
          Opens session terms.replies shareId opened.share.record opened
      | .error error => error.isOfLoad = true) g := by
  rw [load_eq]
  refine .bindExcept <| Dialogue.meets_fetch (.getShare shareId) hs fun g _ reply hr => ?_
  cases reply with
  | error error => rfl
  | ok record =>
    refine (meets_openRecord ha record).mono fun answer _ _ ho => ?_
    cases answer with
    | error error => exact ho
    | ok opened =>
      obtain ⟨hl, rfl, hroot⟩ := ho
      exact ⟨hr, hl, rfl, hroot⟩

end Share

/-- A share comes out of the replies of the server, or fails in one of the ways of a load. -/
theorem meets_share_replies {service : Service τ} {J : τ → Prop} {crashes : Prop} {terms : Terms}
    (hg : service.Gives J crashes terms) {shareId : String}
    (hs : terms.asks (.getShare shareId)) (ha : ∀ linkId, terms.asks (.getLink shareId linkId)) :
    (session.share service shareId).Meets (.standing J) crashes (fun r _ =>
      match r with
      | .ok opened => terms.replies (.getShare shareId) (.ok opened.share.record) ∧
          Share.Opens session terms.replies shareId opened.share.record opened
      | .error error => error.isOfLoad = true) () :=
  (Share.meets_load hs ha).carryAlone hg

/-- Terms that allow everything. -/
def Terms.any : Terms := ⟨fun _ => True, fun _ _ => True⟩

/-- Whatever the server replies, a share that is loaded is loaded right. -/
theorem meets_share (service : Service τ) (shareId : String) :
    (session.share service shareId).Meets (.standing fun _ => True) True
      (fun r _ => ∀ opened, r = .ok opened → opened.Loaded session) () := by
  have hg : service.Gives (fun _ => True) True .any := service.gives_any fun _ _ => trivial
  refine (meets_share_replies hg trivial fun _ => trivial).mono id fun answer _ _ ho opened he => ?_
  subst he
  exact ho.2.loaded

section

variable [Crowded τ]

/-- So are all shares that a listing brings together. -/
theorem meets_listSharesWith (service : Service τ) (config : ListerConfig)
    (cancelAfter : Option Nat) (volumeId : Option String) (all : Bool) :
    Fetch.Lists (fun _ r => ∀ opened, r = .ok opened → opened.Loaded session)
      (session.listSharesWith service config cancelAfter volumeId all) := by
  refine Fetch.meets_whileCancelling fun cancelAfter => .bind ?_
  refine (Activity.meets_standing_true _).mono id fun answer _ _ _ => ?_
  obtain ⟨metadata, spent⟩ := answer
  cases metadata with
  | error error => exact Fetch.answers_error error
  | ok metadata => exact Fetch.lists_run (meets_share service) _ _ _

theorem meets_listShareRoots (service : Service τ) (all : Bool) :
    (session.listShareRoots service all).Meets (.standing fun _ => True) True
      (fun r _ => ∀ listing, r = .ok listing → ∀ opened ∈ listing.1, opened.Loaded session) () := by
  refine .map ((meets_listSharesWith service _ _ _ all).mono id fun answer _ _ ha => ?_)
  rintro listing hl opened ho
  cases answer with
  | error error => cases hl
  | ok g =>
    cases hl
    obtain ⟨id, hl⟩ := (ha g rfl).inRequestOrder ho
    exact hl opened rfl

end

/-! ## Shares in use -/

namespace OpenShare

/-- A share that was loaded and then used; these links stood in its tree. -/
def InUse (session : Session) (opened : OpenShare) (links : List Link) : Prop :=
  ∃ loaded : OpenShare, loaded.Loaded session ∧ loaded.share = opened.share ∧
    ∃ log u, Use.Steps opened.share (fun _ => True) (.start loaded.arena.root) log u ∧
      u.arena = opened.arena ∧ links ⊆ u.links

theorem Loaded.inUse {opened : OpenShare} (h : opened.Loaded session) : opened.InUse session [] :=
  ⟨opened, h, rfl, [], _, .refl _, h.arena_eq.symm, List.nil_subset _⟩

/-- Whatever clients do with a share that is in use leaves it in use. -/
theorem InUse.run {opened : OpenShare} {links : List Link} (h : opened.InUse session links)
    {service : Service τ} {J : τ → Prop} {server : τ} {s : Traffic τ}
    (hr : Traffic.Run service opened.share J ⟨opened.arena, server, links, []⟩ s) :
    InUse session ⟨opened.share, s.arena⟩ s.links := by
  obtain ⟨loaded, hl, hs, log, u, hu, ha, hsub⟩ := h
  have hf : Traffic.Follows opened.share (fun _ => True) (fun _ => True) True
      ⟨opened.arena, server, links, []⟩ u :=
    ⟨ha, hu.proper (Use.start_proper hl.isRoot), hsub, trivial, fun _ hc => by cases hc⟩
  have hg : service.Gives (fun _ => True) True (Use.terms opened.share fun _ => True) :=
    service.gives_any (Use.replies_any opened.share)
  obtain ⟨log', v, hv, hf⟩ := hf.run hg (Relation.ReflTransGen.mono
    (fun _ _ h => h.mono fun _ _ => trivial) _ _ hr)
  exact ⟨loaded, hl, hs, log ++ log', v, hu.trans hv, hf.arena, hf.links⟩

end OpenShare

theorem meets_walkShare (service : Service τ) {opened : OpenShare} (h : opened.Loaded session)
    (name : String) (rest : List String) (all : Bool) :
    (Session.walkShare service opened name rest all).Meets (.standing fun _ => True) True
      (fun r _ => ∀ found, r = .ok found → OpenShare.InUse session found.1 [found.2]) () := by
  have hg : service.Gives (fun _ => True) True (Use.terms opened.share fun _ => True) :=
    service.gives_any (Use.replies_any opened.share)
  have hroot : opened.arena.rootLink ∈ (Use.start opened.arena.root).links := by
    rw [h.arena_eq]
    exact List.mem_cons_self
  have hw : ((Link.walk opened.share all [] opened.arena.rootLink rest).run.carry service).Meets
      ((Use.discipline opened.share fun _ => True).beside fun _ => True) True
      (fun r u => Use.HandsOut (r.map ([·])) u) (.start opened.arena.root) :=
    (Use.meets_walk hroot).carry hg
  refine .map ((hw.holding ⟨h.arena_eq.symm, Use.start_proper h.isRoot⟩).mono id ?_)
  rintro ⟨answer, arena⟩ - - ⟨u, ⟨log, hu⟩, ⟨ha, -⟩, hh⟩ found he
  cases answer with
  | error error => cases error <;> cases he
  | ok link =>
    cases he
    exact ⟨opened, h, rfl, log, u, hu, ha, hh [link] rfl⟩

/-- A path leads to a link of a share that was loaded right. -/
theorem meets_resolve [Crowded τ] (service : Service τ) (path : String) (all : Bool) :
    (session.resolve service path all).Meets (.standing fun _ => True) True
      (fun r _ => ∀ found, r = .ok found → OpenShare.InUse session found.1 [found.2]) () := by
  unfold Session.resolve
  split
  · exact not_ok_error
  · exact not_ok_error
  next name rest _ =>
  refine meets_bounded (.bind ((meets_listShareRoots service all).mono id fun answer _ _ ha => ?_))
    fun _ _ _ _ => not_ok_error
  split
  · exact not_ok_error
  next shares failures =>
  split
  · next opened ho =>
    exact meets_walkShare service (ha _ rfl opened (List.mem_of_find?_eq_some ho)) _ _ _
  · split <;> exact not_ok_error

end SealedDrive
