import SealedDrive.Proofs.Replies
import SealedDrive.Proofs.Ring

/-!
What was asked for and what came. The root of a share is compared with what the share names as its
root; but a share, and a link that is not known yet, are taken under whatever id the reply gives
them. So an object that a client asks for has the id it was asked under only as far as the server
names what it is asked for.
-/

namespace SealedDrive

namespace Use

variable {share : Share} {u : Use}

/-- A link that is opened is known under the id, or was replied when the id was asked for. -/
theorem meets_openLink_replied {terms : Terms} {linkId : String}
    (ha : terms.asks (.getLink share.id linkId)) :
    (share.openLink linkId).run.Meets (discipline share fun _ => True) terms
      (fun r _ => ∀ link, r = .ok link →
        link.id = linkId ∨ terms.replies (.getLink share.id linkId) (.ok link.node.record)) u := by
  refine meets_arenaNow fun arena ⟨harena, hu⟩ => ?_
  cases hf : arena.find? linkId with
  | some h =>
    rintro link ⟨⟩
    subst harena
    exact .inl (hu.sound.find?_iff.mp hf).2
  | none =>
    refine .bindExcept <| Dialogue.meets_fetch _ ha fun v _ reply hr => ?_
    cases reply with
    | error error => exact not_ok_error
    | ok record =>
      refine meets_arenaNow fun arena ⟨harena, hv⟩ => ?_
      cases hp : record.parentLinkId.bind arena.find? with
      | none => exact not_ok_error
      | some h =>
        obtain ⟨id, -, hf⟩ := Option.bind_eq_some_iff.mp hp
        subst harena
        refine (meets_adopt (hv.present (hv.sound.find?_iff.mp hf).1) trivial).mono
          fun answer _ _ ⟨_, hrecord⟩ link he => ?_
        exact .inr ((hrecord link he).symm ▸ hr)

end Use

/-! ## What was asked for -/

/-- A share that loads has the root that it names, and is the one in the reply; a link that is
opened has the id it was asked under, or that of the record in the reply. -/
theorem opened_as_replied {τ : Type} {service : Service τ} {J : τ → Prop} {crashes : Prop}
    {replies : (request : Request) → request.Reply → Prop}
    (hg : service.Gives J crashes ⟨fun _ => True, replies⟩) :
    (∀ (session : Session) (shareId : String),
      (session.share service shareId).Meets (.standing J) crashes (fun r _ => ∀ opened,
        r = .ok opened → opened.arena.rootLink.id = opened.share.record.metadata.linkId ∧
          replies (.getShare shareId) (.ok opened.share.record)) ()) ∧
    ∀ (share : Share) (linkId : String) (u : Use),
      ((share.openLink linkId).run.carry service).Meets
        ((Use.discipline share fun _ => True).beside J) crashes (fun r _ => ∀ link, r = .ok link →
          link.id = linkId ∨ replies (.getLink share.id linkId) (.ok link.node.record)) u := by
  refine ⟨fun session shareId => ?_, fun share linkId u => ?_⟩
  · refine (meets_share_replies hg trivial fun _ => trivial).mono id fun r _ _ hr opened he => ?_
    subst he
    exact ⟨hr.2.loaded.root_id, hr.1⟩
  · exact (Use.meets_openLink_replied trivial).carry hg

/-! ## A server that mixes things up -/

/-- Opening a link that is not known, whose record is replied at once. -/
theorem run_openLink_new {τ : Type} {service : Service τ} {share : Share} {linkId : String}
    {record : LinkRecord} {arena after : Arena} {h : Nat} {link : Link}
    (hf : arena.find? linkId = none)
    (hs : service (.getLink share.id linkId) = .done (.ok record))
    (hp : record.parentLinkId.bind arena.find? = some h)
    (hm : share.materialize (arena.linkAt h) record arena = (.ok link, after))
    (turn : Nat → Arena × τ → Arena × τ) (left : Nat) (t : τ) :
    ((share.openLink linkId).run.carry service).run turn left (arena, t) =
      (some (.ok link), left, (after, t)) := by
  simp only [Share.openLink, Share.arenaNow, Share.adopt, Dialogue.fetch, Dialogue.update,
    ExceptT.run, ExceptT.mk, bind, ExceptT.bind, ExceptT.bindCont, Dialogue.bind, Dialogue.carry,
    Activity.focus, Activity.bind, Activity.run, hf, hs, hp, hm]

namespace Ring

/-- The key of the share is sealed to the address that owns it. -/
theorem share_key : share.record.key = (Keyring.ofShare "share-3").wrap
    (.ofAddress "alice@example.com") (.ofAddress "alice@example.com") := by
  have hallows : (Plan.start "alice").Allows [.volume] := by
    simp only [Plan.Allows, Plan.Permits]
    decide
  have howns : (Plan.built "alice" [.volume]).Owns "alice@example.com" := by
    unfold Plan.Owns
    decide
  have hsigner := (Account.follows_built hallows "secret" none none).signer howns
  show (Keyring.ofShare "share-3").wrap _ _ = _
  rw [hsigner]

/-- Under whatever id it is asked for, the share loads from its record and that of its root. -/
theorem shareBy_eq {reply : (request : Request) → request.Reply} {shareId name : String}
    {root : Node} (hr : Opens "link-4" none name none root)
    (hs : reply (.getShare shareId) = .ok share.record)
    (hl : reply (.getLink shareId "link-4") = .ok (sealed "link-4" none name)) :
    share.session.shareBy reply shareId = .ok ⟨share, .ofRoot root⟩ := by
  have howner : Share.ownerKeyring share.session shareId share.record =
      .ok (.ofAddress "alice@example.com") := by rfl
  have hkeyring : Keyring.derive share.record.key (.ofAddress "alice@example.com")
      (.ofAddress "alice@example.com") = .ok (.ofShare "share-3") := by
    rw [share_key, Keyring.derive_wrap]
  exact Session.shareBy_eq_ok hs howner hkeyring hl rfl hr.derive

end Ring

namespace Other

/-- Whatever share is asked for is the one, and whatever link but its root is the folder. -/
def reply : (request : Request) → request.Reply
  | .getShare _ => .ok Ring.share.record
  | .getLink _ linkId => .ok (if linkId = "link-4" then Ring.sealed "link-4" none "Root"
      else Ring.sealed "link-5" (some "link-4") "Papers")
  | _ => .error .unauthorized

def service : Service Unit := fun request => .done (reply request)

theorem gives : service.Gives (fun _ => True) False (.fixed reply) := fun _ _ => rfl

/-- The folder passes for another link. -/
theorem run_openLink_other {root folder : Node} (hr : Ring.Opens "link-4" none "Root" none root)
    (hf : Ring.Opens "link-5" (some "link-4") "Papers" (some 0) folder)
    (turn : Nat → Arena × Unit → Arena × Unit) (left : Nat) :
    ((Ring.share.openLink "link-9").run.carry service).run turn left (.ofRoot root, ()) =
      (some (.ok ⟨1, folder⟩), left, (Ring.arena root folder, ())) := by
  have hnew : (Arena.ofRoot root).find? "link-9" = none := by
    rw [Arena.ofRoot, hr.id_eq]
    rfl
  have hparent : (Ring.sealed "link-5" (some "link-4") "Papers").parentLinkId.bind
      (Arena.ofRoot root).find? = some 0 := by
    rw [Arena.ofRoot, hr.id_eq]
    rfl
  exact run_openLink_new hnew rfl hparent (Ring.materialize_folder hr hf) turn left ()

/-- The share and the folder do open, under ids that are not theirs. -/
theorem exists_other : ∃ root folder : Node, root.parent = none ∧ Link.id ⟨1, folder⟩ = "link-5" ∧
    ((Ring.share.session.share service "share-9").run (fun _ => id) 128 ()).1 =
      some (.ok ⟨Ring.share, .ofRoot root⟩) ∧
    (((Ring.share.openLink "link-9").run.carry service).run (fun _ => id) 128
      (.ofRoot root, ())).1 = some (.ok ⟨1, folder⟩) := by
  have hfit : Plan.FitName "Root" ∧ Plan.FitName "Papers" := by
    simp only [Plan.FitName, Aead.Fits]
    decide
  obtain ⟨root, hr⟩ := Ring.exists_opens "link-4" none hfit.1 none
  obtain ⟨folder, hf⟩ := Ring.exists_opens "link-5" (some "link-4") hfit.2 (some 0)
  have hshare : ((Ring.share.session.share service "share-9").run (fun _ => id) 128 ()).1 =
      some (Ring.share.session.shareBy reply "share-9") :=
    run_share_fixed _ gives (fun _ => Discipline.allows_id _) 128 trivial _
  rw [Ring.shareBy_eq hr rfl rfl] at hshare
  exact ⟨root, folder, hr.parent_eq, hf.id_eq, hshare,
    congrArg Prod.fst (run_openLink_other hr hf _ _)⟩

end Other

/-- Both came in the replies to these requests. -/
theorem opened_as_replied_other : ∃ root folder : Node,
    ((Ring.share.session.share Other.service "share-9").run (fun _ => id) 128 ()).1 =
      some (.ok ⟨Ring.share, .ofRoot root⟩) ∧
    Other.reply (.getShare "share-9") = .ok Ring.share.record ∧
    (((Ring.share.openLink "link-9").run.carry Other.service).run (fun _ => id) 128
      (.ofRoot root, ())).1 = some (.ok ⟨1, folder⟩) ∧
    Other.reply (.getLink Ring.share.id "link-9") = .ok folder.record := by
  have hg : Other.service.Gives (fun _ => True) False
      ⟨fun _ => True, fun request r => r = Other.reply request⟩ := fun _ _ => rfl
  obtain ⟨hshares, hlinks⟩ := opened_as_replied hg
  obtain ⟨root, folder, hroot, hid, hshare, hlink⟩ := Other.exists_other
  refine ⟨root, folder, hshare, ?_, hlink, ?_⟩
  · generalize Ring.share.session = session at hshare
    obtain ⟨-, hpost⟩ := (hshares session "share-9").exists_post
      (fun _ => Discipline.allows_id _) trivial hshare
    exact (hpost _ rfl).2.symm
  · obtain ⟨-, hpost⟩ := (hlinks Ring.share "link-9" (.start root)).exists_post
      (fun _ => Discipline.allows_id _) ⟨⟨rfl, Use.start_proper hroot⟩, trivial⟩ hlink
    rcases hpost _ rfl with hsame | hreplied
    · exact absurd (hid.symm.trans hsame) (by decide)
    · exact hreplied.symm

/-- Somebody asks for a share and for a link, and is answered another share and another link. -/
theorem other_object_answered : ∃ root folder : Node,
    ((Ring.share.session.share Other.service "share-9").run (fun _ => id) 128 ()).1 =
      some (.ok ⟨Ring.share, .ofRoot root⟩) ∧ Ring.share.id = "share-3" ∧
    (((Ring.share.openLink "link-9").run.carry Other.service).run (fun _ => id) 128
      (.ofRoot root, ())).1 = some (.ok ⟨1, folder⟩) ∧ Link.id ⟨1, folder⟩ = "link-5" := by
  obtain ⟨root, folder, -, hid, hshare, hlink⟩ := Other.exists_other
  exact ⟨root, folder, hshare, rfl, hlink, hid⟩

end SealedDrive
