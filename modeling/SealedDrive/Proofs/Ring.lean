import SealedDrive.Proofs.Ascent
import SealedDrive.Proofs.Served

/-!
Rings. Clients and servers decide together whether the tree of a share stays one: it does exactly as
long as no link is taken in below itself. A record may come again under another parent, and nothing
keeps a server from sending the root below one of its own folders; from then on the way up from
there never ends.
-/

namespace SealedDrive

namespace Use

variable {share : Share} {sends : LinkRecord → Prop} {root : Node} {u : Use} {log : List Adoption}

/-- A way up that comes to an end ends at the top, as no other link is without a parent. -/
theorem Steps.ascend_of_climbEnds (hr : root.parent = none)
    (h : Steps share sends (start root) log u) {n g : Nat} (hg : g < u.arena.size)
    (he : u.arena.climbEnds n (some g) = true) :
    (u.arena.nodeAt 0).parent = none ∧ ∃ steps, u.arena.ascend steps g = some 0 := by
  have hp := h.proper (start_proper hr)
  induction n generalizing g with
  | zero => cases he
  | succ n ih =>
    cases hpar : (u.arena.nodeAt g).parent with
    | none =>
      have htop : u.arena.linkAt g = (Arena.ofRoot root).rootLink :=
        h.eq_of_isRoot (hp.present hg) (Option.isNone_iff_eq_none.mpr hpar)
      have hg : g = 0 := congrArg Link.handle htop
      exact ⟨hg ▸ hpar, 0, congrArg some hg⟩
    | some p =>
      have he : u.arena.climbEnds n (u.arena.nodeAt g).parent = true := he
      rw [hpar] at he
      obtain ⟨htop, steps, ha⟩ := ih (hp.sound.parent hg hpar).1 he
      refine ⟨htop, steps + 1, ?_⟩
      simp only [Arena.ascend, hpar]
      exact ha

/-- The tree is rooted exactly when every way up comes to an end. -/
theorem Steps.rooted_iff_climbEnds (hr : root.parent = none)
    (h : Steps share sends (start root) log u) :
    u.arena.Rooted ↔ ∀ g, g < u.arena.size → u.arena.climbEnds u.arena.size (some g) = true := by
  have hp := h.proper (start_proper hr)
  constructor
  · intro hu g hg
    obtain ⟨steps, hlt, ha⟩ := hu.reaches hg
    exact (Arena.climb_of_ascend hu.top ha hlt).1
  · intro hends
    have htop := Arena.size_pos u.arena
    exact hp.sound.rooted (h.ascend_of_climbEnds hr htop (hends 0 htop)).1 fun {g} hg =>
      (h.ascend_of_climbEnds hr hg (hends g hg)).2

end Use

/-! ## A server that closes one -/

section

variable {τ : Type} {service : Service τ} {share : Share} {link child : Link} {record : LinkRecord}
  {arena after : Arena} {all : Bool}

/-- Listing a folder of which one record is replied. -/
theorem run_listChildren_single (hn : share.session.timeout = none) (hf : link.isFolder = true)
    (hs : service (.listChildren share.id link.id all) = .done (.ok [record]))
    (hm : share.materialize link record arena = (.ok child, after))
    (turn : Nat → Arena × τ → Arena × τ) (left : Nat) (t : τ) :
    ((Call.listChildren link all).perform service share).run turn left (arena, t) =
      (some (.ok [child]), left, (after, t)) := by
  unfold Call.perform Link.listChildren Session.bounded
  rw [hn]
  dsimp only
  rw [Link.children_folder hf]
  show (((service (.listChildren share.id link.id all)).focus Prod.snd _).bind _).run turn left
    (arena, t) = _
  rw [hs]
  show (((do let link ← share.adopt link record; pure [link]) :
    ExceptT DriveError (Dialogue Arena) (List Link)).run.carry service).run turn left (arena, t) = _
  simp only [Share.adopt, Dialogue.update, ExceptT.run, ExceptT.mk, bind, ExceptT.bind,
    Dialogue.bind, Dialogue.carry, Activity.run, hm]
  rfl

end

namespace Ring

/-- What goes before: a share with nothing in it. -/
def calls : List Build := [.volume, .share "volume-2" "alice@example.com" "Root"]

def plan : Plan := .built "alice" calls

def account : Account := .built "alice" "secret" none none calls

theorem calls_allowed : (Plan.start "alice").Allows calls := by
  simp only [calls, Plan.Allows, Plan.Permits, Plan.Owns, Plan.FitName, Aead.Fits]
  decide

theorem follows : account.Follows plan := Account.follows_built calls_allowed "secret" none none

theorem sound : plan.Sound := Plan.sound_built calls_allowed

def share : Share where
  session := account.sessionOf 0 ⟨"uid", "access", "refresh"⟩
  record := (Account.built "alice" "secret" none none [.volume]).nextShareRecord "volume-2"
    "alice@example.com"
  keyring := .ofShare "share-3"

/-- A folder in the share, as it is sealed for its place. -/
def sealed (linkId : String) (parentId : Option String) (name : String) : LinkRecord :=
  (account.buildLink "share-3" linkId parentId
    (Entry.ofSpec "share-3" linkId parentId (.folder name)).parentKeyring (.folder name)).1

/-- What such a folder opens to, under a parent that has the key it was sealed with. -/
structure Opens (linkId : String) (parentId : Option String) (name : String) (parent : Option Nat)
    (node : Node) : Prop where
  derive : Node.derive share.session parent
    (Entry.ofSpec "share-3" linkId parentId (.folder name)).parentKeyring
    (sealed linkId parentId name) = .ok node
  parent_eq : node.parent = parent
  id_eq : node.id = linkId
  name_eq : node.name = name
  isFolder : node.isFolder = true
  nodeKeyring : node.nodeKeyring = .ofNode linkId

/-- It does open, as the owner of the share signed it. -/
theorem exists_opens (linkId : String) (parentId : Option String) {name : String}
    (h : Plan.FitName name) (parent : Option Nat) :
    ∃ node, Opens linkId parentId name parent node := by
  have hdesc : (Entry.ofSpec "share-3" linkId parentId (.folder name)).Describes plan.used
      (sealed linkId parentId name) :=
    Account.describes_buildLink account h (List.mem_singleton.mpr rfl)
      (fun email hm => absurd hm List.not_mem_nil)
      fun email hm => follows.signer (sound.used email hm)
  obtain ⟨node, hd, hp, -, hs⟩ := hdesc.derive
    (fun email hm => follows.signerKeyring sound hm 0 ⟨"uid", "access", "refresh"⟩) parent
  refine ⟨node, hd, hp, hs.linkId, hs.name, ?_, hs.nodeKeyring⟩
  unfold Node.isFolder
  rw [hs.linkType]
  rfl

/-- A server that lists a folder below the root, and the root below the folder. -/
def service : Service Unit
  | .listChildren _ linkId _ => .done (.ok [if linkId = "link-4" then
      sealed "link-5" (some "link-4") "Papers" else sealed "link-4" (some "link-5") "Root"])
  | _ => .done (.error .unauthorized)

/-- The arena of two links, the root and the folder. -/
def arena (root folder : Node) : Arena := ⟨root, [folder], [("link-4", 0), ("link-5", 1)]⟩

variable {root folder again : Node}

/-- The folder is taken in below the root. -/
theorem materialize_folder (hr : Opens "link-4" none "Root" none root)
    (hf : Opens "link-5" (some "link-4") "Papers" (some 0) folder) :
    share.materialize ⟨0, root⟩ (sealed "link-5" (some "link-4") "Papers") (.ofRoot root) =
      (.ok ⟨1, folder⟩, arena root folder) := by
  have hnamed : (sealed "link-5" (some "link-4") "Papers").parentLinkId =
      some (Link.id ⟨0, root⟩) := congrArg some hr.id_eq.symm
  have hopens : Node.derive share.session (some 0) root.nodeKeyring
      (sealed "link-5" (some "link-4") "Papers") = .ok folder := by
    rw [hr.nodeKeyring]
    exact hf.derive
  have hnew : (Arena.ofRoot root).find? folder.id = none := by
    rw [hf.id_eq, Arena.ofRoot, hr.id_eq]
    rfl
  rw [Share.materialize_of_derive hnamed hopens, Arena.insert_of_new hnew, Arena.ofRoot, hr.id_eq,
    hf.id_eq]
  rfl

/-- Listing the root brings in the folder. -/
theorem run_listRoot (hr : Opens "link-4" none "Root" none root)
    (hf : Opens "link-5" (some "link-4") "Papers" (some 0) folder) :
    ((Call.listChildren ⟨0, root⟩ true).perform service share).run (fun _ => id)
        Activity.fullAllowance (.ofRoot root, ()) =
      (some (.ok [⟨1, folder⟩]), Activity.fullAllowance, (arena root folder, ())) := by
  have hreply : service (.listChildren share.id (Link.id ⟨0, root⟩) true) =
      .done (.ok [sealed "link-5" (some "link-4") "Papers"]) := by
    rw [show Link.id ⟨0, root⟩ = "link-4" from hr.id_eq]
    rfl
  have hfolder : Link.isFolder ⟨0, root⟩ = true := hr.isFolder
  exact run_listChildren_single rfl hfolder hreply (materialize_folder hr hf) _ _ ()

/-- Listing the folder puts the root below it. -/
theorem run_listFolder (hf : Opens "link-5" (some "link-4") "Papers" (some 0) folder)
    (ha : Opens "link-4" (some "link-5") "Root" (some 1) again) :
    ((Call.listChildren ⟨1, folder⟩ true).perform service share).run (fun _ => id)
        Activity.fullAllowance (arena root folder, ()) =
      (some (.ok [⟨0, again⟩]), Activity.fullAllowance, (arena again folder, ())) := by
  have hnamed : (sealed "link-4" (some "link-5") "Root").parentLinkId =
      some (Link.id ⟨1, folder⟩) := congrArg some hf.id_eq.symm
  have hopens : Node.derive share.session (some 1) folder.nodeKeyring
      (sealed "link-4" (some "link-5") "Root") = .ok again := by
    rw [hf.nodeKeyring]
    exact ha.derive
  have hknown : (arena root folder).find? again.id = some 0 := by
    rw [ha.id_eq]
    rfl
  have htaken : share.materialize ⟨1, folder⟩ (sealed "link-4" (some "link-5") "Root")
      (arena root folder) = (.ok ⟨0, again⟩, arena again folder) := by
    rw [Share.materialize_of_derive hnamed hopens, Arena.insert_of_known hknown]
    rfl
  have hreply : service (.listChildren share.id (Link.id ⟨1, folder⟩) true) =
      .done (.ok [sealed "link-4" (some "link-5") "Root"]) := by
    rw [show Link.id ⟨1, folder⟩ = "link-5" from hf.id_eq]
    rfl
  have hfolder : Link.isFolder ⟨1, folder⟩ = true := hf.isFolder
  exact run_listChildren_single rfl hfolder hreply htaken _ _ ()

/-- Once the root stands below the folder, every link has a parent. -/
theorem exists_parent (hf : Opens "link-5" (some "link-4") "Papers" (some 0) folder)
    (ha : Opens "link-4" (some "link-5") "Root" (some 1) again) (g : Nat) :
    ∃ p, ((arena again folder).nodeAt g).parent = some p := by
  cases g with
  | zero => exact ⟨1, ha.parent_eq⟩
  | succ g =>
    cases g with
    | zero => exact ⟨0, hf.parent_eq⟩
    | succ g => exact ⟨1, ha.parent_eq⟩

/-- The root is put below a folder that it had. -/
structure Closes (root folder again : Node) (s s' : Traffic Unit) : Prop where
  rootOpens : Opens "link-4" none "Root" none root
  folderOpens : Opens "link-5" (some "link-4") "Papers" (some 0) folder
  againOpens : Opens "link-4" (some "link-5") "Root" (some 1) again
  before : Traffic.Run service share (fun _ => True) (.start (.ofRoot root) ()) s
  links : s.links = [⟨1, folder⟩, ⟨0, root⟩]
  arena_eq : s.arena = arena root folder
  after : Traffic.Run service share (fun _ => True) s s'
  closed : s'.arena = arena again folder

/-- The folder is listed, then the root below it. -/
theorem exists_closes : ∃ root folder again s s', Closes root folder again s s' := by
  have hfit : Plan.FitName "Root" ∧ Plan.FitName "Papers" := by
    simp only [Plan.FitName, Aead.Fits]
    decide
  obtain ⟨root, hr⟩ := exists_opens "link-4" none hfit.1 none
  obtain ⟨folder, hf⟩ := exists_opens "link-5" (some "link-4") hfit.2 (some 0)
  obtain ⟨again, ha⟩ := exists_opens "link-4" (some "link-5") hfit.1 (some 1)
  have hstart : Traffic.Run service share (fun _ => True) (.start (.ofRoot root) ())
      ⟨.ofRoot root, (), [⟨0, root⟩], []⟩ := .single (.root _)
  obtain ⟨s, hs, hlinks, harena⟩ := Traffic.run_of_perform (J := fun _ => True)
    (s := ⟨.ofRoot root, (), [⟨0, root⟩], []⟩) (List.mem_singleton.mpr rfl) (run_listRoot hr hf)
  have hon : (Call.listChildren ⟨1, folder⟩ true).On s.links := hlinks ▸ List.mem_cons_self
  obtain ⟨s', hs', -, harena'⟩ := Traffic.run_of_perform (J := fun _ => True) hon
    (by rw [harena]; exact run_listFolder hf ha)
  exact ⟨root, folder, again, s, s', hr, hf, ha, hstart.trans hs, hlinks, harena, hs', harena'⟩

/-- Then every link has a parent. -/
theorem exists_run : ∃ (root : Node) (s : Traffic Unit), root.parent = none ∧
    root.Verified share.session share.keyring ∧
    Traffic.Run service share (fun _ => True) (.start (.ofRoot root) ()) s ∧
    ∀ g, ∃ p, (s.arena.nodeAt g).parent = some p := by
  obtain ⟨root, folder, again, s, s', h⟩ := exists_closes
  refine ⟨root, s', h.rootOpens.parent_eq, ?_, h.before.trans h.after, fun g => ?_⟩
  · exact (Node.derive_eq_ok_iff.mp h.rootOpens.derive).2.2.2
  · rw [h.closed]
    exact exists_parent h.folderOpens h.againOpens g

end Ring

/-! ## Whole runs -/

/-- Whatever clients do with a share and whatever they are answered, the tree is rooted all the time
exactly when no record is taken in below the link that it becomes; it is rooted exactly when every
way up ends, and then the root is the one that was loaded and every path begins with its name. -/
theorem stays_rooted_iff {τ : Type} {service : Service τ} {share : Share} {root : Node}
    (hr : root.parent = none) {server : τ} {s : Traffic τ}
    (h : Traffic.Run service share (fun _ => True) (.start (.ofRoot root) server) s) :
    ∃ log u, Use.Steps share (fun _ => True) (.start root) log u ∧ u.arena = s.arena ∧
      s.links ⊆ u.links ∧
      (((∀ a ∈ log, a.arena.Rooted) ∧ s.arena.Rooted) ↔ ∀ a ∈ log, ¬ a.Loops) ∧
      (s.arena.Rooted ↔ ∀ g, g < s.arena.size → s.arena.climbEnds s.arena.size (some g) = true) ∧
      (s.arena.Rooted → s.arena.rootLink = ⟨0, root⟩ ∧ ∀ link ∈ s.links,
        s.arena.climbEnds s.arena.size link.node.parent = true ∧
          ∃ names, link.path s.arena = Path.join (root.name :: names)) := by
  obtain ⟨log, u, hu, -, ha, hsub⟩ :=
    Traffic.use_of_run (service.gives_any (Use.replies_any share)) hr trivial h
  refine ⟨log, u, hu, ha, hsub, ?_, ?_, ?_⟩
  · rw [← ha]
    exact hu.rooted_iff hr
  · rw [← ha]
    exact hu.rooted_iff_climbEnds hr
  · rw [← ha]
    intro hrooted
    obtain ⟨htop, hpaths⟩ := hu.path hr hrooted
    exact ⟨htop, fun link hm => hpaths link (hsub hm)⟩

/-- On a run that ends in a ring, some record was taken in below itself. -/
theorem stays_rooted_iff_ring : ∃ (root : Node) (s : Traffic Unit) (log : List Adoption) (u : Use),
    root.parent = none ∧
    Traffic.Run Ring.service Ring.share (fun _ => True) (.start (.ofRoot root) ()) s ∧
    Use.Steps Ring.share (fun _ => True) (.start root) log u ∧ u.arena = s.arena ∧
    ∃ a ∈ log, a.Loops := by
  obtain ⟨root, s, hr, -, hs, hparent⟩ := Ring.exists_run
  obtain ⟨log, u, hu, ha, -, hiff, -⟩ := stays_rooted_iff hr hs
  refine ⟨root, s, log, u, hr, hs, hu, ha, ?_⟩
  by_contra hnone
  have hrooted := (hiff.mpr fun a ha hl => hnone ⟨a, ha, hl⟩).2
  exact hrooted.not_parents hparent

/-- A share that was opened right can come to have a root with a parent, and ways up without an
end. -/
theorem root_below_itself : ∃ (root : Node) (s : Traffic Unit), root.parent = none ∧
    root.Verified Ring.share.session Ring.share.keyring ∧
    Traffic.Run Ring.service Ring.share (fun _ => True) (.start (.ofRoot root) ()) s ∧
    s.arena.rootLink.isRoot = false ∧ ¬ s.arena.Rooted ∧
    ∀ g, g < s.arena.size → ∀ steps, s.arena.climbEnds steps (some g) = false := by
  obtain ⟨root, s, hr, hv, hs, hparent⟩ := Ring.exists_run
  obtain ⟨p, hp⟩ := hparent 0
  refine ⟨root, s, hr, hv, hs, congrArg Option.isNone hp, ?_, ?_⟩
  · intro hrooted
    exact hrooted.not_parents hparent
  · intro g _ steps
    exact Arena.climbEnds_of_parents hparent steps g

end SealedDrive
