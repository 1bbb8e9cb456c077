import SealedDrive.Proofs.Complete
import SealedDrive.Proofs.Loading

/-!
Every link vouches for its data. However a client comes by a link, and whatever the server replied,
its keys and its name were opened with the keyring that its place in the tree asks for: the share
keyring for the root, and the node keyring of a vouched link of the same share, the one its record
names as the parent, for any other.
-/

namespace SealedDrive

/-- A link whose data is verified up to the keyring of the share; `made` are the links that stood in
the tree. -/
inductive Vouched (share : Share) (root : Link) (made : List Link) : Link → Prop
  | loaded : root.node.Verified share.session share.keyring → Vouched share root made root
  | child {parent link : Link} : parent ∈ made → Vouched share root made parent →
    link.node.record.parentLinkId = some parent.id →
    link.node.Verified share.session parent.node.nodeKeyring → Vouched share root made link

namespace Vouched

variable {share : Share} {root link : Link} {made : List Link}

theorem mono (h : Vouched share root made link) {made' : List Link} (hm : made ⊆ made') :
    Vouched share root made' link := by
  induction h with
  | loaded hv => exact .loaded hv
  | child hp _ hr hv ih => exact .child (hm hp) ih hr hv

/-- A record is taken in under a link that is vouched for, so what it becomes is vouched for. -/
theorem materialize {parent : Link} {record : LinkRecord} {arena after : Arena}
    (hp : parent ∈ made) (hv : Vouched share root made parent)
    (h : share.materialize parent record arena = (.ok link, after)) :
    Vouched share root made link := by
  obtain ⟨hid, hd, -⟩ := Share.materialize_ok h
  obtain ⟨-, hr, -, hn⟩ := Node.derive_eq_ok_iff.mp hd
  exact .child hp hv (hr ▸ hid) hn

end Vouched

/-- All links that ever stood in the tree of a share are vouched for. -/
theorem Use.Steps.vouched {share : Share} {sends : LinkRecord → Prop} {root : Node} {u : Use}
    {log : List Adoption} (hr : root.Verified share.session share.keyring)
    (h : Use.Steps share sends (.start root) log u) {link : Link} (hl : link ∈ u.links) :
    Vouched share (Arena.ofRoot root).rootLink u.links link := by
  induction h generalizing link with
  | refl =>
    rw [List.mem_singleton.mp hl]
    exact .loaded hr
  | adopt _ hp _ hm ih =>
    rcases List.mem_cons.mp hl with rfl | hl
    · exact (Vouched.materialize hp (ih hp) hm).mono (List.subset_cons_self _ _)
    · exact (ih hl).mono (List.subset_cons_self _ _)

section

variable {τ : Type} [Crowded τ]

/-- What a client may get hold of: shares with their trees, and links of them. -/
inductive Obtained (service : Service τ) (session : Session) : OpenShare → List Link → Prop
  | share {turn : Nat → τ → τ} {left : Nat} {s : τ} {shareId : String} {opened : OpenShare} :
    ((session.share service shareId).run turn left s).1 = some (.ok opened) →
    Obtained service session opened []
  | listed {turn : Nat → τ → τ} {left : Nat} {s : τ} {all : Bool} {opened : OpenShare}
    {shares : List OpenShare} {failures : List (String × DriveError)} :
    ((session.listShareRoots service all).run turn left s).1 = some (.ok (shares, failures)) →
    opened ∈ shares → Obtained service session opened []
  | resolved {turn : Nat → τ → τ} {left : Nat} {s : τ} {path : String} {all : Bool}
    {opened : OpenShare} {link : Link} :
    ((session.resolve service path all).run turn left s).1 = some (.ok (opened, link)) →
    Obtained service session opened [link]
  /-- Clients go on with a share, side by side and for as long as they like. -/
  | used {opened : OpenShare} {links : List Link} {server : τ} {s : Traffic τ} :
    Obtained service session opened links →
    Traffic.Run service opened.share (fun _ => True) ⟨opened.arena, server, links, []⟩ s →
    Obtained service session ⟨opened.share, s.arena⟩ s.links

variable {service : Service τ} {session : Session} {opened : OpenShare} {links : List Link}

theorem Obtained.inUse (h : Obtained service session opened links) :
    opened.InUse session links := by
  have ha : ∀ millis (change : Nat → τ → τ),
      (Discipline.standing fun _ : τ => True).Allows (change millis) :=
    fun millis change => Fetch.allows_any (change millis)
  induction h with
  | share hr =>
    obtain ⟨-, -, -, hp, -⟩ := (meets_share service _).run (fun m => ha m _) _ trivial
    exact (hp _ hr _ rfl).inUse
  | listed hr hm =>
    obtain ⟨-, -, -, hp, -⟩ := (meets_listShareRoots service _).run (fun m => ha m _) _ trivial
    exact (hp _ hr _ rfl _ hm).inUse
  | resolved hr =>
    obtain ⟨-, -, -, hp, -⟩ := (meets_resolve service _ _).run (fun m => ha m _) _ trivial
    exact hp _ hr _ rfl
  | used _ hr ih => exact ih.run hr

/-- Every link that a client gets hold of, and every node of the tree that it comes from, is vouched
for. -/
theorem obtained_vouched (h : Obtained service session opened links) :
    opened.share.session = session ∧ ∃ (root : Link) (made : List Link), root.isRoot = true ∧
      links ⊆ made ∧ (∀ handle, handle < opened.arena.size → opened.arena.linkAt handle ∈ made) ∧
      ∀ link ∈ made, Vouched opened.share root made link := by
  obtain ⟨loaded, hl, hs, log, u, hu, ha, hsub⟩ := h.inUse
  have hp := hu.proper (Use.start_proper hl.isRoot)
  refine ⟨hs ▸ hl.session_eq, (Arena.ofRoot loaded.arena.root).rootLink, u.links, ?_, hsub, ?_, ?_⟩
  · show loaded.arena.root.parent.isNone = true
    rw [hl.isRoot]
    rfl
  · intro handle hh
    exact ha ▸ hp.present (ha ▸ hh)
  · refine fun link hm => hu.vouched ?_ hm
    rw [← hs, hl.session_eq]
    exact hl.verified

end

/-- A folder of an account that was built is obtained from a session on it. -/
theorem obtained_vouched_papers :
    ∃ (opened : OpenShare) (links : List Link) (link : Link),
      Obtained (World.service true) Papers.session opened links ∧ link ∈ links ∧
      link.name = "Papers" ∧ opened.share.session = Papers.session ∧
      ∃ (root : Link) (made : List Link), root.isRoot = true ∧ links ⊆ made ∧
        ∀ link ∈ made, Vouched opened.share root made link := by
  obtain ⟨world, opened, left, loaded, root, s, link, hload, -, -, hr, hm, hshows⟩ :=
    Papers.exists_link
  have hobtained : Obtained (World.service true) Papers.session ⟨opened.share, s.arena⟩ s.links :=
    .used (.share (congrArg Prod.fst hload)) (Relation.ReflTransGen.mono
      (fun _ _ h => h.mono fun _ _ => trivial) _ _ hr)
  obtain ⟨hsession, root, made, hroot, hsub, -, hvouched⟩ := obtained_vouched hobtained
  exact ⟨_, _, link, hobtained, hm, hshows.name, hsession, root, made, hroot, hsub, hvouched⟩

end SealedDrive
