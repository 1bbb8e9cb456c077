import SealedDrive.Proofs.Complete

/-!
Resolving a path is walking down the records, whatever was looked up in the share before and
whatever others look up meanwhile.
-/

namespace SealedDrive

theorem single_inj {ε α β : Type} {x : Except ε α} {f : α → β} {y : Except ε β}
    (h : (x.map ([·])).map (·.map f) = y.map ([·])) : x.map f = y := by
  cases x <;> cases y <;> simp_all [Except.map]

/-- On a server with fixed records, whatever was done with a share before and whatever the server
sent then, a resolution of a path answers what the reference walk answers. -/
theorem resolve_eq_walk {τ τ' : Type} {share : Share} {sends : LinkRecord → Prop} {root : Node}
    (hf : Fixed sends root) {listing : Listing} (hl : Use.Lists sends listing)
    {earlier : Service τ'} {J' : τ' → Prop} {crashes : Prop}
    (he : earlier.Gives J' crashes (Use.terms share sends)) {before : τ'} (hb : J' before)
    {s : Traffic τ'} (hs : Traffic.Run earlier share J' (.start (.ofRoot root) before) s)
    {service : Service τ} {J : τ → Prop}
    (hg : service.Gives J False (Use.listingTerms share listing)) {server : τ} (hj : J server)
    {turn : Nat → Arena × τ → Arena × τ}
    (ht : ∀ millis, ((Use.discipline share sends).beside J).Allows (turn millis))
    (hn : share.session.timeout = none) {link : Link} (hm : link ∈ s.links) (path : String)
    (all : Bool) (left : Nat) :
    ∃ answer left' arena server', (link.resolve service share path all).run turn left
        (s.arena, server) = (some answer, left', arena, server') ∧
      answer.map (Link.spot arena) = (do
        let segments ← Path.segments path
        (link.spot s.arena).walk share.session listing all [] segments) := by
  obtain ⟨log, u, hsteps, -, hu, hsub⟩ := Traffic.use_of_run he hf.isRoot hb hs
  obtain ⟨hmirror, -⟩ := (Use.start_mirrors hf.isRoot).steps hf hsteps
  unfold Link.resolve
  cases hp : Path.segments path with
  | error error => exact ⟨_, _, _, _, rfl, rfl⟩
  | ok segments =>
    have hwalk : ((Link.walk share all [] link segments).run.carry service).Meets
        ((Use.discipline share sends).beside J) False (fun r => Use.Tells share sends root
          (((link.spot u.arena).walk share.session listing all [] segments).map ([·]))
          (r.map ([·]))) u :=
      (Use.tells_walk hf hl hmirror (hsub hm)).carry hg
    simp only [Session.bounded, hn]
    obtain ⟨v, -, hd, hpost, hcrash⟩ := hwalk.run ht left (s := (s.arena, server))
      ⟨⟨hu, hmirror.proper⟩, hj⟩
    rcases hrun : ((Link.walk share all [] link segments).run.carry service).run turn left
      (s.arena, server) with ⟨_ | answer, left', arena, server'⟩
    · exact (hcrash (by rw [hrun])).elim
    · rw [hrun] at hd hpost
      obtain ⟨⟨hv, -⟩, -⟩ := hd
      have hspots := (hpost answer rfl).spots
      refine ⟨answer, left', arena, server', rfl, ?_⟩
      rw [hv, hu] at hspots
      exact single_inj hspots

/-- Of the two files in the folder, the second has the name. -/
theorem Papers.walk_final {opened : OpenShare} {root : Entry} {spot : Spot}
    (ho : opened.Opens Papers.plan Papers.session Papers.share root)
    (hshows : Papers.folder.Shows spot.node) :
    ∃ final, spot.walk Papers.session (Papers.account.server.findChildren Papers.share.id) true []
      ["final.txt"] = .ok final ∧ final.node.name = "final.txt" := by
  obtain ⟨spots, hspots, hforall⟩ := ho.shows_children Papers.follows Papers.sound hshows true
  have hfolder : spot.node.isFolder = true := by
    unfold Node.isFolder
    rw [hshows.linkType]
    rfl
  have hchildren : Papers.plan.children Papers.share.id Papers.folder.linkId true =
    [⟨"share-3", "link-6", some "link-5", "draft.txt", .file, 7, .trashed⟩,
      ⟨"share-3", "link-7", some "link-5", "final.txt", .file, 9, .active⟩] := rfl
  rw [hchildren] at hforall
  obtain ⟨draft, others, hdraft, hothers, rfl⟩ := List.forall₂_cons_left_iff.mp hforall
  obtain ⟨final, after, hfinal, -, rfl⟩ := List.forall₂_cons_left_iff.mp hothers
  have hnot : ¬ draft.node.name = "final.txt" := by
    rw [hdraft.name]
    decide
  refine ⟨final, ?_, hfinal.name⟩
  unfold Spot.walk
  rw [hfolder]
  simp only [Papers.session, hspots, Bool.not_true, Bool.false_eq_true, if_false, List.find?_cons,
    hnot, hfinal.name, decide_true, decide_false]
  rfl

/-- In a folder that was built, the name of a file leads to that file. -/
theorem resolve_eq_walk_papers :
    ∃ (opened : OpenShare) (s : Traffic World) (link child : Link) (left : Nat)
      (state : Arena × World), link ∈ s.links ∧ link.name = "Papers" ∧
      (link.resolve (World.service true) opened.share "final.txt" true).run
        (fun millis s => (s.1, s.2.turn millis)) 128 (s.arena, s.server) =
          (some (.ok child), left, state) ∧ child.name = "final.txt" := by
  obtain ⟨world, opened, left, loaded, root, s, link, hload, hw, ho, hr, hm, hshows⟩ :=
    Papers.exists_link
  have hserves : World.Serves Papers.account.server s.server := by
    obtain ⟨-, -, -, -, h⟩ := ho.mirrors Papers.follows Papers.sound hw hr
    exact h
  have htimeout : opened.share.session.timeout = none := by
    rw [ho.session_eq]
    rfl
  have hlist : (World.service true).Gives (World.Serves Papers.account.server) False
      (Use.listingTerms opened.share (Papers.account.server.findChildren Papers.share.id)) :=
    ho.id_eq ▸ Server.gives_listing
  obtain ⟨answer, left', arena, server', hrun, hanswer⟩ :=
    resolve_eq_walk (ho.fixed Papers.follows Papers.sound)
      (Papers.account.server.lists_findChildren Papers.share.id) (ho.id_eq ▸ Server.gives_use) hw
      (ho.arena_eq ▸ hr) hlist hserves
      (fun millis => Discipline.Allows.beside (World.allows_turn millis)) htimeout hm "final.txt"
      true 128
  have hspot : Papers.folder.Shows (link.spot s.arena).node := Link.shows_spot_iff.mpr hshows
  obtain ⟨final, hwalk, hname⟩ := Papers.walk_final ho hspot
  have hsegments : Path.segments "final.txt" = .ok ["final.txt"] := rfl
  rw [hsegments, ho.session_eq] at hanswer
  have hanswer : answer.map (Link.spot arena) = .ok final := hanswer.trans hwalk
  cases answer with
  | error error => cases hanswer
  | ok child =>
    have hchild : child.spot arena = final := Except.ok.inj hanswer
    refine ⟨opened, s, link, child, left', (arena, server'), hm, hshows.name, hrun, ?_⟩
    exact (congrArg (·.node.name) hchild).trans hname

end SealedDrive
