import SealedDrive.Proofs.Shown

/-!
An account is shown completely. Whoever opens a session on an account that was built finds every
share of it, and in every share the links that were put there and no others.
-/

namespace SealedDrive

/-- A share of which nothing is hidden and nothing made up, whatever clients do with it and whatever
the others do while they wait. -/
structure OpenShare.Complete (plan : Plan) (base : Server) (opened : OpenShare) (loaded : World) :
    Prop where
  /-- Every link of the share can be reached. -/
  reached : ∀ entry ∈ plan.entries, entry.shareId = opened.share.id → ∃ s,
    Traffic.Run (World.service true) opened.share (World.Serves base)
      (.start opened.arena loaded) s ∧ ∃ link ∈ s.links, entry.Shows link.node
  /-- Every link in hand shows a link of the share. -/
  shown : ∀ s, Traffic.Run (World.service true) opened.share (World.Serves base)
    (.start opened.arena loaded) s → ∀ link ∈ s.links, ∃ entry ∈ plan.entries,
      entry.shareId = opened.share.id ∧ entry.Shows link.node
  /-- Listing a folder in hand answers what was put into it, in order. -/
  listed : ∀ s, Traffic.Run (World.service true) opened.share (World.Serves base)
    (.start opened.arena loaded) s → ∀ link ∈ s.links, ∀ folder : Entry,
      folder.Shows link.node → folder.linkType = .folder → ∀ (all : Bool) (left : Nat)
      (turn : Nat → Arena × World → Arena × World),
      (∀ millis, ((Use.discipline opened.share (base.Holds opened.share.id)).beside
        (World.Serves base)).Allows (turn millis)) →
      ∃ links left' state, (link.listChildren (World.service true) opened.share all).run turn left
          (s.arena, s.server) = (some (.ok links), left', state) ∧
        List.Forall₂ (fun entry link => entry.Shows link.node)
          (plan.children opened.share.id folder.linkId all) links

/-- A share that was loaded is complete from then on. -/
theorem OpenShare.Opens.complete {plan : Plan} {account : Account} {share : PlannedShare}
    {root : Entry} {opened : OpenShare} {number : Nat} {tokens : Tokens}
    (ho : opened.Opens plan (account.sessionOf number tokens) share root)
    (hf : account.Follows plan) (hs : plan.Sound) {loaded : World}
    (hw : World.Serves account.server loaded) : opened.Complete plan account.server loaded := by
  refine ⟨?_, ?_, ?_⟩
  · intro entry he hid
    exact ho.reaches hf hs hw he (hid.trans ho.id_eq)
  · intro s hr link hm
    rw [ho.id_eq]
    exact ho.shows_link hf hs hw hr hm
  · intro s hr link hm folder hshows hfolder all left turn ht
    rw [ho.id_eq] at ht ⊢
    exact ho.run_listChildren hf hs hw hr hm hshows hfolder all ht left

/-- Every share of an account loads. -/
theorem Account.Follows.run_share {plan : Plan} {account : Account} (hf : account.Follows plan)
    (hs : plan.Sound) {share : PlannedShare} (hm : share ∈ plan.shares) (number : Nat)
    (tokens : Tokens) {world : World} (hw : World.Serves account.server world) (left : Nat) :
    ∃ opened left' loaded root,
      ((account.sessionOf number tokens).share (World.service true) share.id).run World.turn left
        world = (some (.ok opened), left', loaded) ∧ World.Serves account.server loaded ∧
      opened.Opens plan (account.sessionOf number tokens) share root := by
  obtain ⟨root, hr, hid, hroot, hnone⟩ := hs.root share hm
  have hload := (hf.meets_load hs hm hr hid hroot hnone number tokens).carryAlone
    (World.gives_service account.server)
  obtain ⟨_, -, hloaded, hpost, hcrash⟩ := hload.run World.allows_turn left hw
  obtain ⟨result, hrun⟩ : ∃ result, ((account.sessionOf number tokens).share
    (World.service true) share.id).run World.turn left world = result := ⟨_, rfl⟩
  have hw : World.Serves account.server result.2.2 := hrun ▸ hloaded
  rw [hrun]
  obtain ⟨_ | answer, left', loaded⟩ := result
  · exact (hcrash (congrArg Prod.fst hrun)).elim
  · obtain ⟨opened, rfl, ho⟩ := hpost answer (congrArg Prod.fst hrun)
    exact ⟨opened, left', loaded, root, rfl, hw, ho⟩

namespace Papers

/-- A folder with two files of which the first is thrown away. -/
def calls : List Build :=
  [.volume, .share "volume-2" "alice@example.com" "Root",
    .link "share-3" "link-4" (.folder "Papers"), .link "share-3" "link-5" (.file "draft.txt" 7),
    .link "share-3" "link-5" (.file "final.txt" 9), .trash "link-6"]

def plan : Plan := .built "alice" calls

def account : Account := .built "alice" "secret" none none calls

def share : PlannedShare := ⟨"share-3", "link-4", "alice@example.com"⟩

def folder : Entry := ⟨"share-3", "link-5", some "link-4", "Papers", .folder, 0, .active⟩

def session : Session := account.sessionOf 0 ⟨"uid", "access", "refresh"⟩

theorem calls_allowed : (Plan.start "alice").Allows calls := by
  simp only [calls, Plan.Allows, Plan.Permits, Plan.Owns, Plan.FitName, Aead.Fits,
    Plan.signersOf]
  decide

theorem follows : account.Follows plan := Account.follows_built calls_allowed "secret" none none

theorem sound : plan.Sound := Plan.sound_built calls_allowed

theorem share_planned : share ∈ plan.shares := List.mem_singleton.mpr rfl

theorem folder_planned : folder ∈ plan.entries := List.mem_cons_of_mem _ List.mem_cons_self

/-- The share loads, and the folder is reached in it. -/
theorem exists_link : ∃ world opened left loaded root s link,
    (session.share (World.service true) "share-3").run World.turn 128 world =
      (some (.ok opened), left, loaded) ∧
    World.Serves account.server loaded ∧ opened.Opens plan session share root ∧
    Traffic.Run (World.service true) opened.share (World.Serves account.server)
      (.start opened.arena loaded) s ∧
    link ∈ s.links ∧ folder.Shows link.node := by
  obtain ⟨world, hw, -⟩ := World.run_freshSession follows.unlocks
    { bench := ⟨account, [], [], []⟩ } rfl 0 World.turn 128
  obtain ⟨opened, left, loaded, root, hload, hw, ho⟩ :=
    follows.run_share sound share_planned 0 ⟨"uid", "access", "refresh"⟩ hw 128
  obtain ⟨s, hr, link, hm, hshows⟩ := ho.reaches follows sound hw folder_planned rfl
  exact ⟨world, opened, left, loaded, root, s, link, hload, hw, ho, hr, hm, hshows⟩

end Papers

theorem Account.Unlocks.addShare {account : Account} (h : account.Unlocks)
    (volumeId owner rootName : String) :
    (account.addShare volumeId owner rootName).2.Unlocks := h

end SealedDrive
