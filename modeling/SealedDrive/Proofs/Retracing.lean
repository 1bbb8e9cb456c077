import SealedDrive.Proofs.Finding
import SealedDrive.Proofs.Segments
import SealedDrive.Proofs.SideBySide

/-!
Paths lead back. A path is told from below, by the parents that the tree of a share knows, and
resolved from above, by the names in the listings of the server. The two agree where nothing on the
way is in doubt: every link on it is listed, has a name that a path can name, and is the first of
that name in its folder. On a server with fixed records the path of such a link then leads back to
the link, from the root of its share and from the shares of the account.
-/

namespace SealedDrive

/-! ## The first of a name -/

/-- All of a list open, and what one of them opens to is the first of its name. -/
structure FirstNamed {ε α β : Type} (f : α → Except ε β) (name : β → String) (items : List α)
    (found : β) : Prop where
  opens : ∀ item ∈ items, ∃ opened, f item = .ok opened
  first : ∃ before item after, items = before ++ item :: after ∧ f item = .ok found ∧
    ∀ other ∈ before, ∀ opened, f other = .ok opened → name opened ≠ name found

section

variable {ε α β : Type} {f : α → Except ε β} {items : List α}

theorem exists_map_ok (h : ∀ item ∈ items, ∃ opened, f item = .ok opened) :
    ∃ opened : List β, items.map f = opened.map .ok := by
  induction items with
  | nil => exact ⟨[], rfl⟩
  | cons item rest ih =>
    obtain ⟨⟨first, hfirst⟩, hrest⟩ := List.forall_mem_cons.mp h
    obtain ⟨opened, hopened⟩ := ih hrest
    exact ⟨first :: opened, by rw [List.map_cons, List.map_cons, hfirst, hopened]⟩

theorem mapM_eq_ok {opened : List β} (h : items.map f = opened.map .ok) :
    items.mapM f = .ok opened := by
  induction items generalizing opened with
  | nil =>
    rw [List.map_eq_nil_iff.mp h.symm]
    rfl
  | cons item rest ih =>
    obtain ⟨first, opened, rfl, hfirst, hopened⟩ := List.map_eq_cons_iff.mp h.symm
    rw [List.mapM_cons, ← hfirst, ih hopened.symm]
    rfl

/-- So it is found under its name. -/
theorem FirstNamed.exists_find? {name : β → String} {found : β}
    (h : FirstNamed f name items found) : ∃ opened : List β,
      items.map f = opened.map .ok ∧ opened.find? (name · = name found) = some found := by
  obtain ⟨before, item, after, rfl, hitem, hbefore⟩ := h.first
  obtain ⟨hopens, hafter⟩ := List.forall_mem_append.mp h.opens
  obtain ⟨others, hothers⟩ := exists_map_ok hopens
  obtain ⟨rest, hrest⟩ := exists_map_ok (List.forall_mem_cons.mp hafter).2
  have hnone : others.find? (name · = name found) = none := by
    refine List.find?_eq_none.mpr fun opened hm hname => ?_
    have hok : Except.ok opened ∈ before.map f := hothers ▸ List.mem_map_of_mem hm
    obtain ⟨other, hother, ho⟩ := List.mem_map.mp hok
    exact hbefore other hother opened ho (of_decide_eq_true hname)
  refine ⟨others ++ found :: rest, ?_, ?_⟩
  · rw [List.map_append, List.map_append, List.map_cons, List.map_cons, hothers, hitem, hrest]
  · rw [List.find?_append, hnone, Option.none_or]
    exact List.find?_cons_of_pos (decide_eq_true rfl)

end

/-! ## The way down -/

/-- A name leads from a folder to a link in it: all that is listed there opens, and the link is the
first of its name. -/
structure Spot.LeadsTo (session : Session) (listing : Listing) (all : Bool) (folder child : Spot) :
    Prop where
  isFolder : folder.node.isFolder = true
  named : Path.IsName child.node.name
  first : ∃ records, listing folder.node.id all = .ok records ∧
    FirstNamed (folder.child session) (·.node.name) records child

/-- So a walk goes on there. -/
theorem Spot.LeadsTo.walk_cons {session : Session} {listing : Listing} {all : Bool}
    {folder child : Spot} (h : folder.LeadsTo session listing all child)
    (walked rest : List String) :
    folder.walk session listing all walked (child.node.name :: rest) =
      child.walk session listing all (walked ++ [child.node.name]) rest := by
  obtain ⟨records, hlisting, hfirst⟩ := h.first
  obtain ⟨spots, hspots, hfind⟩ := hfirst.exists_find?
  have hchildren : folder.children session listing all = .ok spots := by
    rw [Spot.children, hlisting]
    exact mapM_eq_ok hspots
  rw [Spot.walk, h.isFolder, hchildren]
  simp only [Bool.not_true, Bool.false_eq_true, if_false, hfind]

/-- Names lead all the way from the root down to a handle. -/
def Arena.LeadsTo (arena : Arena) (session : Session) (listing : Listing) (all : Bool)
    (handle : Nat) : Prop :=
  ∀ steps child parent, arena.ascend steps handle = some child →
    (arena.nodeAt child).parent = some parent →
    ((arena.linkAt parent).spot arena).LeadsTo session listing all ((arena.linkAt child).spot arena)

theorem Arena.LeadsTo.parent {arena : Arena} {session : Session} {listing : Listing} {all : Bool}
    {handle parent : Nat} (h : arena.LeadsTo session listing all handle)
    (hp : (arena.nodeAt handle).parent = some parent) :
    arena.LeadsTo session listing all parent := by
  intro steps child above ha
  refine h (steps + 1) child above ?_
  simp only [Arena.ascend, hp]
  exact ha

namespace Use

variable {share : Share} {sends : LinkRecord → Prop} {root : Node} {listing : Listing} {all : Bool}
  {u : Use} {link : Link}

/-- By induction up to the root: the names of a path are those that lead down to the link. -/
theorem Mirrors.exists_names (hf : Fixed sends root) (hu : u.Mirrors share sends root) {h : Nat}
    (hh : h < u.arena.size) (hway : u.arena.LeadsTo share.session listing all h) :
    ∃ names, (∀ name ∈ names, Path.IsName name) ∧
      (u.arena.linkAt h).path u.arena = Path.join (root.name :: names) ∧
      ∀ walked rest, (Spot.ofRoot root).walk share.session listing all walked (names ++ rest) =
        ((u.arena.linkAt h).spot u.arena).walk share.session listing all (walked ++ names)
          rest := by
  induction h using Nat.strong_induction_on with
  | _ h ih =>
    rcases Nat.eq_zero_or_pos h with rfl | hpos
    · have hspot : (u.arena.linkAt 0).spot u.arena = .ofRoot root := hu.spot_rootLink hf
      refine ⟨[], List.forall_mem_nil _, ?_, fun walked rest => ?_⟩
      · simp only [Link.path, Arena.linkAt, hu.root, hf.isRoot, Arena.climb_none]
        rfl
      · rw [hspot, List.append_nil]
        rfl
    · obtain ⟨p, hp, hpb, hn, -, -, -⟩ := hu.exists_parent hf hpos hh
      obtain ⟨names, hnames, hpath, hwalk⟩ := ih p hp hpb (hway.parent hn)
      -- The walk to the parent has this name still to go.
      have hleads := hway 0 h p rfl hn
      have hchild : (u.arena.linkAt h).path u.arena =
          (u.arena.linkAt p).path u.arena ++ "/" ++ (u.arena.nodeAt h).name :=
        Arena.Descends.path_child (hu.descends hf) hn hpb
      refine ⟨names ++ [(u.arena.nodeAt h).name], ?_, ?_, fun walked rest => ?_⟩
      · exact List.forall_mem_append.mpr ⟨hnames, List.forall_mem_singleton.mpr hleads.named⟩
      · rw [hchild, hpath, ← Path.join_append_singleton (List.cons_ne_nil _ _)]
        rfl
      · rw [List.append_assoc, hwalk, ← List.append_assoc]
        exact hleads.walk_cons _ rest

/-- A walk from the root tells where the names lead. -/
theorem Mirrors.tells_walk (hf : Fixed sends root) (hl : Lists sends listing)
    (hu : u.Mirrors share sends root) {names : List String} {spot : Spot}
    (hwalk : (Spot.ofRoot root).walk share.session listing all [] names = .ok spot) :
    (Link.walk share all [] u.arena.rootLink names).run.Meets (discipline share sends)
      (listingTerms share listing)
      (fun answer => Tells share sends root (.ok [spot]) (answer.map ([·]))) u := by
  refine (Use.tells_walk hf hl hu hu.rootLink_mem).mono fun answer v _ h => ?_
  rwa [hu.spot_rootLink hf, hwalk] at h

/-- An answer that tells what a link tells is that link. -/
theorem Tells.eq_ok {answer : Except DriveError Link}
    (h : Tells share sends root (.ok [link.spot u.arena]) (answer.map ([·])) u)
    (hl : link ∈ u.links) : answer = .ok link := by
  have hspots := h.spots
  cases answer with
  | error error => cases hspots
  | ok link' =>
    have hl' : link' ∈ u.links := h.handsOut [link'] rfl List.mem_cons_self
    have hspot : link'.spot u.arena = link.spot u.arena := by simpa [Except.map] using hspots
    have hid : link'.id = link.id := congrArg (·.node.id) hspot
    have hcur := h.mirrors.current link hl
    have hcur' := h.mirrors.current link' hl'
    rw [hcur, hcur'] at hid
    have hhandle := h.mirrors.proper.sound.handle_inj (h.mirrors.handle_lt hl')
      (h.mirrors.handle_lt hl) hid
    rw [hcur', hcur, hhandle]

end Use

/-! ## From the root of the share -/

/-- A link that a client holds, or that stands in the tree. -/
def Traffic.Has {τ : Type} (s : Traffic τ) (link : Link) : Prop :=
  link ∈ s.links ∨ ∃ handle < s.arena.size, link = s.arena.linkAt handle

section

variable {τ τ' : Type} {share : Share} {sends : LinkRecord → Prop} {root : Node}
  {reply : (request : Request) → request.Reply} {service : Service τ} {J : τ → Prop}
  {all : Bool} {u : Use} {link : Link}

theorem gives_listing (hg : service.Gives J False (.fixed reply)) :
    service.Gives J False (Use.listingTerms share (share.listing reply)) := by
  intro request ha
  cases request with
  | listChildren shareId linkId all =>
    obtain rfl : shareId = share.id := ha
    exact hg _ rfl
  | _ => cases ha

/-- The names that lead down to a link are answered with the link. -/
theorem meets_resolve_names (hf : Fixed sends root) (hl : Use.Lists sends (share.listing reply))
    (hg : service.Gives J False (.fixed reply)) (hu : u.Mirrors share sends root)
    (hm : link ∈ u.links) {names : List String} (hnames : ∀ name ∈ names, Path.IsName name)
    (hwalk : (Spot.ofRoot root).walk share.session (share.listing reply) all [] names =
      .ok (link.spot u.arena)) :
    (share.resolve service (Path.join names) all).Meets ((Use.discipline share sends).beside J)
      False (fun answer _ => answer = .ok link ∨ TimedOut share.session.timeout answer) u := by
  intro s ⟨⟨ha, _⟩, _⟩
  show (Link.resolve service share s.1.rootLink (Path.join names) all).Meets _ _ _ u
  rw [Link.resolve, Path.segments_join hnames, ← ha]
  refine meets_bounded ?_ fun span hspan _ _ => .inr ⟨span, hspan, rfl⟩
  refine ((hu.tells_walk hf hl hwalk).carry (gives_listing hg)).mono id fun answer v hv h => .inl ?_
  rw [← hu.spot_eq hf hv hm] at h
  exact h.eq_ok (Use.links_subset_of_step hv hm)

/-! ## From the shares of the account -/

/-- A link like this was found in the share. -/
def Share.Finds (share : Share) (spot : Spot) (answer : Except DriveError (OpenShare × Link)) :
    Prop :=
  ∃ arena found, answer = .ok (⟨share, arena⟩, found) ∧ found.spot arena = spot

/-- Walking down from a share that was just loaded. -/
theorem answerBy_walk (hf : Fixed sends root) (hl : Use.Lists sends (share.listing reply))
    {spot : Spot} {names : List String}
    (hwalk : (Spot.ofRoot root).walk share.session (share.listing reply) all [] names = .ok spot) :
    ∃ found arena, (Link.walk share all [] (Arena.ofRoot root).rootLink names).run.answerBy reply
        (.ofRoot root) = (.ok found, arena) ∧ found.spot arena = spot := by
  have hstart : (Use.start root).Mirrors share sends root := Use.start_mirrors hf.isRoot
  obtain ⟨v, -, ⟨ha, -⟩, htells⟩ := (hstart.tells_walk hf hl hwalk).answerBy (.ofRoot root)
    ⟨rfl, hstart.proper⟩ RootCall.replies_listing
  have hspots := htells.spots
  rw [ha] at hspots
  have hroot : (Use.start root).arena.rootLink = (Arena.ofRoot root).rootLink := rfl
  rw [hroot] at hspots
  rcases hrun : (Link.walk share all [] (Arena.ofRoot root).rootLink names).run.answerBy reply
    (.ofRoot root) with ⟨answer, arena⟩
  rw [hrun] at hspots
  cases answer with
  | error error => cases hspots
  | ok found => exact ⟨found, arena, rfl, by simpa [Except.map] using hspots⟩

/-- Of the shares, which all load, the first with the name of the root is walked. -/
theorem meets_pick_first (hf : Fixed sends root) (hl : Use.Lists sends (share.listing reply))
    (hg : service.Gives J False (.fixed reply)) {spot : Spot} {names : List String}
    (hwalk : (Spot.ofRoot root).walk share.session (share.listing reply) all [] names = .ok spot)
    {metadata : List ShareMetadata}
    (hfirst : FirstNamed (fun entry => share.session.shareBy reply entry.shareId)
      (·.arena.root.name) metadata ⟨share, .ofRoot root⟩)
    {listing : Except DriveError ShareListing}
    (h : Fetch.Told share.session.lister.policy (share.session.ComesTo reply False)
      (metadata.map (·.shareId)) listing) :
    (Session.pick service root.name names all (listing.map Gathered.parts)).Meets (.standing J)
      False (fun answer _ => share.Finds spot answer) () := by
  refine (meets_pick_told hg h).mono id fun answer _ _ ⟨results, hresults, hfinds⟩ => ?_
  obtain ⟨loaded, hloaded, hfind⟩ := hfirst.exists_find?
  obtain rfl : results = loaded.map .ok := by
    rw [Fetch.eq_of_orLost hresults, List.map_map, ← hloaded]
    rfl
  have herrors : Session.errorsOf (loaded.map .ok) = [] := by simp [Session.errorsOf]
  have hall : Session.loadedOf (loaded.map .ok) = loaded := by
    simp [Session.loadedOf, Except.toOption]
  rw [hfinds.found (.inr herrors) _ (hall.symm ▸ hfind)]
  obtain ⟨found, arena, hrun, hspot⟩ := answerBy_walk hf hl hwalk
  exact ⟨arena, found, by simp only [OpenShare.walkBy, hrun], hspot⟩

section

variable {server : τ} {spot : Spot} {names : List String} {metadata : List ShareMetadata}

/-- A link like this, or that the time of the whole or of the listing is up. -/
def Share.FindsInTime (share : Share) (spot : Spot)
    (answer : Except DriveError (OpenShare × Link)) : Prop :=
  share.Finds spot answer ∨ TimedOut share.session.timeout answer ∨
    TimedOut share.session.lister.deadline answer

/-- So the rest goes on from whatever the listing answers in its time. -/
theorem meets_pick_inTime (hf : Fixed sends root) (hl : Use.Lists sends (share.listing reply))
    (hg : service.Gives J False (.fixed reply))
    (hwalk : (Spot.ofRoot root).walk share.session (share.listing reply) all [] names = .ok spot)
    (hfirst : FirstNamed (fun entry => share.session.shareBy reply entry.shareId)
      (·.arena.root.name) metadata ⟨share, .ofRoot root⟩)
    {listing : Except DriveError ShareListing}
    (h : Fetch.Told share.session.lister.policy (share.session.ComesTo reply False)
      (metadata.map (·.shareId)) listing ∨ TimedOut share.session.lister.deadline listing) :
    (Session.pick service root.name names all (listing.map Gathered.parts)).Meets (.standing J)
      False (fun answer _ => share.FindsInTime spot answer) () := by
  rcases h with h | ⟨span, hspan, rfl⟩
  · exact (meets_pick_first hf hl hg hwalk hfirst h).mono id fun _ _ _ h => .inl h
  · exact .inr (.inr ⟨span, hspan, rfl⟩)

variable [Crowded τ]

theorem meets_resolveNames_first (hf : Fixed sends root)
    (hl : Use.Lists sends (share.listing reply)) (hg : service.Gives J False (.fixed reply))
    (hj : J server) (hcrowd : ∀ crowd server, J server → J (Crowded.setCrowd crowd server))
    (hwalk : (Spot.ofRoot root).walk share.session (share.listing reply) all [] names = .ok spot)
    (hm : reply (.listShares all) = .ok metadata)
    (hfirst : FirstNamed (fun entry => share.session.shareBy reply entry.shareId)
      (·.arena.root.name) metadata ⟨share, .ofRoot root⟩) {patience : Nat} :
    (share.session.resolveNames service root.name names all patience).Meets (.standing J) True
      (fun answer _ => share.FindsInTime spot answer) () :=
  .bind (.map ((meets_listShares_told_or_timedOut hg hj hcrowd hm).mono id fun _ _ _ h =>
    (meets_pick_inTime hf hl hg hwalk hfirst h).mono False.elim fun _ _ _ h => h))

theorem meets_resolve_first (hf : Fixed sends root) (hl : Use.Lists sends (share.listing reply))
    (hg : service.Gives J False (.fixed reply)) (hj : J server)
    (hcrowd : ∀ crowd server, J server → J (Crowded.setCrowd crowd server))
    (hwalk : (Spot.ofRoot root).walk share.session (share.listing reply) all [] names = .ok spot)
    (hm : reply (.listShares all) = .ok metadata)
    (hfirst : FirstNamed (fun entry => share.session.shareBy reply entry.shareId)
      (·.arena.root.name) metadata ⟨share, .ofRoot root⟩)
    {path : String} (hsegments : Path.segments path = .ok (root.name :: names)) :
    (share.session.resolve service path all).Meets (.standing J) True
      (fun answer _ => share.FindsInTime spot answer) () := by
  unfold Session.resolve
  simp only [hsegments]
  exact meets_bounded (meets_resolveNames_first hf hl hg hj hcrowd hwalk hm hfirst)
    fun span hspan _ _ => .inr (.inl ⟨span, hspan, rfl⟩)

theorem settles_resolve_first (hf : Fixed sends root) (hl : Use.Lists sends (share.listing reply))
    (hg : service.Gives J False (.fixed reply)) (hj : J server)
    (hcrowd : ∀ crowd server, J server → J (Crowded.setCrowd crowd server))
    (hwalk : (Spot.ofRoot root).walk share.session (share.listing reply) all [] names = .ok spot)
    (hm : reply (.listShares all) = .ok metadata)
    (hfirst : FirstNamed (fun entry => share.session.shareBy reply entry.shareId)
      (·.arena.root.name) metadata ⟨share, .ofRoot root⟩)
    {path : String} (hsegments : Path.segments path = .ok (root.name :: names)) :
    Activity.Settles J False (share.FindsInTime spot) fun patience =>
      share.session.resolve service path all patience := by
  unfold Session.resolve
  simp only [hsegments]
  have hlisting := (settles_listShares share.session hg hj hcrowd).answers fun _ =>
    meets_listShares_told_or_timedOut hg hj hcrowd hm
  have hnames := Session.settles_resolveNames (hlisting.mono id fun _ h =>
    meets_pick_inTime hf hl hg hwalk hfirst h)
  exact Session.settles_bounded hnames
    (fun _ => meets_resolveNames_first hf hl hg hj hcrowd hwalk hm hfirst)
    (Session.shortens_resolveNames service share.session root.name names all)
    fun span hspan => .inr (.inl ⟨span, hspan, rfl⟩)

end

end

/-- On a server with fixed records, the path of a link to which names lead down from the root leads
back to it: without the name of the root it is answered with this very link, from the root of the
share, and with that name, among shares that all load, with a link like this in the first share of
the name; with enough patience there is an answer. -/
theorem path_leads_back {τ τ' : Type} [Crowded τ] {share : Share} {sends : LinkRecord → Prop}
    {root : Node} (hf : Fixed sends root) {reply : (request : Request) → request.Reply}
    (hl : Use.Lists sends (share.listing reply))
    {earlier : Service τ'} {J' : τ' → Prop} {crashes : Prop}
    (he : earlier.Gives J' crashes (Use.terms share sends)) {before : τ'} (hb : J' before)
    {s : Traffic τ'} (hs : Traffic.Run earlier share J' (.start (.ofRoot root) before) s)
    {service : Service τ} {J : τ → Prop} (hg : service.Gives J False (.fixed reply)) {server : τ}
    (hj : J server) (hcrowd : ∀ crowd server, J server → J (Crowded.setCrowd crowd server))
    {turn : Nat → Arena × τ → Arena × τ}
    (ht : ∀ millis, ((Use.discipline share sends).beside J).Allows (turn millis))
    {link : Link} (hm : s.Has link) {all : Bool}
    (hway : s.arena.LeadsTo share.session (share.listing reply) all link.handle) (left : Nat) :
    ∃ rest, (link.path s.arena = root.name ∧ rest = "" ∨
        link.path s.arena = root.name ++ "/" ++ rest) ∧
      (∃ answer, ((share.resolve service rest all).run turn left (s.arena, server)).1 =
          some answer ∧ (answer = .ok link ∨ TimedOut share.session.timeout answer)) ∧
      ∀ metadata, reply (.listShares all) = .ok metadata →
        FirstNamed (fun entry => share.session.shareBy reply entry.shareId) (·.arena.root.name)
          metadata ⟨share, .ofRoot root⟩ → Path.IsName root.name →
        ∃ names, Path.segments (link.path s.arena) = .ok (root.name :: names) ∧
          (Fetch.Ends (share.session.share service) J share.session.lister
            (metadata.map (·.shareId)) fun listing =>
              (Session.pick service root.name names all (listing.map Gathered.parts)).Meets
                (.standing J) False (fun answer _ => share.Finds (link.spot s.arena) answer) ()) ∧
          (share.session.resolve service (link.path s.arena) all).Meets (.standing J) True
            (fun answer _ => share.Finds (link.spot s.arena) answer ∨
              TimedOut share.session.timeout answer ∨
              TimedOut share.session.lister.deadline answer) () ∧
          Activity.Settles J False (fun answer => share.Finds (link.spot s.arena) answer ∨
              TimedOut share.session.timeout answer ∨
              TimedOut share.session.lister.deadline answer)
            fun patience => share.session.resolve service (link.path s.arena) all patience := by
  obtain ⟨log, u, hsteps, hproper, hu, hsub⟩ := Traffic.use_of_run he hf.isRoot hb hs
  obtain ⟨hmirror, -⟩ := (Use.start_mirrors hf.isRoot).steps hf hsteps
  rw [← hu] at hway ⊢
  have hlink : link ∈ u.links := by
    rcases hm with hm | ⟨handle, hlt, rfl⟩
    · exact hsub hm
    · exact hu ▸ hproper.present (hu ▸ hlt)
  have hcurrent := hmirror.current link hlink
  obtain ⟨names, hnames, hpath, hwalk⟩ :=
    hmirror.exists_names hf (hmirror.handle_lt hlink) hway
  rw [← hcurrent] at hpath hwalk
  have hwalk := hwalk [] []
  rw [List.append_nil, Spot.walk] at hwalk
  refine ⟨Path.join names, ?_, ?_, fun metadata hmetadata hfirst hname => ?_⟩
  · -- Only the root has no names below it.
    by_cases hnil : names = []
    · subst hnil
      exact .inl ⟨hpath, rfl⟩
    · exact .inr (hpath.trans (Path.join_cons hnil))
  · obtain ⟨v, -, -, hpost, hcrash⟩ :=
      (meets_resolve_names hf hl hg hmirror hlink hnames hwalk).run ht left
        (s := (u.arena, server)) ⟨⟨rfl, hproper⟩, hj⟩
    cases hrun : ((share.resolve service (Path.join names) all).run turn left
      (u.arena, server)).1 with
    | none => exact (hcrash hrun).elim
    | some answer => exact ⟨answer, rfl, hpost answer hrun⟩
  · have hsegments : Path.segments (link.path u.arena) = .ok (root.name :: names) := by
      rw [hpath]
      exact Path.segments_join (List.forall_mem_cons.mpr ⟨hname, hnames⟩)
    refine ⟨names, hsegments, ?_, ?_, ?_⟩
    · exact Fetch.ends_of_loads (meets_share_fixed share.session hg) hj fun listing h =>
        meets_pick_first hf hl hg hwalk hfirst h
    · exact meets_resolve_first hf hl hg hj hcrowd hwalk hmetadata hfirst hsegments
    · exact settles_resolve_first hf hl hg hj hcrowd hwalk hmetadata hfirst hsegments

/-! ### Two folders of one name -/

namespace Twins

/-- Listed after the folder, and of its name. -/
def second : LinkRecord := Ring.sealed "link-6" (some "link-4") "Papers"

def children (linkId : String) : List LinkRecord :=
  if linkId = "link-4" then [Pair.record, second] else []

/-- A server with one share that has two folders of one name. -/
def reply : (request : Request) → request.Reply
  | .listShares _ => .ok [Ring.share.record.metadata]
  | .getShare _ => .ok Ring.share.record
  | .getLink _ _ => .ok (Ring.sealed "link-4" none "Root")
  | .listChildren _ linkId _ => .ok (children linkId)
  | _ => .error .unauthorized

def service : Service Unit := fun request => .done (reply request)

/-- Before there was the second. -/
def earlier : Service Unit := fun request => .done (Pair.reply request)

theorem sends_iff {r : LinkRecord} :
    Ring.share.Sends reply r ↔ r = Pair.record ∨ r = second := by
  constructor
  · rintro ⟨linkId, all, records, hl, hm⟩
    cases hl
    have hm : r ∈ children linkId := hm
    unfold children at hm
    split at hm
    · simpa using hm
    · exact absurd hm List.not_mem_nil
  · intro hr
    exact ⟨"link-4", true, [Pair.record, second], rfl, by simpa using hr⟩

theorem gives_earlier :
    earlier.Gives (fun _ => True) False (Use.terms Ring.share (Ring.share.Sends reply)) := by
  intro request _
  cases request with
  | getLink => exact fun record h => nomatch h
  | listChildren shareId linkId all =>
    intro records h record hm
    cases h
    refine sends_iff.mpr (.inl ?_)
    have hm : record ∈ Pair.children linkId := hm
    unfold Pair.children at hm
    split at hm
    · exact List.mem_singleton.mp hm
    · exact absurd hm List.not_mem_nil
  | _ => trivial

variable {root folder : Node}

theorem fixed (hr : Ring.Opens "link-4" none "Root" none root) :
    Fixed (Ring.share.Sends reply) root where
  isRoot := hr.parent_eq
  unique h h' he := by
    rcases sends_iff.mp h with rfl | rfl <;> rcases sends_iff.mp h' with rfl | rfl
    · rfl
    · exact absurd he (by decide)
    · exact absurd he (by decide)
    · rfl
  root h hid := by
    rw [hr.id_eq] at hid
    rcases sends_iff.mp h with rfl | rfl <;> exact absurd hid (by decide)

/-- What is sealed for a place below the root opens there. -/
theorem child_root (hr : Ring.Opens "link-4" none "Root" none root) (arena : Arena)
    {linkId : String} {parent : Option Nat} {node : Node}
    (ho : Ring.Opens linkId (some "link-4") "Papers" parent node) :
    ((⟨0, root⟩ : Link).spot arena).child Ring.share.session
        (Ring.sealed linkId (some "link-4") "Papers") =
      .ok ⟨(⟨0, root⟩ : Link).path arena ++ "/" ++ node.name, { node with parent := none }⟩ := by
  have hnamed : (Ring.sealed linkId (some "link-4") "Papers").parentLinkId =
      some (Link.id ⟨0, root⟩) := congrArg some hr.id_eq.symm
  have hopens : Node.derive Ring.share.session parent root.nodeKeyring
      (Ring.sealed linkId (some "link-4") "Papers") = .ok node := by
    rw [hr.nodeKeyring]
    exact ho.derive
  rw [Link.child_spot, if_neg (not_not_intro hnamed), Node.derive_bare hopens]
  rfl

theorem path_root (hr : Ring.Opens "link-4" none "Root" none root) :
    (⟨0, root⟩ : Link).path (Ring.arena root folder) = "Root" := by
  simp only [Link.path, hr.parent_eq, Arena.climb_none]
  exact hr.name_eq ▸ Path.join_singleton root.name

theorem path_folder (hr : Ring.Opens "link-4" none "Root" none root)
    (hf : Ring.Opens "link-5" (some "link-4") "Papers" (some 0) folder) :
    (⟨1, folder⟩ : Link).path (Ring.arena root folder) =
      (⟨0, root⟩ : Link).path (Ring.arena root folder) ++ "/" ++ folder.name := by
  have hclimb : (Ring.arena root folder).climb (Ring.arena root folder).size (some 0) =
      root :: (Ring.arena root folder).climb 1 root.parent := rfl
  simp only [Link.path, hf.parent_eq, hclimb, hr.parent_eq, Arena.climb_none]
  exact (Path.join_cons (List.cons_ne_nil _ _)).trans
    (congrArg (root.name ++ "/" ++ ·) (Path.join_singleton folder.name))

/-- Of the two folders, the name leads to the one that is listed first. -/
theorem leadsTo_folder (hr : Ring.Opens "link-4" none "Root" none root)
    (hf : Ring.Opens "link-5" (some "link-4") "Papers" (some 0) folder) (all : Bool) :
    ((⟨0, root⟩ : Link).spot (Ring.arena root folder)).LeadsTo Ring.share.session
      (Ring.share.listing reply) all ((⟨1, folder⟩ : Link).spot (Ring.arena root folder)) := by
  have hfit : Plan.FitName "Papers" := by
    simp only [Plan.FitName, Aead.Fits]
    decide
  obtain ⟨other, ho⟩ := Ring.exists_opens "link-6" (some "link-4") hfit none
  have hchild : ((⟨0, root⟩ : Link).spot (Ring.arena root folder)).child Ring.share.session
      Pair.record = .ok ((⟨1, folder⟩ : Link).spot (Ring.arena root folder)) := by
    rw [Pair.record, child_root hr _ hf, Link.spot, path_folder hr hf]
  refine ⟨hr.isFolder, ?_, [Pair.record, second], ?_, ?_, [], Pair.record, [second], rfl, hchild,
    fun _ hm => absurd hm List.not_mem_nil⟩
  · show Path.IsName folder.name
    rw [hf.name_eq]
    exact ⟨by decide, by decide⟩
  · show reply (.listChildren Ring.share.id root.id all) = _
    rw [hr.id_eq]
    rfl
  · exact List.forall_mem_cons.mpr
      ⟨⟨_, hchild⟩, List.forall_mem_singleton.mpr ⟨_, child_root hr _ ho⟩⟩

theorem arena_leadsTo (hr : Ring.Opens "link-4" none "Root" none root)
    (hf : Ring.Opens "link-5" (some "link-4") "Papers" (some 0) folder) (all : Bool) :
    (Ring.arena root folder).LeadsTo Ring.share.session (Ring.share.listing reply) all 1 := by
  intro steps child parent ha hp
  cases steps with
  | zero =>
    cases ha
    have hp : folder.parent = some parent := hp
    rw [hf.parent_eq] at hp
    cases hp
    exact leadsTo_folder hr hf all
  | succ steps =>
    have ha : folder.parent.bind ((Ring.arena root folder).ascend steps) = some child := ha
    rw [hf.parent_eq, Option.bind_some] at ha
    cases steps with
    | zero =>
      cases ha
      have hp : root.parent = some parent := hp
      rw [hr.parent_eq] at hp
      cases hp
    | succ steps =>
      have htop : ((Ring.arena root folder).nodeAt 0).parent = none := hr.parent_eq
      rw [Arena.ascend_top htop] at ha
      cases ha

/-- The folder was listed before there was the second. -/
theorem exists_run (hr : Ring.Opens "link-4" none "Root" none root)
    (hf : Ring.Opens "link-5" (some "link-4") "Papers" (some 0) folder) :
    ∃ s, Traffic.Run earlier Ring.share (fun _ => True) (.start (.ofRoot root) ()) s ∧
      ⟨1, folder⟩ ∈ s.links ∧ s.arena = Ring.arena root folder := by
  have hreply : earlier (.listChildren Ring.share.id (Link.id ⟨0, root⟩) true) =
      .done (.ok [Pair.record]) := by
    rw [show Link.id ⟨0, root⟩ = "link-4" from hr.id_eq]
    rfl
  have hfolder : Link.isFolder ⟨0, root⟩ = true := hr.isFolder
  have hstart : Traffic.Run earlier Ring.share (fun _ => True) (.start (.ofRoot root) ())
      ⟨.ofRoot root, (), [⟨0, root⟩], []⟩ := .single (.root _)
  obtain ⟨s, hs, hlinks, harena⟩ := Traffic.run_of_perform (J := fun _ => True)
    (s := ⟨.ofRoot root, (), [⟨0, root⟩], []⟩) (List.mem_singleton.mpr rfl)
    (run_listChildren_single rfl hfolder hreply (Ring.materialize_folder hr hf) (fun _ => id)
      Activity.fullAllowance ())
  exact ⟨s, hstart.trans hs, hlinks ▸ List.mem_cons_self, harena⟩

end Twins

/-- The path of a folder leads back to it although another of its name is listed after it. -/
theorem path_leads_back_twins : ∃ (root folder : Node) (s : Traffic Unit),
    Fixed (Ring.share.Sends Twins.reply) root ∧
    Traffic.Run Twins.earlier Ring.share (fun _ => True) (.start (.ofRoot root) ()) s ∧
    ⟨1, folder⟩ ∈ s.links ∧ folder.id = "link-5" ∧
    (⟨1, folder⟩ : Link).path s.arena = "Root/Papers" ∧
    ((Ring.share.resolve Twins.service "Papers" true).run (fun _ => id) 0 (s.arena, ())).1 =
      some (.ok ⟨1, folder⟩) ∧
    (Ring.share.session.resolve Twins.service "Root/Papers" true).Meets (.standing fun _ => True)
      True (fun answer _ =>
        Ring.share.Finds ((⟨1, folder⟩ : Link).spot s.arena) answer) () ∧
    (Activity.Settles (fun _ => True) False (Ring.share.Finds ((⟨1, folder⟩ : Link).spot s.arena))
      fun patience => Ring.share.session.resolve Twins.service "Root/Papers" true patience) := by
  have hfit : Plan.FitName "Root" ∧ Plan.FitName "Papers" := by
    simp only [Plan.FitName, Aead.Fits]
    decide
  obtain ⟨root, hr⟩ := Ring.exists_opens "link-4" none hfit.1 none
  obtain ⟨folder, hf⟩ := Ring.exists_opens "link-5" (some "link-4") hfit.2 (some 0)
  obtain ⟨s, hs, hm, harena⟩ := Twins.exists_run hr hf
  have hgives : Twins.service.Gives (fun _ => True) False (.fixed Twins.reply) := fun _ _ => rfl
  have hpath : (⟨1, folder⟩ : Link).path s.arena = "Root/Papers" := by
    rw [harena, Twins.path_folder hr hf, Twins.path_root hr, hf.name_eq]
    rfl
  have hway : s.arena.LeadsTo Ring.share.session (Ring.share.listing Twins.reply) true 1 :=
    harena ▸ Twins.arena_leadsTo hr hf true
  obtain ⟨rest, hrest, ⟨answer, hrun, hanswer⟩, hsession⟩ :=
    @path_leads_back Unit Unit _ Ring.share _ root (Twins.fixed hr) Twins.reply
      (RootCall.lists_sends _ _) Twins.earlier _ _ Twins.gives_earlier () trivial s hs
      Twins.service _ hgives () trivial (fun _ _ h => h) (fun _ => id)
      (fun _ => Discipline.allows_id _) ⟨1, folder⟩ (.inl hm) true hway 0
  have hfirst : FirstNamed (fun entry => Ring.share.session.shareBy Twins.reply entry.shareId)
      (·.arena.root.name) [Ring.share.record.metadata] ⟨Ring.share, .ofRoot root⟩ := by
    have hload : Ring.share.session.shareBy Twins.reply Ring.share.record.metadata.shareId =
        .ok ⟨Ring.share, .ofRoot root⟩ := Ring.shareBy_eq hr rfl rfl
    exact ⟨List.forall_mem_singleton.mpr ⟨_, hload⟩, [], Ring.share.record.metadata, [], rfl, hload,
      fun _ hm => absurd hm List.not_mem_nil⟩
  have hname : Path.IsName root.name := by
    rw [hr.name_eq]
    exact ⟨by decide, by decide⟩
  obtain ⟨names, -, -, hmeets, hsettles⟩ := hsession _ rfl hfirst hname
  rw [hpath] at hmeets
  simp only [hpath] at hsettles
  refine ⟨root, folder, s, Twins.fixed hr, hs, hm, hf.id_eq, hpath, ?_,
    hmeets.mono id fun answer _ _ h => ?_, hsettles.mono id fun answer h => ?_⟩
  · have hpapers : rest = "Papers" := by
      rw [hpath, hr.name_eq] at hrest
      rcases hrest with ⟨h, -⟩ | h
      · exact absurd h (by decide)
      · have hsplit : "Root/Papers" = "Root" ++ "/" ++ "Papers" := by decide
        rw [hsplit] at h
        exact (String.append_right_inj _).mp h.symm
    rw [hpapers] at hrun
    rw [hrun, hanswer.resolve_right not_timedOut_none]
  · exact h.resolve_right fun h => h.elim not_timedOut_none not_timedOut_none
  · exact h.resolve_right fun h => h.elim not_timedOut_none not_timedOut_none

end SealedDrive
