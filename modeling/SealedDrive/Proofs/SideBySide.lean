import SealedDrive.Proofs.Handles
import SealedDrive.Proofs.Replies
import SealedDrive.Proofs.Ring
import SealedDrive.Proofs.Walk

/-!
Calls on the root of one share, side by side. Which handle a link gets depends on the order in which
the records come in, and a node is put in again while others still hold the one before. When the
records of the server are fixed, none of this can be seen: whatever the order of the requests and of
what is put into the tree, every call gives what it gives alone on a share that was just loaded, and
the tree has what the calls put there alone, each link once.
-/

namespace SealedDrive

variable {τ : Type}

/-! ## What can be seen -/

/-- All that a client sees of a link: its path, its node but for the handle of its parent, and the
id of its parent. -/
structure Sight where
  spot : Spot
  parentId : Option String

def Link.sight (arena : Arena) (link : Link) : Sight :=
  ⟨link.spot arena, (link.parent? arena).map (·.id)⟩

/-- All that is to be seen in a tree. -/
def Arena.sights (arena : Arena) : List Sight :=
  (List.range arena.size).map fun handle => (arena.linkAt handle).sight arena

/-- What is seen at a spot of the tree of a root. -/
def Spot.sight (root : Node) (spot : Spot) : Sight :=
  ⟨spot, if spot.node.id = root.id then none else spot.node.record.parentLinkId⟩

/-- The spot of the root. -/
def Spot.ofRoot (root : Node) : Spot := (Arena.ofRoot root).rootLink.spot (.ofRoot root)

theorem Arena.mem_sights {arena : Arena} {sight : Sight} :
    sight ∈ arena.sights ↔
      ∃ handle, handle < arena.size ∧ (arena.linkAt handle).sight arena = sight := by
  simp [sights]

theorem Arena.Sound.nodup_sights {arena : Arena} (hs : arena.Sound) :
    (arena.sights.map (·.spot.node.id)).Nodup := by
  rw [sights, List.map_map]
  refine List.Nodup.map_on (fun h hh k hk he => ?_) List.nodup_range
  exact hs.handle_inj (List.mem_range.mp hh) (List.mem_range.mp hk) he

theorem Fixed.mono {sends sends' : LinkRecord → Prop} {root : Node} (hf : Fixed sends' root)
    (h : ∀ record, sends record → sends' record) : Fixed sends root where
  isRoot := hf.isRoot
  unique hr hr' := hf.unique (h _ hr) (h _ hr')
  root hr := hf.root (h _ hr)

namespace Use

variable {share : Share} {sends sends' : LinkRecord → Prop} {root : Node} {u v : Use}
  {link link' : Link}

theorem Mirrors.mono (hu : u.Mirrors share sends root)
    (h : ∀ record, sends record → sends' record) : u.Mirrors share sends' root := by
  refine ⟨hu.proper, hu.current, hu.root, fun hpos hh => ?_⟩
  obtain ⟨p, hp, hs, hd⟩ := hu.child hpos hh
  exact ⟨p, hp, h _ hs, hd⟩

theorem Mirrors.rootLink_mem (hu : u.Mirrors share sends root) : u.arena.rootLink ∈ u.links :=
  hu.proper.present (Arena.size_pos _)

/-- Only the root has its id. -/
theorem Mirrors.handle_eq_zero_iff (hu : u.Mirrors share sends root) {h : Nat}
    (hh : h < u.arena.size) : h = 0 ↔ (u.arena.nodeAt h).id = root.id := by
  rw [← hu.root]
  exact ⟨fun he => he ▸ rfl, hu.proper.sound.handle_inj hh (Arena.size_pos _)⟩

theorem Mirrors.spot_rootLink (hf : Fixed sends root) (hu : u.Mirrors share sends root) :
    u.arena.rootLink.spot u.arena = .ofRoot root := by
  have hspot : ∀ arena : Arena, arena.nodeAt 0 = root →
      arena.rootLink.spot arena = ⟨Path.join [root.name], { root with parent := none }⟩ := by
    intro arena hroot
    simp only [Link.spot, Link.path, Arena.rootLink, Arena.linkAt, hroot, hf.isRoot,
      Arena.climb_none]
    rfl
  rw [hspot u.arena hu.root]
  exact (hspot _ rfl).symm

/-- Every other node is derived from its record under its parent. -/
theorem Mirrors.exists_parent (hf : Fixed sends root) (hu : u.Mirrors share sends root) {h : Nat}
    (hpos : 0 < h) (hh : h < u.arena.size) :
    ∃ p, p < h ∧ p < u.arena.size ∧ (u.arena.nodeAt h).parent = some p ∧
      sends (u.arena.nodeAt h).record ∧
      (u.arena.nodeAt h).record.parentLinkId = some (u.arena.nodeAt p).id ∧
      ((u.arena.linkAt p).spot u.arena).child share.session (u.arena.nodeAt h).record =
        .ok ((u.arena.linkAt h).spot u.arena) := by
  obtain ⟨p, hp, hs, hd⟩ := hu.child hpos hh
  obtain ⟨hn, -⟩ := Node.derive_eq_ok_iff.mp hd
  obtain ⟨hpb, hid⟩ := hu.proper.sound.parent hh hn
  refine ⟨p, hp, hpb, hn, hs, hid, ?_⟩
  have hnamed : (u.arena.nodeAt h).record.parentLinkId = some (u.arena.linkAt p).id := hid
  have hpath : (u.arena.linkAt h).path u.arena =
      (u.arena.linkAt p).path u.arena ++ "/" ++ (u.arena.linkAt h).name :=
    Arena.Descends.path_child (hu.descends hf) hn hpb
  rw [Link.child_spot, if_neg (not_not_intro hnamed), Link.spot, hpath]
  exact congrArg (Except.map _) (Node.derive_bare hd)

/-- A link is the same to see in every tree of the same records. -/
theorem Mirrors.spot_linkAt_eq (hf : Fixed sends root) (hu : u.Mirrors share sends root)
    (hv : v.Mirrors share sends root) {h k : Nat} (hh : h < u.arena.size) (hk : k < v.arena.size)
    (he : (u.arena.nodeAt h).id = (v.arena.nodeAt k).id) :
    (u.arena.linkAt h).spot u.arena = (v.arena.linkAt k).spot v.arena := by
  induction h using Nat.strong_induction_on generalizing k with
  | _ h ih =>
    have hzero : h = 0 ↔ k = 0 := by
      rw [hu.handle_eq_zero_iff hh, hv.handle_eq_zero_iff hk, he]
    rcases Nat.eq_zero_or_pos h with rfl | hpos
    · obtain rfl := hzero.mp rfl
      exact (hu.spot_rootLink hf).trans (hv.spot_rootLink hf).symm
    · have hkpos : 0 < k := by omega
      obtain ⟨p, hp, hpb, -, hs, hid, hchild⟩ := hu.exists_parent hf hpos hh
      obtain ⟨q, -, hqb, -, hs', hid', hchild'⟩ := hv.exists_parent hf hkpos hk
      have hrecord := hf.unique hs hs' he
      have hparent : (u.arena.nodeAt p).id = (v.arena.nodeAt q).id := by
        rw [hrecord, hid'] at hid
        exact (Option.some.inj hid).symm
      rw [ih p hp hpb hqb hparent, hrecord, hchild'] at hchild
      exact (Except.ok.inj hchild).symm

theorem Mirrors.sight_linkAt (hf : Fixed sends root) (hu : u.Mirrors share sends root) {h : Nat}
    (hh : h < u.arena.size) :
    (u.arena.linkAt h).sight u.arena = ((u.arena.linkAt h).spot u.arena).sight root := by
  unfold Link.sight Spot.sight
  congr 1
  show ((u.arena.nodeAt h).parent.map u.arena.linkAt).map (·.id) =
    if (u.arena.nodeAt h).id = root.id then none else (u.arena.nodeAt h).record.parentLinkId
  rcases Nat.eq_zero_or_pos h with rfl | hpos
  · rw [hu.root, hf.isRoot, if_pos rfl]
    rfl
  · obtain ⟨p, -, -, hn, -, hid, -⟩ := hu.exists_parent hf hpos hh
    rw [if_neg fun he => hpos.ne' ((hu.handle_eq_zero_iff hh).mpr he), hn, hid]
    rfl

theorem Mirrors.handle_lt (hu : u.Mirrors share sends root) (hl : link ∈ u.links) :
    link.handle < u.arena.size :=
  (hu.proper.knows link hl).bound

/-- What is seen of a link follows from its spot. -/
theorem Mirrors.sight_eq (hf : Fixed sends root) (hu : u.Mirrors share sends root)
    (hl : link ∈ u.links) : link.sight u.arena = (link.spot u.arena).sight root := by
  rw [hu.current link hl]
  exact hu.sight_linkAt hf (hu.handle_lt hl)

/-- A link in hand is the same to see in every tree of the same records. -/
theorem Mirrors.sight_congr (hf : Fixed sends root) (hu : u.Mirrors share sends root)
    (hv : v.Mirrors share sends root) (hl : link ∈ u.links) (hl' : link' ∈ v.links)
    (he : link.id = link'.id) : link.sight u.arena = link'.sight v.arena := by
  have hspot : link.spot u.arena = link'.spot v.arena := by
    rw [hu.current link hl, hv.current link' hl'] at he ⊢
    exact hu.spot_linkAt_eq hf hv (hu.handle_lt hl) (hv.handle_lt hl') he
  rw [hu.sight_eq hf hl, hv.sight_eq hf hl', hspot]

/-- So a link that stands in one tree is to be seen in any other in which its id is. -/
theorem Mirrors.sight_mem (hf : Fixed sends root) (hu : u.Mirrors share sends root)
    (hv : v.Mirrors share sends root) (hl : link ∈ u.links) (hl' : link' ∈ v.links)
    (he : link.id = link'.id) : link.sight u.arena ∈ v.arena.sights := by
  refine Arena.mem_sights.mpr ⟨link'.handle, hv.handle_lt hl', ?_⟩
  rw [hu.sight_congr hf hv hl hl' he]
  exact congrArg (Link.sight v.arena) (hv.current link' hl').symm

/-- The root is to be seen in every tree. -/
theorem Mirrors.sight_root_mem (hf : Fixed sends root) (hu : u.Mirrors share sends root)
    {sight : Sight} (hs : sight ∈ (Arena.ofRoot root).sights) : sight ∈ u.arena.sights := by
  have hstart : (start root).Mirrors share sends root := start_mirrors hf.isRoot
  obtain ⟨h, hh, rfl⟩ := Arena.mem_sights.mp hs
  obtain rfl : h = 0 := Nat.lt_one_iff.mp hh
  exact hstart.sight_mem hf hu hstart.rootLink_mem hu.rootLink_mem (congrArg Node.id hu.root).symm

/-- All else that is to be seen was taken in. -/
theorem Mirrors.sight_cases (hf : Fixed sends root) (hu : u.Mirrors share sends root)
    {sight : Sight} (hs : sight ∈ u.arena.sights) :
    sight ∈ (Arena.ofRoot root).sights ∨
      ∃ link ∈ u.links, sends link.node.record ∧ link.sight u.arena = sight := by
  obtain ⟨h, hh, rfl⟩ := Arena.mem_sights.mp hs
  rcases Nat.eq_zero_or_pos h with rfl | hpos
  · have hstart : (start root).Mirrors share sends root := start_mirrors hf.isRoot
    exact .inl <| hu.sight_mem hf hstart hu.rootLink_mem hstart.rootLink_mem
      (congrArg Node.id hu.root)
  · obtain ⟨p, -, -, -, hsends, -⟩ := hu.exists_parent hf hpos hh
    exact .inr ⟨_, hu.proper.present hh, hsends, rfl⟩

/-- What was taken in from a record of which another tree has a link is to be seen there too. -/
theorem Mirrors.sight_mem_of_has (hf : Fixed sends root) (hu : u.Mirrors share sends root)
    (hv : v.Mirrors share sends root) (hl : link ∈ u.links) {records : List LinkRecord}
    (hr : link.node.record ∈ records) (hh : Has records v) :
    link.sight u.arena ∈ v.arena.sights := by
  obtain ⟨link', hl', he⟩ := hh _ hr
  exact hu.sight_mem hf hv hl hl' (congrArg LinkRecord.linkId he).symm

/-- Of an answer that tells what the records tell, the same is seen wherever it was given. -/
theorem Tells.sights (hf : Fixed sends root) {expected : Except DriveError (List Spot)}
    {answer : Except DriveError (List Link)} (h : Tells share sends root expected answer u) :
    answer.map (·.map (Link.sight u.arena)) = expected.map (·.map (Spot.sight root)) := by
  rw [← h.spots]
  cases answer with
  | error error => rfl
  | ok links =>
    refine congrArg Except.ok ?_
    dsimp only
    rw [List.map_map]
    exact List.map_congr_left fun link hl => h.mirrors.sight_eq hf (h.handsOut links rfl hl)

end Use

/-! ## Calls on the root -/

/-- What is asked of the root of a share. -/
inductive RootCall where
  | resolve (path : String) (all : Bool)
  | listChildren (all : Bool)

namespace RootCall

/-- What is said to the server on behalf of a call, on the root as it was handed out. -/
def dialogue (share : Share) (link : Link) :
    RootCall → Dialogue Arena (Except DriveError (List Link))
  | resolve path all =>
    match Path.segments path with
    | .error error => .done (.error error)
    | .ok segments => (Link.walk share all [] link segments).run.bind fun answer =>
      .done (answer.map ([·]))
  | listChildren all => (link.children share all).run

/-- The root is handed out as it is when the call begins. -/
def work (share : Share) (call : RootCall) : Dialogue Arena (Except DriveError (List Link)) :=
  .read fun arena => call.dialogue share arena.rootLink

/-- The activity of a call. -/
def perform (service : Service τ) (share : Share) :
    RootCall → Activity (Arena × τ) (Except DriveError (List Link))
  | resolve path all => (share.resolve service path all).map fun answer => answer.map ([·])
  | listChildren all => .read fun s => s.1.rootLink.listChildren service share all

/-- What a call gives alone on a share that was just loaded, and the tree that it leaves. -/
def alone (share : Share) (reply : (request : Request) → request.Reply) (root : Node)
    (call : RootCall) : Except DriveError (List Link) × Arena :=
  (call.work share).answerBy reply (.ofRoot root)

/-! ### By the records -/

/-- What a call tells of the records below a spot. -/
def told (session : Session) (listing : Listing) (spot : Spot) :
    RootCall → Except DriveError (List Spot)
  | resolve path all =>
    match Path.segments path with
    | .error error => .error error
    | .ok segments => (spot.walk session listing all [] segments).map ([·])
  | listChildren all =>
    if spot.node.isFolder then spot.children session listing all
    else .error (.notAFolder spot.path)

/-- The records that a call takes in. -/
def taken (session : Session) (listing : Listing) (spot : Spot) : RootCall → List LinkRecord
  | resolve path all =>
    match Path.segments path with
    | .error _ => []
    | .ok segments => spot.takenAlong session listing all segments
  | listChildren all => if spot.node.isFolder then spot.taken session listing all else []

variable {share : Share} {sends : LinkRecord → Prop} {root : Node} {listing : Listing} {u v : Use}

/-- The call has told what the records tell, and what it took in is there. -/
structure Gave (share : Share) (sends : LinkRecord → Prop) (root : Node) (listing : Listing)
    (call : RootCall) (answer : Except DriveError (List Link)) (u : Use) : Prop where
  tells : Use.Tells share sends root (call.told share.session listing (.ofRoot root)) answer u
  has : Use.Has (call.taken share.session listing (.ofRoot root)) u

theorem Gave.step (hf : Fixed sends root) {call : RootCall}
    {answer : Except DriveError (List Link)} (h : call.Gave share sends root listing answer u)
    (hs : (Use.discipline share sends).step u v) : call.Gave share sends root listing answer v :=
  ⟨h.tells.step hf hs, h.has.step hs⟩

theorem bears_dialogue (hf : Fixed sends root) (hu : u.Mirrors share sends root) {link : Link}
    {current : Bool} (hl : link ∈ u.links) (call : RootCall)
    (hs : ∀ record ∈ call.taken share.session listing (link.spot u.arena), sends record) :
    (call.dialogue share link).Bears (Use.discipline share sends)
      (Use.listingTerms share listing)
      (fun r v =>
        Use.Tells share sends root (call.told share.session listing (link.spot u.arena)) r v ∧
        Use.Has (call.taken share.session listing (link.spot u.arena)) v) current u := by
  cases call with
  | resolve path all =>
    simp only [taken] at hs
    simp only [told, taken, dialogue]
    cases hp : Path.segments path with
    | error error => exact ⟨⟨hu, Use.handsOut_error error u, rfl⟩, Use.has_nil u⟩
    | ok segments =>
      rw [hp] at hs
      exact .bind (Use.bears_walk hf hu hl hs)
  | listChildren all =>
    have hspot : (link.spot u.arena).node.isFolder = link.isFolder := rfl
    simp only [taken, hspot] at hs
    simp only [told, taken, dialogue, hspot]
    cases hfolder : link.isFolder with
    | true =>
      rw [hfolder] at hs
      exact Use.bears_children hf hu hl hfolder hs
    | false =>
      rw [Link.children_file hfolder]
      intro v hv arena ⟨ha, _⟩
      subst ha
      refine ⟨⟨hu.of_step hf hv, Use.handsOut_error _ v, ?_⟩, Use.has_nil v⟩
      rw [← hu.spot_eq hf hv hl]
      rfl

/-- Whatever the others do, a call tells what the records tell. -/
theorem bears_work (hf : Fixed sends root) (hu : u.Mirrors share sends root) (call : RootCall)
    (hs : ∀ record ∈ call.taken share.session listing (.ofRoot root), sends record) :
    (call.work share).Bears (Use.discipline share sends) (Use.listingTerms share listing)
      (call.Gave share sends root listing) false u := by
  intro v hv arena ⟨ha, _⟩
  subst ha
  have hw := hu.of_step hf hv
  rw [← hw.spot_rootLink hf] at hs
  refine (bears_dialogue hf hw hw.rootLink_mem call hs).mono fun r w _ ⟨ht, hh⟩ => ?_
  rw [hw.spot_rootLink hf] at ht hh
  exact ⟨ht, hh⟩

end RootCall

/-! ## A server with fixed records -/

/-- What is replied when children are listed. -/
def Share.listing (share : Share) (reply : (request : Request) → request.Reply) : Listing :=
  fun linkId all => reply (.listChildren share.id linkId all)

/-- The records that are replied as somebody's children. -/
def Share.Sends (share : Share) (reply : (request : Request) → request.Reply)
    (record : LinkRecord) : Prop :=
  ∃ linkId all records, share.listing reply linkId all = .ok records ∧ record ∈ records

namespace RootCall

variable {share : Share} {reply : (request : Request) → request.Reply} {root : Node}

theorem lists_sends (share : Share) (reply : (request : Request) → request.Reply) :
    Use.Lists (share.Sends reply) (share.listing reply) :=
  fun hl _ hm => ⟨_, _, _, hl, hm⟩

theorem sends_taken (call : RootCall) {spot : Spot} :
    ∀ record ∈ call.taken share.session (share.listing reply) spot, share.Sends reply record := by
  have hl : Use.Lists (share.Sends reply) (share.listing reply) := lists_sends share reply
  cases call with
  | resolve path all =>
    simp only [taken]
    cases Path.segments path with
    | error error => exact List.forall_mem_nil _
    | ok segments => exact hl.takenAlong
  | listChildren all =>
    simp only [taken]
    split
    · exact hl.taken
    · exact List.forall_mem_nil _

theorem replies_listing (request : Request)
    (_ : (Use.listingTerms share (share.listing reply)).asks request) :
    (Use.listingTerms share (share.listing reply)).replies request (reply request) := by
  cases request with
  | listChildren shareId linkId all =>
    obtain rfl : shareId = share.id := ‹_›
    rfl
  | _ => trivial

/-- What is known of a call alone. -/
theorem gave_alone (hf : Fixed (share.Sends reply) root) (call : RootCall) :
    ∃ v : Use, v.arena = (call.alone share reply root).2 ∧
      v.Mirrors share (· ∈ call.taken share.session (share.listing reply) (.ofRoot root)) root ∧
      call.Gave share (· ∈ call.taken share.session (share.listing reply) (.ofRoot root)) root
        (share.listing reply) (call.alone share reply root).1 v := by
  have hf' : Fixed (· ∈ call.taken share.session (share.listing reply) (.ofRoot root)) root :=
    hf.mono call.sends_taken
  have hstart : (Use.start root).Mirrors share
      (· ∈ call.taken share.session (share.listing reply) (.ofRoot root)) root :=
    Use.start_mirrors hf.isRoot
  obtain ⟨v, hv, ⟨ha, _⟩, hgave⟩ :=
    (call.bears_work hf' hstart fun _ hm => hm).meets.answerBy _ ⟨rfl, hstart.proper⟩
      replies_listing
  exact ⟨v, ha, hstart.of_step hf' hv, hgave⟩

/-- A call that gave what the records tell gave what it gives alone. -/
theorem Gave.sights_alone {sends : LinkRecord → Prop} (hf : Fixed (share.Sends reply) root)
    (hsends : ∀ record, sends record → share.Sends reply record) {call : RootCall}
    {answer : Except DriveError (List Link)} {u : Use}
    (h : call.Gave share sends root (share.listing reply) answer u) :
    answer.map (·.map (Link.sight u.arena)) =
      (call.alone share reply root).1.map (·.map (Link.sight (call.alone share reply root).2)) := by
  obtain ⟨v, hv, -, halone⟩ := call.gave_alone hf
  rw [← hv, h.tells.sights (hf.mono hsends), halone.tells.sights (hf.mono call.sends_taken)]

/-- A link of a record that a call takes in is also to be seen in the tree that it leaves alone. -/
theorem sight_mem_alone (hf : Fixed (share.Sends reply) root) (call : RootCall) {u : Use}
    (hu : u.Mirrors share (share.Sends reply) root) {link : Link} (hl : link ∈ u.links)
    (hr : link.node.record ∈ call.taken share.session (share.listing reply) (.ofRoot root)) :
    link.sight u.arena ∈ (call.alone share reply root).2.sights := by
  obtain ⟨v, hv, hmv, halone⟩ := call.gave_alone hf
  rw [← hv]
  exact hu.sight_mem_of_has hf (hmv.mono call.sends_taken) hl hr halone.has

/-- Where there is all that a call takes in, all is to be seen that it leaves alone. -/
theorem sight_mem_of_alone (hf : Fixed (share.Sends reply) root) (call : RootCall) {u : Use}
    (hu : u.Mirrors share (share.Sends reply) root)
    (hh : Use.Has (call.taken share.session (share.listing reply) (.ofRoot root)) u) {sight : Sight}
    (hs : sight ∈ (call.alone share reply root).2.sights) : sight ∈ u.arena.sights := by
  obtain ⟨v, hv, hmv, -⟩ := call.gave_alone hf
  rw [← hv] at hs
  rcases hmv.sight_cases (hf.mono call.sends_taken) hs with hs | ⟨link, hl, hr, rfl⟩
  · exact hu.sight_root_mem hf hs
  · exact (hmv.mono call.sends_taken).sight_mem_of_has hf hu hl hr hh

/-- Without a bound on the time, the activity of a call is its dialogue carried out. -/
theorem perform_eq (hn : share.session.timeout = none) (service : Service τ) (call : RootCall) :
    call.perform service share = (call.work share).carry service := by
  cases call with
  | resolve path all =>
    refine congrArg Activity.read (funext fun s => ?_)
    simp only [Link.resolve, Session.bounded, hn, dialogue]
    cases Path.segments path with
    | error error => rfl
    | ok segments => exact (Dialogue.carry_map service _ _).symm
  | listChildren all =>
    refine congrArg Activity.read (funext fun s => ?_)
    simp only [Link.listChildren, Session.bounded, hn]
    rfl

/-- So this is what it gives when a service that gives these replies carries it out on a share of
its own, whatever others do with the service meanwhile. -/
theorem perform_alone (hf : Fixed (share.Sends reply) root) (hn : share.session.timeout = none)
    {service : Service τ} {J : τ → Prop} {crashes : Prop}
    (hg : service.Gives J crashes (.fixed reply)) (call : RootCall) :
    ((call.perform service share).holding (.ofRoot root)).Meets (.standing J) crashes
      (fun r _ => r = call.alone share reply root) () := by
  rw [perform_eq hn]
  have hstart : (Use.start root).Mirrors share (share.Sends reply) root :=
    Use.start_mirrors hf.isRoot
  refine (call.bears_work hf hstart call.sends_taken).meets.holding_fixed ⟨rfl, hstart.proper⟩ hg
    (fun request ha => ?_) replies_listing
  cases request with
  | listChildren => rfl
  | _ => cases ha

/-- The program carries out the dialogue of a call; on a share of its own the call comes to what it
comes to alone, whoever gives these replies and whatever others do meanwhile. -/
structure Performed (share : Share) (reply : (request : Request) → request.Reply) (root : Node)
    (call : RootCall) : Prop where
  carries : ∀ {τ : Type} (service : Service τ),
    call.perform service share = (call.work share).carry service
  alone : ∀ {τ : Type} {service : Service τ} {J : τ → Prop} {crashes : Prop},
    service.Gives J crashes (.fixed reply) →
      ((call.perform service share).holding (.ofRoot root)).Meets (.standing J) crashes
        (fun r _ => r = call.alone share reply root) ()

theorem performed (hf : Fixed (share.Sends reply) root) (hn : share.session.timeout = none)
    (call : RootCall) : call.Performed share reply root :=
  ⟨fun service => perform_eq hn service call, fun hg => perform_alone hf hn hg call⟩

end RootCall

/-! ## Side by side -/

section

variable {share : Share} {reply : (request : Request) → request.Reply} {root : Node}
  {calls : List RootCall} {cuts : Except DriveError (List Link) → Prop}
  {s : Crew Arena (Except DriveError (List Link))}

/-- Calls that are about to begin on a share that was just loaded. -/
def Crew.start (share : Share) (root : Node) (calls : List RootCall) :
    Crew Arena (Except DriveError (List Link)) :=
  ⟨.ofRoot root, calls.map (·.work share)⟩

/-- The records that some of the calls takes in. -/
def TakenBy (share : Share) (reply : (request : Request) → request.Reply) (root : Node)
    (calls : List RootCall) (record : LinkRecord) : Prop :=
  ∃ call ∈ calls, record ∈ call.taken share.session (share.listing reply) (.ofRoot root)

theorem TakenBy.sends {record : LinkRecord} (h : TakenBy share reply root calls record) :
    share.Sends reply record := by
  obtain ⟨call, -, hm⟩ := h
  exact call.sends_taken record hm

/-- What is known of the answer at a position: either it was cut off, or its call gave it. -/
def Answered (share : Share) (reply : (request : Request) → request.Reply) (root : Node)
    (calls : List RootCall) (cuts : Except DriveError (List Link) → Prop) (i : Nat)
    (answer : Except DriveError (List Link)) (u : Use) : Prop :=
  cuts answer ∨ ∀ call, calls[i]? = some call →
    call.Gave share (TakenBy share reply root calls) root (share.listing reply) answer u

/-- The calls may take their steps in any order: the tree mirrors the records that they take in, and
whoever has an answer gave what the records tell. -/
theorem Crew.exists_use (hf : Fixed (share.Sends reply) root)
    (h : Crew.Run reply cuts (.start share root calls) s) :
    ∃ u : Use, u.arena = s.memory ∧ u.Mirrors share (TakenBy share reply root calls) root ∧
      ∀ {i : Nat} {answer : Except DriveError (List Link)},
        s.members[i]? = some (.done answer) → Answered share reply root calls cuts i answer u := by
  have hf' : Fixed (TakenBy share reply root calls) root := hf.mono fun _ h => h.sends
  have hstart : (Use.start root).Mirrors share (TakenBy share reply root calls) root :=
    Use.start_mirrors hf.isRoot
  have hbears : (Crew.start share root calls).Bears
      (Use.discipline share (TakenBy share reply root calls))
      (Use.listingTerms share (share.listing reply)) (Answered share reply root calls cuts)
      (.start root) := by
    refine ⟨⟨rfl, hstart.proper⟩, fun {i p} hi => ?_⟩
    simp only [Crew.start, List.getElem?_map, Option.map_eq_some_iff] at hi
    obtain ⟨call, hi, rfl⟩ := hi
    refine (call.bears_work hf' hstart fun record hm =>
      ⟨call, List.mem_of_getElem? hi, hm⟩).mono fun answer u _ hgave => .inr fun call' hi' => ?_
    rw [hi] at hi'
    cases hi'
    exact hgave
  obtain ⟨u, hu, hs⟩ := hbears.run
    (fun i answer u v hv ha => ha.imp id fun hgave call hi => (hgave call hi).step hf' hv)
    (fun _ _ _ hcut => .inl hcut) RootCall.replies_listing h
  exact ⟨u, hs.describes.1, hstart.of_step hf' hu, hs.members⟩

/-- Of the order in which the calls went nothing is to be seen. A call may be cut off at any time,
as when its time is up; `cuts` are the answers that are given then. -/
structure AsAlone (share : Share) (reply : (request : Request) → request.Reply) (root : Node)
    (calls : List RootCall) (cuts : Except DriveError (List Link) → Prop)
    (s : Crew Arena (Except DriveError (List Link))) : Prop where
  length_eq : s.members.length = calls.length
  /-- Every answer is that of the call alone, unless the call was cut off. -/
  answers : ∀ (i : Nat) (call : RootCall) (answer : Except DriveError (List Link)),
    calls[i]? = some call → s.members[i]? = some (.done answer) → cuts answer ∨
      answer.map (·.map (Link.sight s.memory)) =
        (call.alone share reply root).1.map (·.map (Link.sight (call.alone share reply root).2))
  /-- No link stands twice. -/
  once : (s.memory.sights.map (·.spot.node.id)).Nodup
  /-- Beside the root there is only what the calls put there alone, -/
  only : ∀ sight ∈ s.memory.sights, sight ∈ (Arena.ofRoot root).sights ∨
    ∃ call ∈ calls, sight ∈ (call.alone share reply root).2.sights
  /-- and in the end, if none was cut off, all of that. -/
  all : (∀ p ∈ s.members, ∃ answer, p = .done answer ∧ ¬ cuts answer) →
    ∀ sight, sight ∈ s.memory.sights ↔ sight ∈ (Arena.ofRoot root).sights ∨
      ∃ call ∈ calls, sight ∈ (call.alone share reply root).2.sights
  /-- Whoever has no answer can go on, -/
  goesOn : ∀ p ∈ s.members, p.isDone = false → ∃ t, Crew.Step reply cuts s t
  /-- and nobody goes on for ever. -/
  ends : Acc (fun t' t => Crew.Step reply cuts t t') s

/-- On a server with fixed records, calls on the root of one share give what they give alone,
however their steps come one after the other, and leave what they leave alone. Without a bound on
the time these calls are the program's. -/
theorem root_calls_as_alone (hf : Fixed (share.Sends reply) root)
    (h : Crew.Run reply cuts (.start share root calls) s) :
    AsAlone share reply root calls cuts s ∧
      (share.session.timeout = none → ∀ call ∈ calls, call.Performed share reply root) := by
  refine ⟨?_, fun hn call _ => call.performed hf hn⟩
  obtain ⟨memory, members⟩ := s
  obtain ⟨u, rfl, hmirrors, hanswered⟩ := Crew.exists_use hf h
  have hmu : u.Mirrors share (share.Sends reply) root := hmirrors.mono fun _ h => h.sends
  have hlength : members.length = calls.length := h.length_eq.trans (List.length_map _)
  have honly : ∀ sight ∈ u.arena.sights, sight ∈ (Arena.ofRoot root).sights ∨
      ∃ call ∈ calls, sight ∈ (call.alone share reply root).2.sights := by
    intro sight hs
    refine (hmirrors.sight_cases (hf.mono fun _ h => h.sends) hs).imp id ?_
    rintro ⟨link, hl, ⟨call, hcall, hr⟩, rfl⟩
    exact ⟨call, hcall, call.sight_mem_alone hf hmu hl hr⟩
  refine ⟨hlength, fun i call answer hi hanswer => ?_, hmirrors.proper.sound.nodup_sights, honly,
    fun hover sight => ⟨honly sight, ?_⟩, fun p hp hdone => Crew.exists_step reply _ hp hdone,
    (Crew.wellFounded_step reply _).apply _⟩
  · exact (hanswered hanswer).imp id fun hgave =>
      (hgave call hi).sights_alone hf fun _ h => h.sends
  · rintro (hs | ⟨call, hcall, hs⟩)
    · exact hmu.sight_root_mem hf hs
    · -- The call is over and was not cut off, so what it takes in alone is here too.
      obtain ⟨i, hi⟩ := List.mem_iff_getElem?.mp hcall
      have hlt : i < members.length := by
        rw [hlength]
        exact (List.getElem?_eq_some_iff.mp hi).1
      obtain ⟨answer, hanswer, hcut⟩ := hover _ (List.getElem_mem hlt)
      have hgave := (hanswered
        ((List.getElem?_eq_getElem hlt).trans (congrArg some hanswer))).resolve_left hcut
      exact call.sight_mem_of_alone hf hmu (hgave call hi).has hs

end

/-- Listing a folder of which one record is replied. -/
theorem Link.answerBy_children_single {share : Share} {link child : Link} {record : LinkRecord}
    {arena after : Arena} {all : Bool} {reply : (request : Request) → request.Reply}
    (hf : link.isFolder = true)
    (hs : reply (.listChildren share.id link.id all) = .ok [record])
    (hm : share.materialize link record arena = (.ok child, after)) :
    (link.children share all).run.answerBy reply arena = (.ok [child], after) := by
  rw [Link.children_folder hf]
  refine (Dialogue.answerBy_fetch hs arena).trans ?_
  show (do let link ← share.adopt link record; pure [link] :
    ExceptT DriveError (Dialogue Arena) (List Link)).run.answerBy reply arena = _
  simp only [Share.adopt, Dialogue.update, ExceptT.run, ExceptT.mk, bind, ExceptT.bind,
    Dialogue.bind, Dialogue.answerBy, hm]
  rfl

/-! ### A root with one folder -/

namespace Pair

def record : LinkRecord := Ring.sealed "link-5" (some "link-4") "Papers"

def children (linkId : String) : List LinkRecord := if linkId = "link-4" then [record] else []

/-- A server that lists the folder below the root and nothing else. -/
def reply : (request : Request) → request.Reply
  | .listChildren _ linkId _ => .ok (children linkId)
  | _ => .error .unauthorized

theorem sends_iff {r : LinkRecord} (h : Ring.share.Sends reply r) : r = record := by
  obtain ⟨linkId, all, records, hl, hm⟩ := h
  cases hl
  have hm : r ∈ children linkId := hm
  unfold children at hm
  split at hm
  · exact List.mem_singleton.mp hm
  · exact absurd hm List.not_mem_nil

variable {root folder : Node}

theorem fixed (hr : Ring.Opens "link-4" none "Root" none root) :
    Fixed (Ring.share.Sends reply) root where
  isRoot := hr.parent_eq
  unique h h' _ := (sends_iff h).trans (sends_iff h').symm
  root h hid := by
    rw [sends_iff h, hr.id_eq] at hid
    exact absurd hid (by decide)

/-- Listing the root brings in the folder. -/
theorem alone_listChildren (hr : Ring.Opens "link-4" none "Root" none root)
    (hf : Ring.Opens "link-5" (some "link-4") "Papers" (some 0) folder) :
    (RootCall.listChildren true).alone Ring.share reply root =
      (.ok [⟨1, folder⟩], Ring.arena root folder) := by
  have hreply : reply (.listChildren Ring.share.id (Link.id ⟨0, root⟩) true) = .ok [record] := by
    rw [show Link.id ⟨0, root⟩ = "link-4" from hr.id_eq]
    rfl
  have hfolder : Link.isFolder ⟨0, root⟩ = true := hr.isFolder
  exact Link.answerBy_children_single hfolder hreply (Ring.materialize_folder hr hf)

end Pair

/-- A listing of the root beside a resolution of the folder's path: in the end the folder is there,
and once. -/
theorem root_calls_as_alone_pair :
    ∃ (root : Node) (s : Crew Arena (Except DriveError (List Link))),
      Fixed (Ring.share.Sends Pair.reply) root ∧
      Crew.Run Pair.reply (fun _ => False)
        (.start Ring.share root [.resolve "Papers" true, .listChildren true]) s ∧
      (∀ p ∈ s.members, p.isDone = true) ∧ (s.memory.sights.map (·.spot.node.id)).Nodup ∧
      (∃ sight ∈ s.memory.sights, sight.spot.node.id = "link-5") ∧
      (RootCall.listChildren true).Performed Ring.share Pair.reply root := by
  have hfit : Plan.FitName "Root" ∧ Plan.FitName "Papers" := by
    simp only [Plan.FitName, Aead.Fits]
    decide
  obtain ⟨root, hr⟩ := Ring.exists_opens "link-4" none hfit.1 none
  obtain ⟨folder, hf⟩ := Ring.exists_opens "link-5" (some "link-4") hfit.2 (some 0)
  obtain ⟨s, hs, hdone⟩ := Crew.exists_end Pair.reply (fun _ => False)
    (.start Ring.share root [.resolve "Papers" true, .listChildren true])
  obtain ⟨h, hperformed⟩ := root_calls_as_alone (Pair.fixed hr) hs
  refine ⟨root, s, Pair.fixed hr, hs, hdone, h.once,
    ⟨((Ring.arena root folder).linkAt 1).sight (Ring.arena root folder),
      (h.all (fun p hp => ?_) _).mpr (.inr ⟨.listChildren true, by simp, ?_⟩), hf.id_eq⟩,
    hperformed rfl _ (by simp)⟩
  · obtain ⟨answer, rfl⟩ := Dialogue.isDone_iff.mp (hdone p hp)
    exact ⟨answer, rfl, id⟩
  · rw [Pair.alone_listChildren hr hf]
    exact Arena.mem_sights.mpr ⟨1, Nat.lt_succ_self 1, rfl⟩

end SealedDrive
