import SealedDrive.Proofs.Apart
import SealedDrive.Proofs.Fixed

/-!
Resolving a path is walking down the records. The reference walk knows nothing of handles, of the
arena or of what was looked up before: it lists a folder, opens all its records in order and goes on
with the first one of the right name. On a server with fixed records every resolution answers what
the reference walk answers, its errors included, whatever others do between any two of its steps,
and takes in the records that the reference walk opens.
-/

namespace SealedDrive

/-! ## The reference -/

/-- A link as the records alone tell it: its path, and its node without a handle. -/
structure Spot where
  path : String
  node : Node

/-- What a server replies when the children of a link are listed. -/
abbrev Listing := (linkId : String) → (all : Bool) → Except ApiError (List LinkRecord)

namespace Spot

/-- Open a record below a spot. -/
def child (session : Session) (spot : Spot) (record : LinkRecord) : Except DriveError Spot :=
  if record.parentLinkId ≠ some spot.node.id then
    .error (.parentMismatch record.linkId (some spot.node.id))
  else
    (Node.derive session none spot.node.nodeKeyring record).map fun node =>
      ⟨spot.path ++ "/" ++ node.name, node⟩

/-- List a folder and open its records in order; the first that does not open is the answer. -/
def children (session : Session) (listing : Listing) (all : Bool) (spot : Spot) :
    Except DriveError (List Spot) :=
  match listing spot.node.id all with
  | .error error => .error (.api error)
  | .ok records => records.mapM (spot.child session)

/-- Walk down the names from a spot; `walked` are the names that led to it. -/
def walk (session : Session) (listing : Listing) (all : Bool) (walked : List String)
    (spot : Spot) : List String → Except DriveError Spot
  | [] => .ok spot
  | segment :: rest =>
    if !spot.node.isFolder then .error (.notAFolder spot.path)
    else
      match spot.children session listing all with
      | .error error => .error error
      | .ok children =>
        match children.find? (·.node.name = segment) with
        | some child => walk session listing all (walked ++ [segment]) child rest
        | none => .error (.fileNotFound (Path.join (walked ++ [segment])))

/-! ### What is taken in -/

/-- The records of a listing up to the first that does not open below a spot. -/
def opened (session : Session) (spot : Spot) (records : List LinkRecord) : List LinkRecord :=
  records.takeWhile fun record => (spot.child session record).isOk

/-- The records that listing a folder takes in. -/
def taken (session : Session) (listing : Listing) (all : Bool) (spot : Spot) : List LinkRecord :=
  match listing spot.node.id all with
  | .error _ => []
  | .ok records => spot.opened session records

/-- The records that a walk takes in, of all folders on its way. -/
def takenAlong (session : Session) (listing : Listing) (all : Bool) (spot : Spot) :
    List String → List LinkRecord
  | [] => []
  | segment :: rest =>
    if !spot.node.isFolder then []
    else
      spot.taken session listing all ++
        match spot.children session listing all with
        | .error _ => []
        | .ok children =>
          match children.find? (·.node.name = segment) with
          | some child => child.takenAlong session listing all rest
          | none => []

end Spot

/-- What a link tells in an arena, without its handles. -/
def Link.spot (arena : Arena) (link : Link) : Spot :=
  ⟨link.path arena, { link.node with parent := none }⟩

/-- The handle of the parent has no part in what a record opens to. -/
theorem Node.derive_bare {session : Session} {parent : Option Nat} {keyring : Keyring}
    {record : LinkRecord} {node : Node} (h : derive session parent keyring record = .ok node) :
    derive session none keyring record = .ok { node with parent := none } := by
  obtain ⟨-, hr, hmeasures, hv⟩ := derive_eq_ok_iff.mp h
  exact derive_eq_ok_iff.mpr ⟨rfl, hr, hmeasures, hv.nodeKeyring, hv.name⟩

theorem Link.child_spot (session : Session) (arena : Arena) (link : Link) (record : LinkRecord) :
    (link.spot arena).child session record =
      if record.parentLinkId ≠ some link.id then
        .error (.parentMismatch record.linkId (some link.id))
      else
        (Node.derive session none link.node.nodeKeyring record).map fun node =>
          ⟨link.path arena ++ "/" ++ node.name, node⟩ := rfl

/-! ## The walk in the arena -/

namespace Use

/-- Children are listed only, and the replies are those of the listing. -/
def listingTerms (share : Share) (listing : Listing) : Terms where
  asks
    | .listChildren shareId _ _ => shareId = share.id
    | _ => False
  replies
    | .listChildren _ linkId all, reply => reply = listing linkId all
    | _, _ => True

variable {share : Share} {sends : LinkRecord → Prop} {root : Node} {listing : Listing}
  {u v : Use}

/-- The links of an answer stand in a tree that mirrors the records, and tell what is expected. -/
structure Tells (share : Share) (sends : LinkRecord → Prop) (root : Node)
    (expected : Except DriveError (List Spot)) (answer : Except DriveError (List Link))
    (u : Use) : Prop where
  mirrors : u.Mirrors share sends root
  handsOut : HandsOut answer u
  spots : answer.map (·.map (Link.spot u.arena)) = expected

/-- What a link told stays true. -/
theorem Mirrors.spot_eq (hf : Fixed sends root) (hu : u.Mirrors share sends root)
    (hs : (discipline share sends).step u v) {link : Link} (hl : link ∈ u.links) :
    link.spot v.arena = link.spot u.arena := by
  obtain ⟨log, hs⟩ := hs
  obtain ⟨-, hg⟩ := hu.steps hf hs
  unfold Link.spot
  rw [hg.path (hu.descends hf) (hu.proper.knows link hl)]

theorem Mirrors.of_step (hf : Fixed sends root) (hu : u.Mirrors share sends root)
    (hs : (discipline share sends).step u v) : v.Mirrors share sends root := by
  obtain ⟨log, hs⟩ := hs
  exact (hu.steps hf hs).1

theorem Tells.step (hf : Fixed sends root) {expected : Except DriveError (List Spot)}
    {answer : Except DriveError (List Link)} (h : Tells share sends root expected answer u)
    (hs : (discipline share sends).step u v) : Tells share sends root expected answer v := by
  refine ⟨h.mirrors.of_step hf hs, h.handsOut.step hs, ?_⟩
  rw [← h.spots]
  cases answer with
  | error error => rfl
  | ok links =>
    exact congrArg Except.ok <| List.map_congr_left fun link hl =>
      h.mirrors.spot_eq hf hs (h.handsOut links rfl hl)

/-- Of each of these records there is a link. -/
def Has (records : List LinkRecord) (u : Use) : Prop :=
  ∀ record ∈ records, ∃ link ∈ u.links, link.node.record = record

theorem Has.step {records : List LinkRecord} (h : Has records u)
    (hs : (discipline share sends).step u v) : Has records v := by
  intro record hm
  obtain ⟨link, hl, he⟩ := h record hm
  exact ⟨link, links_subset_of_step hs hl, he⟩

theorem has_nil (u : Use) : Has [] u := List.forall_mem_nil _

theorem has_append {records records' : List LinkRecord} :
    Has (records ++ records') u ↔ Has records u ∧ Has records' u :=
  List.forall_mem_append

/-- A record that is taken in tells what it tells below the spot of its parent. -/
theorem Mirrors.child_eq_ok (hf : Fixed sends root) (hu : u.Mirrors share sends root)
    {parent link : Link} {record : LinkRecord} {after : Arena} (hp : parent ∈ u.links)
    (hs : sends record) (hm : share.materialize parent record u.arena = (.ok link, after)) :
    (parent.spot u.arena).child share.session record = .ok (link.spot after) := by
  obtain ⟨hid, hd, -⟩ := Share.materialize_ok hm
  obtain ⟨hn, -⟩ := Node.derive_eq_ok_iff.mp hd
  obtain ⟨hw, hg⟩ := hu.adopt hf hp hs hm
  have hb := (hu.proper.knows parent hp).bound
  have hparent : after.linkAt parent.handle = parent := by
    unfold Arena.linkAt
    rw [hg.nodeAt_eq hb]
    exact (hu.current parent hp).symm
  have hpath : link.path after = parent.path u.arena ++ "/" ++ link.name := by
    rw [Arena.Descends.path_child (hw.descends hf) hn (Nat.lt_of_lt_of_le hb hg.size_le), hparent,
      hg.path (hu.descends hf) (hu.proper.knows parent hp)]
  rw [Link.child_spot, if_neg (not_not_intro hid), Node.derive_bare hd, Link.spot, hpath]
  rfl

theorem child_eq_error {parent : Link} {record : LinkRecord} {arena after : Arena}
    {error : DriveError} (hm : share.materialize parent record arena = (.error error, after)) :
    (parent.spot arena).child share.session record = .error error := by
  unfold Share.materialize at hm
  split at hm
  · next hid =>
    cases hm
    exact if_pos hid
  · next hid =>
    rw [Link.child_spot, Link.id, if_neg hid]
    rw [Node.derive_parent] at hm
    cases hd : Node.derive share.session none parent.node.nodeKeyring record with
    | ok node => rw [hd] at hm; cases hm
    | error e => rw [hd] at hm; cases hm; rfl

theorem child_isOk {parent link : Link} {record : LinkRecord} {arena after : Arena}
    (hm : share.materialize parent record arena = (.ok link, after)) :
    ((parent.spot arena).child share.session record).isOk = true := by
  obtain ⟨hid, hd, -⟩ := Share.materialize_ok hm
  rw [Link.child_spot, if_neg (not_not_intro hid)]
  rw [Node.derive_parent] at hd
  cases hn : Node.derive share.session none parent.node.nodeKeyring record with
  | ok node => rfl
  | error error => rw [hn] at hd; cases hd

theorem bears_adopt (hf : Fixed sends root) (hu : u.Mirrors share sends root) {parent : Link}
    {record : LinkRecord} {terms : Terms} {current : Bool} (hp : parent ∈ u.links)
    (hs : ((parent.spot u.arena).child share.session record).isOk = true → sends record) :
    (share.adopt parent record).run.Bears (discipline share sends) terms
      (fun r v => Tells share sends root
          (((parent.spot u.arena).child share.session record).map ([·])) (r.map ([·])) v ∧
        ∀ link, r = .ok link → link.node.record = record) current u := by
  show (Dialogue.update (share.materialize parent record)).Bears _ _ _ _ _
  refine Dialogue.bears_update fun v hv arena ⟨ha, _⟩ => ?_
  subst ha
  rw [← hu.spot_eq hf hv hp] at hs ⊢
  have hw := hu.of_step hf hv
  have hp := links_subset_of_step hv hp
  cases hm : share.materialize parent record v.arena with
  | mk answer after =>
  cases answer with
  | ok link =>
    have hs := hs (child_isOk hm)
    obtain ⟨hw', -⟩ := hw.adopt hf hp hs hm
    refine ⟨_, ⟨_, .adopt (.refl v) hp hs hm⟩, ⟨rfl, hw'.proper⟩, ⟨hw', ?_, ?_⟩, ?_⟩
    · intro links he
      cases he
      simp
    · rw [hw.child_eq_ok hf hp hs hm]
      rfl
    · intro _ he
      cases he
      exact (Node.derive_eq_ok_iff.mp (Share.materialize_ok hm).2.1).2.1
  | error error =>
    obtain rfl := Share.materialize_error hm
    refine ⟨v, ⟨[], .refl v⟩, ⟨rfl, hw.proper⟩, ⟨hw, handsOut_error error v, ?_⟩,
      fun _ h => by cases h⟩
    rw [child_eq_error hm]
    rfl

/-- A listing is opened record by record, as below the spot of the folder. -/
theorem bears_adoptAll (hf : Fixed sends root) (hu : u.Mirrors share sends root) {parent : Link}
    {records : List LinkRecord} {terms : Terms} {current : Bool} (hp : parent ∈ u.links)
    (hs : ∀ record ∈ (parent.spot u.arena).opened share.session records, sends record) :
    (records.mapM (share.adopt parent)).run.Bears (discipline share sends) terms
      (fun r v =>
        Tells share sends root (records.mapM ((parent.spot u.arena).child share.session)) r v ∧
        Has ((parent.spot u.arena).opened share.session records) v) current u := by
  induction records generalizing u current with
  | nil =>
    refine ⟨⟨hu, fun links h => ?_, rfl⟩, has_nil u⟩
    cases h
    exact List.nil_subset _
  | cons record rest ih =>
    rw [List.mapM_cons, List.mapM_cons]
    unfold Spot.opened at hs ⊢
    rw [List.takeWhile_cons] at hs ⊢
    refine .bindExcept <| (bears_adopt hf hu hp fun hok => hs record (by simp [hok])).mono
      fun r v hv ⟨hr, hrecord⟩ => ?_
    have hspots := hr.spots
    cases hc : (parent.spot u.arena).child share.session record with
    | error error' =>
      rw [hc] at hspots
      cases r with
      | ok link => cases hspots
      | error error =>
        cases hspots
        exact ⟨⟨hr.mirrors, handsOut_error _ v, rfl⟩, has_nil v⟩
    | ok spot =>
      rw [hc] at hs hspots
      cases r with
      | error error => cases hspots
      | ok link =>
      obtain rfl : link.spot v.arena = spot := by
        simpa [Except.map] using hspots
      have hl : link ∈ v.links := by simpa using hr.handsOut [link] rfl
      have hrest := fun hs => (ih hr.mirrors (links_subset_of_step hv hp) hs :
        Dialogue.Bears _ _ _ _ false v)
      rw [hu.spot_eq hf hv hp] at hrest
      show Dialogue.Bears _ _ (fun r w => Tells share sends root (do
        let spots ← rest.mapM ((parent.spot u.arena).child share.session)
        pure (link.spot v.arena :: spots)) r w ∧
          Has (record :: (parent.spot u.arena).opened share.session rest) w) _ false v
      refine .bindExcept <| (hrest fun r hm => hs r (List.mem_cons_of_mem _ hm)).mono
        fun r w hw ⟨hr', hhas⟩ => ?_
      have hhas' : Has (record :: (parent.spot u.arena).opened share.session rest) w :=
        List.forall_mem_cons.mpr ⟨⟨link, links_subset_of_step hw hl, hrecord link rfl⟩, hhas⟩
      rw [← hr'.spots]
      cases r with
      | error error => exact ⟨⟨hr'.mirrors, handsOut_error error w, rfl⟩, hhas'⟩
      | ok links =>
        refine ⟨⟨hr'.mirrors, ?_, ?_⟩, hhas'⟩
        · intro links' he
          cases he
          exact List.cons_subset.mpr ⟨links_subset_of_step hw hl, hr'.handsOut links rfl⟩
        · rw [← hr.mirrors.spot_eq hf hw hl]
          rfl

theorem bears_children (hf : Fixed sends root) (hu : u.Mirrors share sends root) {link : Link}
    {all current : Bool} (hm : link ∈ u.links) (hfolder : link.isFolder = true)
    (hs : ∀ record ∈ (link.spot u.arena).taken share.session listing all, sends record) :
    (link.children share all).run.Bears (discipline share sends) (listingTerms share listing)
      (fun r v =>
        Tells share sends root ((link.spot u.arena).children share.session listing all) r v ∧
        Has ((link.spot u.arena).taken share.session listing all) v) current u := by
  rw [Link.children_folder hfolder]
  refine .bindExcept <| Dialogue.bears_fetch _ rfl fun v hv reply hr => ?_
  have hw := hu.of_step hf hv
  rw [← hu.spot_eq hf hv hm] at hs ⊢
  unfold Spot.children
  unfold Spot.taken at hs ⊢
  have hlisting : listing (link.spot v.arena).node.id all = reply := hr.symm
  rw [hlisting] at hs ⊢
  cases reply with
  | error error => exact ⟨⟨hw, handsOut_error _ v, rfl⟩, has_nil v⟩
  | ok records => exact bears_adoptAll hf hw (links_subset_of_step hv hm) hs

theorem bears_walk (hf : Fixed sends root) (hu : u.Mirrors share sends root) {link : Link}
    {all current : Bool} {walked segments : List String} (hm : link ∈ u.links)
    (hs : ∀ record ∈ (link.spot u.arena).takenAlong share.session listing all segments,
      sends record) :
    (Link.walk share all walked link segments).run.Bears (discipline share sends)
      (listingTerms share listing)
      (fun r v => Tells share sends root
          (((link.spot u.arena).walk share.session listing all walked segments).map ([·]))
          (r.map ([·])) v ∧
        Has ((link.spot u.arena).takenAlong share.session listing all segments) v) current u := by
  induction segments generalizing u link walked current with
  | nil =>
    refine ⟨⟨hu, fun links he => ?_, rfl⟩, has_nil u⟩
    cases he
    simpa using hm
  | cons segment rest ih =>
    have hspot : (link.spot u.arena).node.isFolder = link.isFolder := rfl
    unfold Spot.takenAlong at hs ⊢
    cases hfolder : link.isFolder with
    | false =>
      rw [Link.walk_file hfolder, Spot.walk, hspot, hfolder]
      intro v hv arena ⟨ha, _⟩
      subst ha
      refine ⟨⟨hu.of_step hf hv, handsOut_error _ v, ?_⟩, has_nil v⟩
      rw [← hu.spot_eq hf hv hm]
      rfl
    | true =>
      rw [Link.walk_folder hfolder, Spot.walk]
      rw [hspot, hfolder] at hs ⊢
      simp only [Bool.not_true, Bool.false_eq_true, if_false, List.forall_mem_append] at hs ⊢
      refine .bindExcept <| (bears_children hf hu hm hfolder hs.1).mono fun r v hv ⟨hr, hhas⟩ => ?_
      rw [← hr.spots] at hs ⊢
      cases r with
      | error error =>
        exact ⟨⟨hr.mirrors, handsOut_error error v, rfl⟩, has_append.mpr ⟨hhas, has_nil v⟩⟩
      | ok children =>
        simp only [Except.map, List.find?_map] at hs ⊢
        have hfind : children.find? ((fun spot : Spot => decide (spot.node.name = segment)) ∘
            Link.spot v.arena) = children.find? (·.name = segment) := rfl
        rw [hfind] at hs ⊢
        cases hc : children.find? (·.name = segment) with
        | none =>
          exact ⟨⟨hr.mirrors, handsOut_error _ v, rfl⟩, has_append.mpr ⟨hhas, has_nil v⟩⟩
        | some child =>
          rw [hc] at hs
          refine (ih hr.mirrors (hr.handsOut children rfl (List.mem_of_find?_eq_some hc))
            hs.2).mono fun r w hw ⟨hr', hhas'⟩ => ?_
          exact ⟨hr', has_append.mpr ⟨hhas.step hw, hhas'⟩⟩

/-! ### Calls alone -/

/-- What the server lists are records that it sends. -/
def Lists (sends : LinkRecord → Prop) (listing : Listing) : Prop :=
  ∀ {linkId all records}, listing linkId all = .ok records → ∀ record ∈ records, sends record

theorem Lists.taken (hl : Lists sends listing) {session : Session} {all : Bool} {spot : Spot} :
    ∀ record ∈ spot.taken session listing all, sends record := by
  intro record hm
  unfold Spot.taken at hm
  cases hlisting : listing spot.node.id all with
  | error error => rw [hlisting] at hm; cases hm
  | ok records =>
    rw [hlisting] at hm
    exact hl hlisting record (List.takeWhile_subset _ hm)

theorem Lists.takenAlong (hl : Lists sends listing) {session : Session} {all : Bool} {spot : Spot}
    {segments : List String} :
    ∀ record ∈ spot.takenAlong session listing all segments, sends record := by
  induction segments generalizing spot with
  | nil => exact List.forall_mem_nil _
  | cons segment rest ih =>
    unfold Spot.takenAlong
    split
    · exact List.forall_mem_nil _
    · refine List.forall_mem_append.mpr ⟨hl.taken, ?_⟩
      split
      · exact List.forall_mem_nil _
      · split
        · exact ih
        · exact List.forall_mem_nil _

theorem tells_children (hf : Fixed sends root) (hl : Lists sends listing)
    (hu : u.Mirrors share sends root) {link : Link} {all : Bool} (hm : link ∈ u.links)
    (hfolder : link.isFolder = true) :
    (link.children share all).run.Meets (discipline share sends) (listingTerms share listing)
      (Tells share sends root ((link.spot u.arena).children share.session listing all)) u :=
  (bears_children hf hu hm hfolder hl.taken :
    Dialogue.Bears _ _ _ _ false u).meets.mono fun _ _ _ h => h.1

theorem tells_walk (hf : Fixed sends root) (hl : Lists sends listing)
    (hu : u.Mirrors share sends root) {link : Link} {all : Bool} {walked segments : List String}
    (hm : link ∈ u.links) :
    (Link.walk share all walked link segments).run.Meets (discipline share sends)
      (listingTerms share listing)
      (fun r => Tells share sends root
        (((link.spot u.arena).walk share.session listing all walked segments).map ([·]))
        (r.map ([·]))) u :=
  (bears_walk hf hu hm hl.takenAlong :
    Dialogue.Bears _ _ _ _ false u).meets.mono fun _ _ _ h => h.1

end Use

end SealedDrive
