import SealedDrive.Proofs.Intake
import SealedDrive.Proofs.Resolving
import SealedDrive.Proofs.Retracing

/-!
Opening a link by its id. A link that is known is answered without asking; of any other the record
is asked for and taken in, if its parent is known. When the records of the server are those of one
tree, it makes no difference which way a link came: what is seen of it is what is seen when all
children of its parent are listed.
-/

namespace SealedDrive

/-! ## Placing a record -/

namespace Share

variable {share : Share} {link : Link} {record : LinkRecord} {arena after : Arena}

/-- Take a record in where its parent is known. -/
def place (share : Share) (record : LinkRecord) (arena : Arena) : Except DriveError Link × Arena :=
  match record.parentLinkId.bind arena.find? with
  | some handle => share.materialize (arena.linkAt handle) record arena
  | none => (.error (.parentMismatch record.linkId record.parentLinkId), arena)

/-- The parent of a record is known, and the record opens under it. -/
def Fits (share : Share) (record : LinkRecord) (arena : Arena) : Prop :=
  ∃ handle node, record.parentLinkId.bind arena.find? = some handle ∧
    Node.derive share.session (some handle) (arena.nodeAt handle).nodeKeyring record = .ok node

theorem place_orphan (h : record.parentLinkId.bind arena.find? = none) :
    share.place record arena = (.error (.parentMismatch record.linkId record.parentLinkId), arena) := by
  simp [place, h]

theorem place_of_parent {handle : Nat} (h : record.parentLinkId.bind arena.find? = some handle) :
    share.place record arena = share.materialize (arena.linkAt handle) record arena := by
  simp [place, h]

theorem place_error {error : DriveError} (h : share.place record arena = (.error error, after)) :
    after = arena := by
  cases hp : record.parentLinkId.bind arena.find? with
  | none =>
    rw [place_orphan hp] at h
    cases h
    rfl
  | some handle =>
    rw [place_of_parent hp] at h
    exact materialize_error h

theorem place_ok (h : share.place record arena = (.ok link, after)) :
    ∃ handle, record.parentLinkId.bind arena.find? = some handle ∧
      share.materialize (arena.linkAt handle) record arena = (.ok link, after) := by
  cases hp : record.parentLinkId.bind arena.find? with
  | none =>
    rw [place_orphan hp] at h
    cases h
  | some handle =>
    rw [place_of_parent hp] at h
    exact ⟨handle, rfl, h⟩

/-- A record is taken in exactly where it fits. -/
theorem place_ok_iff (hs : arena.Sound) :
    (∃ link, (share.place record arena).1 = .ok link) ↔ share.Fits record arena := by
  constructor
  · rintro ⟨link, h⟩
    rcases hplace : share.place record arena with ⟨answer, after⟩
    rw [hplace] at h
    subst h
    obtain ⟨handle, hp, hm⟩ := place_ok hplace
    exact ⟨handle, link.node, hp, (materialize_ok hm).2.1⟩
  · rintro ⟨handle, node, hp, hd⟩
    obtain ⟨parentId, hid, hfind⟩ := Option.bind_eq_some_iff.mp hp
    have hnamed : record.parentLinkId = some (arena.linkAt handle).id := by
      rw [hid]
      exact congrArg some (hs.find?_iff.mp hfind).2.symm
    rw [place_of_parent hp, materialize_of_derive hnamed hd]
    exact ⟨_, rfl⟩

end Share

/-! ## Runs -/

theorem Activity.run_bind_congr {σ α β : Type} {turn : Nat → σ → σ} (p : Activity σ α)
    {f g : α → Activity σ β}
    (h : ∀ a left s, (f a).run turn left s = (g a).run turn left s) {left : Nat} {s : σ} :
    (p.bind f).run turn left s = (p.bind g).run turn left s := by
  rw [run_bind, run_bind]
  rcases p.run turn left s with ⟨_ | a, left, s⟩
  · rfl
  · exact h a left s

namespace Share

variable {τ : Type} {service : Service τ} {share : Share} {arena : Arena} {linkId : String}
  {turn : Nat → Arena × τ → Arena × τ} {left : Nat} {server : τ}

theorem run_openLink_known {handle : Nat} (hf : arena.find? linkId = some handle) :
    ((share.openLink linkId).run.carry service).run turn left (arena, server) =
      (some (.ok (arena.linkAt handle)), left, (arena, server)) := by
  simp only [openLink, arenaNow, ExceptT.run, ExceptT.mk, bind, ExceptT.bind, ExceptT.bindCont,
    Dialogue.bind, Dialogue.carry, Activity.run, hf]
  rfl

/-- Ask for the record of a link. -/
def askLink (service : Service τ) (share : Share) (linkId : String) :
    Activity (Arena × τ) (Except ApiError LinkRecord) :=
  (service (.getLink share.id linkId)).focus Prod.snd fun t s => (s.1, t)

/-- A link that is not known is asked for; its record is placed when the reply comes. -/
theorem openLink_unknown (hf : arena.find? linkId = none) :
    ((share.openLink linkId).run.carry service).run turn left (arena, server) =
      ((share.askLink service linkId).bind fun
        | .error error => .done (.error (.api error))
        | .ok record => .read fun s =>
          .write ((share.place record s.1).2, s.2) (.done (share.place record s.1).1)).run turn left
        (arena, server) := by
  simp only [openLink, arenaNow, ExceptT.run, ExceptT.mk, bind, ExceptT.bind, ExceptT.bindCont,
    Dialogue.bind, Dialogue.carry, Activity.run, hf, Dialogue.fetch]
  refine Activity.run_bind_congr (share.askLink service linkId) fun reply left s => ?_
  cases reply with
  | error error => rfl
  | ok record =>
    cases hp : record.parentLinkId.bind s.1.find? with
    | none =>
      simp only [place_orphan hp, ExceptT.bindCont, Dialogue.bind, Dialogue.carry, Activity.run, hp]
      rfl
    | some handle =>
      simp only [place_of_parent hp, ExceptT.bindCont, Dialogue.bind, Dialogue.carry, Activity.run,
        hp]
      rfl

end Share

/-! ## One tree -/

section

variable {share : Share} {reply : (request : Request) → request.Reply} {root : Node}

/-- The records that are replied, as somebody's children or by their ids. -/
def Share.Replied (share : Share) (reply : (request : Request) → request.Reply)
    (record : LinkRecord) : Prop :=
  share.Sends reply record ∨ ∃ linkId, reply (.getLink share.id linkId) = .ok record

theorem Share.lists_replied : Use.Lists (share.Replied reply) (share.listing reply) :=
  fun hl _ hm => .inl ⟨_, _, _, hl, hm⟩

/-- A service with these replies sends no other records. -/
theorem Share.gives_replied {τ : Type} {service : Service τ} {J : τ → Prop} {crashes : Prop}
    (hg : service.Gives J crashes (.fixed reply)) :
    service.Gives J crashes (Use.terms share (share.Replied reply)) := by
  refine hg.mono (fun request ha => ?_) fun request answer ha hr => ?_
  · cases request with
    | getLink | listChildren => rfl
    | _ => cases ha
  · cases request with
    | getLink shareId linkId =>
      obtain rfl : shareId = share.id := ha
      intro record he
      exact .inr ⟨linkId, hr.symm.trans he⟩
    | listChildren shareId linkId all =>
      obtain rfl : shareId = share.id := ha
      intro records he record hm
      exact .inl ⟨linkId, all, records, hr.symm.trans he, hm⟩
    | _ => cases ha

/-- The replies about the links of a share tell of one tree. There is one record for each id, and
the root is nobody's child; what is asked for by its id has that id; and whoever names a link as the
parent is listed among all its children. -/
structure Share.HasTree (share : Share) (reply : (request : Request) → request.Reply)
    (root : Node) : Prop where
  fixed : Fixed (share.Replied reply) root
  byId : ∀ {linkId record}, reply (.getLink share.id linkId) = .ok record → record.linkId = linkId
  complete : ∀ {record parentId records}, share.Replied reply record →
    record.parentLinkId = some parentId → share.listing reply parentId true = .ok records →
    record ∈ records

/-- A drive holds one tree for each share, as far as no two of its links have one id. -/
theorem Server.hasTree {base : Server} (hf : Fixed (base.Holds share.id) root) :
    share.HasTree base.replyTo root := by
  have hholds : ∀ record, share.Replied base.replyTo record → base.Holds share.id record := by
    rintro record (⟨linkId, all, records, hl, hm⟩ | ⟨linkId, hr⟩)
    · exact base.lists_findChildren share.id hl record hm
    · exact holds_findLink hr
  refine ⟨hf.mono hholds, fun {linkId record} hr => ?_, fun {record parentId records} hr hp hl => ?_⟩
  · have hr : base.findLink share.id linkId = .ok record := hr
    unfold findLink at hr
    cases hfind : (base.links.lookup share.id).bind (·.find? (·.linkId = linkId)) with
    | none =>
      rw [hfind] at hr
      cases hr
    | some found =>
      rw [hfind] at hr
      cases hr
      obtain ⟨links, -, hfound⟩ := Option.bind_eq_some_iff.mp hfind
      simpa using List.find?_some hfound
  · obtain ⟨links, hlinks, hm⟩ := hholds record hr
    have hl : base.findChildren share.id parentId true = .ok records := hl
    unfold findChildren at hl
    rw [hlinks] at hl
    cases hl
    simp [hm, hp]

end

/-! ## As it is listed -/

/-- Every item of a computation that goes through has its result among the results. -/
theorem exists_mem_of_mapM_eq_ok {ε α β : Type} {f : α → Except ε β} {items : List α}
    {results : List β} (h : items.mapM f = .ok results) {item : α} (hm : item ∈ items) :
    ∃ result ∈ results, f item = .ok result := by
  induction items generalizing results with
  | nil => simp at hm
  | cons first rest ih =>
    rw [List.mapM_cons] at h
    obtain ⟨opened, hfirst, h⟩ := bind_eq_ok_iff.mp h
    obtain ⟨others, hrest, h⟩ := bind_eq_ok_iff.mp h
    cases h
    rcases List.mem_cons.mp hm with rfl | hm
    · exact ⟨opened, List.mem_cons_self, hfirst⟩
    · obtain ⟨result, hresult, hitem⟩ := ih hrest hm
      exact ⟨result, List.mem_cons_of_mem _ hresult, hitem⟩

/-- A spot below another is that of its record. -/
theorem Spot.record_of_child {session : Session} {spot child : Spot} {record : LinkRecord}
    (h : spot.child session record = .ok child) : child.node.record = record := by
  unfold Spot.child at h
  split at h
  · cases h
  · cases hd : Node.derive session none spot.node.nodeKeyring record with
    | error error =>
      rw [hd] at h
      cases h
    | ok node =>
      rw [hd] at h
      cases h
      exact (Node.derive_eq_ok_iff.mp hd).2.1

section

variable {τ : Type} {share : Share} {reply : (request : Request) → request.Reply} {root : Node}
  {service : Service τ} {J : τ → Prop} {u : Use}

/-- Whatever was done with the share before and whatever others do meanwhile, when all children of
the parent are listed and that succeeds, the link is among them and is seen like this. -/
def Share.ListedAs (share : Share) (reply : (request : Request) → request.Reply) (root : Node)
    (service : Service τ) (J : τ → Prop) (linkId : String) (sight : Sight) : Prop :=
  ∀ (log : List Adoption) (u : Use), Use.Steps share (share.Replied reply) (.start root) log u →
    ∀ parent ∈ u.links, sight.parentId = some parent.id →
    ∀ (turn : Nat → Arena × τ → Arena × τ),
      (∀ millis, ((Use.discipline share (share.Replied reply)).beside J).Allows (turn millis)) →
    ∀ (left : Nat) (server : τ), J server → ∀ (links : List Link) (left' : Nat) (after : Arena)
      (server' : τ), (Link.listChildren service share parent true).run turn left
        (u.arena, server) = (some (.ok links), left', (after, server')) →
    (∃ link ∈ links, link.id = linkId) ∧ ∀ link ∈ links, link.id = linkId → link.sight after = sight

/-- A listing that succeeds tells what the records tell. -/
theorem Use.Mirrors.tells_listing (ht : share.HasTree reply root)
    (hg : service.Gives J False (.fixed reply))
    (hu : u.Mirrors share (share.Replied reply) root) {parent : Link} (hp : parent ∈ u.links)
    (all : Bool) :
    (Link.listChildren service share parent all).Meets
      ((Use.discipline share (share.Replied reply)).beside J) False
      (fun answer v => ∀ links, answer = .ok links → Use.Tells share (share.Replied reply) root
        ((parent.spot u.arena).children share.session (share.listing reply) all) (.ok links) v)
      u := by
  refine meets_bounded ?_ fun _ _ _ _ _ he => nomatch he
  cases hfolder : parent.isFolder with
  | false =>
    rw [Link.children_file hfolder]
    intro s _ links he
    cases he
  | true =>
    refine ((Use.tells_children ht.fixed Share.lists_replied hu hp hfolder).carry
      (gives_listing hg)).mono id fun answer v _ h links he => ?_
    subst he
    exact h

/-- A link that has a parent came from a record that names it. -/
theorem Use.Mirrors.record_named {sends : LinkRecord → Prop} (hf : Fixed sends root)
    (hu : u.Mirrors share sends root) {link : Link} (hl : link ∈ u.links) {parentId : String}
    (h : (link.sight u.arena).parentId = some parentId) :
    sends link.node.record ∧ link.node.record.parentLinkId = some parentId := by
  have hb := hu.handle_lt hl
  rw [hu.current link hl] at h ⊢
  rw [hu.sight_linkAt hf hb] at h
  have hnot : (u.arena.nodeAt link.handle).id ≠ root.id := by
    intro he
    have hnone : (((u.arena.linkAt link.handle).spot u.arena).sight root).parentId = none :=
      if_pos he
    rw [hnone] at h
    cases h
  have hpos : 0 < link.handle :=
    Nat.pos_of_ne_zero fun he => hnot ((hu.handle_eq_zero_iff hb).mp he)
  obtain ⟨p, -, -, -, hsends, -⟩ := hu.exists_parent hf hpos hb
  have hnamed : (((u.arena.linkAt link.handle).spot u.arena).sight root).parentId =
      (u.arena.nodeAt link.handle).record.parentLinkId := if_neg hnot
  exact ⟨hsends, hnamed.symm.trans h⟩

/-- However a link came into the tree, it is seen there as it is listed. -/
theorem Use.Mirrors.listedAs (ht : share.HasTree reply root)
    (hg : service.Gives J False (.fixed reply))
    (hu : u.Mirrors share (share.Replied reply) root) {link : Link} (hl : link ∈ u.links) :
    share.ListedAs reply root service J link.id (link.sight u.arena) := by
  intro log v hsteps parent hp hparent turn hturn left server hj links left' after server' hrun
  have hv : v.Mirrors share (share.Replied reply) root :=
    ((Use.start_mirrors ht.fixed.isRoot).steps ht.fixed hsteps).1
  obtain ⟨w, hw, hd, hpost, -⟩ := (hv.tells_listing ht hg hp true).run hturn left
    (s := (v.arena, server)) ⟨⟨rfl, hv.proper⟩, hj⟩
  rw [hrun] at hd hpost
  obtain ⟨⟨rfl, -⟩, -⟩ := hd
  have htells := hpost _ rfl links rfl
  obtain ⟨hreplied, hnamed⟩ := hu.record_named ht.fixed hl hparent
  refine ⟨?_, fun other hm hid => ?_⟩
  · have hspots := htells.spots.symm
    unfold Spot.children at hspots
    cases hlisted : share.listing reply (parent.spot v.arena).node.id true with
    | error error =>
      rw [hlisted] at hspots
      cases hspots
    | ok records =>
      rw [hlisted] at hspots
      have hrecord := ht.complete hreplied hnamed hlisted
      obtain ⟨spot, hspot, hchild⟩ := exists_mem_of_mapM_eq_ok hspots hrecord
      obtain ⟨other, hm, rfl⟩ := List.mem_map.mp hspot
      exact ⟨other, hm, congrArg LinkRecord.linkId (Spot.record_of_child hchild)⟩
  · exact htells.mirrors.sight_congr ht.fixed hu (htells.handsOut links rfl hm) hl hid

end

/-! ## Opening -/

section

variable {τ : Type} {share : Share} {reply : (request : Request) → request.Reply} {root : Node}
  {service : Service τ} {J : τ → Prop}

/-- What comes of opening a link by its id, in a tree that has become another when the reply came. -/
structure Share.OpensById (share : Share) (reply : (request : Request) → request.Reply)
    (root : Node) (service : Service τ) (J : τ → Prop) (linkId : String)
    (arena between after : Arena) (answer : Except DriveError Link) : Prop where
  /-- The link was known, or its record fits into the tree. -/
  ok_iff : (∃ link, answer = .ok link) ↔ (∃ handle, arena.find? linkId = some handle) ∨
    ∃ record, reply (.getLink share.id linkId) = .ok record ∧ share.Fits record between
  /-- It is the link of that id, and seen as it is listed. -/
  as_listed : ∀ link, answer = .ok link →
    link.id = linkId ∧ share.ListedAs reply root service J linkId (link.sight after)
  /-- A record whose parent is not known is refused. -/
  orphan : ∀ record, reply (.getLink share.id linkId) = .ok record →
    arena.find? linkId = none → record.parentLinkId.bind between.find? = none →
    answer = .error (.parentMismatch linkId record.parentLinkId)
  /-- A link that does not open changes nothing. -/
  unchanged : ∀ error, answer = .error error → after = between

/-- A link that is known opens as it stands in the tree. -/
theorem Use.Mirrors.opens_known (ht : share.HasTree reply root)
    (hg : service.Gives J False (.fixed reply)) {u : Use}
    (hu : u.Mirrors share (share.Replied reply) root) {linkId : String} {handle : Nat}
    (hf : u.arena.find? linkId = some handle) :
    share.OpensById reply root service J linkId u.arena u.arena u.arena
      (.ok (u.arena.linkAt handle)) := by
  obtain ⟨hb, hid⟩ := hu.proper.sound.find?_iff.mp hf
  have hid : (u.arena.linkAt handle).id = linkId := hid
  refine ⟨⟨fun _ => .inl ⟨handle, hf⟩, fun _ => ⟨_, rfl⟩⟩, fun link he => ?_,
    fun record _ hnone _ => ?_, fun error he => nomatch he⟩
  · cases he
    exact ⟨hid, hid ▸ hu.listedAs ht hg (hu.proper.present hb)⟩
  · rw [hf] at hnone
    cases hnone

/-- A link whose record is replied opens as far as the record fits into the tree of that time. -/
theorem Use.Mirrors.opens_replied (ht : share.HasTree reply root)
    (hg : service.Gives J False (.fixed reply)) {v : Use}
    (hv : v.Mirrors share (share.Replied reply) root) {linkId : String} {arena : Arena}
    (hf : arena.find? linkId = none) {record : LinkRecord}
    (hr : reply (.getLink share.id linkId) = .ok record) :
    share.OpensById reply root service J linkId arena v.arena (share.place record v.arena).2
      (share.place record v.arena).1 := by
  have hid : record.linkId = linkId := ht.byId hr
  refine ⟨?_, fun link he => ?_, fun other hother _ hp => ?_, fun error he => ?_⟩
  · rw [Share.place_ok_iff hv.proper.sound]
    constructor
    · intro hfits
      exact .inr ⟨record, hr, hfits⟩
    · rintro (⟨handle, hh⟩ | ⟨other, hother, hfits⟩)
      · rw [hf] at hh
        cases hh
      · rw [hr] at hother
        cases hother
        exact hfits
  · rcases hplace : share.place record v.arena with ⟨answer, after⟩
    rw [hplace] at he
    subst he
    obtain ⟨handle, hp, hm⟩ := Share.place_ok hplace
    obtain ⟨parentId, -, hfind⟩ := Option.bind_eq_some_iff.mp hp
    have hparent := hv.proper.present (hv.proper.sound.find?_iff.mp hfind).1
    obtain ⟨hw, -⟩ := hv.adopt ht.fixed hparent (.inr ⟨linkId, hr⟩) hm
    have hlink : link.id = linkId := by
      rw [← hid]
      exact congrArg LinkRecord.linkId (Node.derive_eq_ok_iff.mp (Share.materialize_ok hm).2.1).2.1
    exact ⟨hlink, hlink ▸ hw.listedAs ht hg List.mem_cons_self⟩
  · rw [hr] at hother
    cases hother
    rw [Share.place_orphan hp, hid]
  · exact Share.place_error (Prod.ext he rfl)

/-- A link that the server does not reply does not open. -/
theorem Share.opens_missing (root : Node) (service : Service τ) (J : τ → Prop) {linkId : String}
    {arena between : Arena} (hf : arena.find? linkId = none) {error : ApiError}
    (hr : reply (.getLink share.id linkId) = .error error) :
    share.OpensById reply root service J linkId arena between between (.error (.api error)) := by
  refine ⟨⟨?_, ?_⟩, fun _ he => (nomatch he), fun record h => ?_, fun _ _ => rfl⟩
  · rintro ⟨_, he⟩
    cases he
  · rintro (⟨handle, hh⟩ | ⟨record, h, -⟩)
    · rw [hf] at hh
      cases hh
    · rw [hr] at h
      cases h
  · rw [hr] at h
    cases h

end

/-- On a server whose replies tell of one tree, and whatever was done with a share before: a link
opens by its id exactly when it is known already or its record fits into the tree, and it is then
seen as it is listed; without a known parent it is refused as misplaced, and no error changes the
tree. -/
theorem opens_as_listed {τ τ' : Type} {share : Share}
    {reply : (request : Request) → request.Reply} {root : Node} (ht : share.HasTree reply root)
    {earlier : Service τ'} {J' : τ' → Prop} {crashes : Prop}
    (he : earlier.Gives J' crashes (Use.terms share (share.Replied reply))) {before : τ'}
    (hb : J' before) {s : Traffic τ'}
    (hs : Traffic.Run earlier share J' (.start (.ofRoot root) before) s)
    {service : Service τ} {J : τ → Prop} (hg : service.Gives J False (.fixed reply)) {server : τ}
    (hj : J server) {turn : Nat → Arena × τ → Arena × τ}
    (hturn : ∀ millis, ((Use.discipline share (share.Replied reply)).beside J).Allows (turn millis))
    (linkId : String) (left : Nat) :
    ∃ answer left' between after server',
      ((share.openLink linkId).run.carry service).run turn left (s.arena, server) =
        (some answer, left', (after, server')) ∧
      s.arena.Grows between ∧ ((∀ millis t, (turn millis t).1 = t.1) → between = s.arena) ∧
      share.OpensById reply root service J linkId s.arena between after answer := by
  obtain ⟨log, u, hsteps, -, hu, -⟩ := Traffic.use_of_run he ht.fixed.isRoot hb hs
  obtain ⟨hmirror, -⟩ := (Use.start_mirrors ht.fixed.isRoot).steps ht.fixed hsteps
  rw [← hu]
  cases hf : u.arena.find? linkId with
  | some handle =>
    exact ⟨_, _, u.arena, _, _, Share.run_openLink_known hf, .refl _, fun _ => rfl,
      hmirror.opens_known ht hg hf⟩
  | none =>
    have hstart : ((Use.discipline share (share.Replied reply)).beside J).describes u
        (u.arena, server) := ⟨⟨rfl, hmirror.proper⟩, hj⟩
    have hasks : (share.askLink service linkId).Meets
        ((Use.discipline share (share.Replied reply)).beside J) False
        (fun (r : Except ApiError LinkRecord) v =>
          (Use.discipline share (share.Replied reply)).step u v ∧
            r = reply (.getLink share.id linkId)) u :=
      Activity.Meets.focus_snd (hg (.getLink share.id linkId) rfl)
    have hstill : (∀ millis t, (turn millis t).1 = t.1) →
        ((share.askLink service linkId).run turn left (u.arena, server)).2.2.1 = u.arena :=
      fun hturn => (Activity.meets_unchanged _).run_fst hturn left server
    obtain ⟨v, ⟨log', hv⟩, hd, hreply, hcrash⟩ := hasks.run hturn left hstart
    obtain ⟨hmirror', hgrows⟩ := hmirror.steps ht.fixed hv
    rw [Share.openLink_unknown hf, Activity.run_bind]
    rcases hask : (share.askLink service linkId).run turn left (u.arena, server) with
      ⟨_ | answer, left', between, server'⟩
    · exact (hcrash (congrArg Prod.fst hask)).elim
    · rw [hask] at hd hreply hstill
      obtain ⟨⟨rfl, -⟩, -⟩ := hd
      obtain ⟨-, hanswer⟩ := hreply answer rfl
      cases answer with
      | error error =>
        exact ⟨_, _, v.arena, _, _, rfl, hgrows, hstill,
          share.opens_missing root service J hf hanswer.symm⟩
      | ok record =>
        exact ⟨_, _, v.arena, _, _, rfl, hgrows, hstill, hmirror'.opens_replied ht hg hf hanswer.symm⟩

namespace Papers

/-- The file that was thrown away. -/
def draft : Entry := ⟨"share-3", "link-6", some "link-5", "draft.txt", .file, 7, .trashed⟩

theorem draft_planned : draft ∈ plan.entries :=
  List.mem_cons_of_mem _ (List.mem_cons_of_mem _ List.mem_cons_self)

/-- Its record fits wherever the folder is known. -/
theorem draft_fits {opened : OpenShare} {root : Entry}
    (ho : opened.Opens plan session share root) {u : Use} (hu : u.Proper) {link : Link}
    (hl : link ∈ u.links) (hcur : link = u.arena.linkAt link.handle)
    (hshows : folder.Shows link.node) :
    ∃ record, account.server.replyTo (.getLink opened.share.id "link-6") = .ok record ∧
      opened.share.Fits record u.arena := by
  obtain ⟨record, hfind, hdesc⟩ := follows.findLink sound share_planned draft_planned rfl
  obtain ⟨node, hd, -⟩ := hdesc.derive
    (fun email hm => follows.signerKeyring sound hm 0 ⟨"uid", "access", "refresh"⟩)
    (some link.handle)
  have hnode : u.arena.nodeAt link.handle = link.node := (congrArg Link.node hcur).symm
  have hknown : u.arena.find? "link-5" = some link.handle := by
    refine hu.sound.find?_iff.mpr ⟨(hu.knows link hl).bound, ?_⟩
    rw [hnode]
    exact hshows.linkId
  refine ⟨record, ?_, link.handle, node, ?_, ?_⟩
  · rw [ho.id_eq]
    exact hfind
  · rw [hdesc.parent]
    exact hknown
  · rw [hnode, hshows.nodeKeyring, ho.session_eq]
    exact hd

end Papers

/-- Once its folder was reached, a file that was thrown away opens by its id, and is seen as the
folder lists it. -/
theorem opens_as_listed_papers :
    ∃ (opened : OpenShare) (s : Traffic World) (link : Link) (left : Nat) (after : Arena)
      (world : World),
      ((opened.share.openLink "link-6").run.carry (World.service true)).run
        (fun millis s => (s.1, s.2.turn millis)) 128 (s.arena, s.server) =
          (some (.ok link), left, (after, world)) ∧ link.id = "link-6" ∧
      opened.share.ListedAs Papers.account.server.replyTo opened.arena.root (World.service true)
        (World.Serves Papers.account.server) "link-6" (link.sight after) := by
  obtain ⟨world, opened, left, loaded, root, s, link, hload, hw, ho, hr, hm, hshows⟩ :=
    Papers.exists_link
  obtain ⟨u, hu, ha, hsub, hserves⟩ := ho.mirrors Papers.follows Papers.sound hw hr
  have hgives := World.gives_fixed Papers.account.server
  have htree : opened.share.HasTree Papers.account.server.replyTo opened.arena.root := by
    refine Server.hasTree ?_
    rw [ho.id_eq]
    exact ho.fixed Papers.follows Papers.sound
  obtain ⟨answer, left', between, after, server, hrun, -, hstill, hopens⟩ :=
    opens_as_listed htree (Share.gives_replied hgives) hw (ho.arena_eq ▸ hr) hgives hserves
      (fun millis => Discipline.Allows.beside (World.allows_turn millis)) "link-6" 128
  obtain rfl := hstill fun _ _ => rfl
  obtain ⟨record, hreply, hfits⟩ := Papers.draft_fits ho hu.proper (hsub hm)
    (hu.current link (hsub hm)) hshows
  obtain ⟨draft, rfl⟩ := hopens.ok_iff.mpr (.inr ⟨record, hreply, ha ▸ hfits⟩)
  obtain ⟨hid, hlisted⟩ := hopens.as_listed draft rfl
  exact ⟨opened, s, draft, left', after, server, hrun, hid, hlisted⟩

end SealedDrive
