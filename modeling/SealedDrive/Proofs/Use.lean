import Mathlib.Logic.Relation
import SealedDrive.Drive.Volume
import SealedDrive.Proofs.Derivation
import SealedDrive.Proofs.Discipline

/-!
A share in use. All that happens to the tree of a share is that links are looked up and that
records are taken in under links that are there; every call of a client, by whatever server it is
answered and whatever other calls it runs beside, is a sequence of such steps.
-/

namespace SealedDrive

/-! ## Programs -/

namespace Link

variable {share : Share} {link : Link} {all : Bool}

theorem children_file (h : link.isFolder = false) :
    (link.children share all).run =
      .read fun arena => .done (.error (.notAFolder (link.path arena))) := by
  simp only [children, h]
  rfl

theorem children_folder (h : link.isFolder = true) :
    link.children share all = (do
      let records : List LinkRecord ← Dialogue.fetch .api (.listChildren share.id link.id all)
      records.mapM (share.adopt link)) := by
  simp only [children, h]
  rfl

variable {walked rest : List String} {segment : String}

theorem walk_file (h : link.isFolder = false) :
    (walk share all walked link (segment :: rest)).run =
      .read fun arena => .done (.error (.notAFolder (link.path arena))) := by
  simp only [walk, h]
  rfl

theorem walk_folder (h : link.isFolder = true) :
    walk share all walked link (segment :: rest) = (do
      let children ← link.children share all
      match children.find? (·.name = segment) with
      | some child => walk share all (walked ++ [segment]) child rest
      | none => throw (.fileNotFound (Path.join (walked ++ [segment])))) := by
  simp only [walk, h]
  rfl

end Link

/-! ## Steps -/

/-- The tree of a share as it is known now, and every link that ever stood in it. -/
structure Use where
  arena : Arena
  links : List Link

/-- A record that was taken in: the tree before, the link it was taken in under and the link that
it became. -/
structure Adoption where
  arena : Arena
  parent : Link
  link : Link

/-- What a link tells of the tree stays true: its handle stands for it, and the handle of its
parent for the parent that its record names. -/
structure Arena.Knows (arena : Arena) (link : Link) : Prop where
  bound : link.handle < arena.size
  id_eq : (arena.nodeAt link.handle).id = link.id
  parent : ∀ {p}, link.node.parent = some p →
    p < arena.size ∧ link.node.record.parentLinkId = some (arena.nodeAt p).id

theorem Arena.Takes.knows {arena after : Arena} {node : Node} {h : Nat} {link : Link}
    (ht : arena.Takes node h after) (hk : arena.Knows link) : after.Knows link := by
  refine ⟨Nat.lt_of_lt_of_le hk.bound ht.size_le, by rw [ht.id_eq hk.bound, hk.id_eq], ?_⟩
  intro p hp
  obtain ⟨hb, hid⟩ := hk.parent hp
  exact ⟨Nat.lt_of_lt_of_le hb ht.size_le, by rw [ht.id_eq hb, hid]⟩

namespace Use

structure Proper (u : Use) : Prop where
  sound : u.arena.Sound
  knows : ∀ link ∈ u.links, u.arena.Knows link
  present : ∀ {h}, h < u.arena.size → u.arena.linkAt h ∈ u.links

/-- Taking in records that the server sends, under any links that ever stood in the tree. The steps
leave a log of the records taken in. -/
inductive Steps (share : Share) (sends : LinkRecord → Prop) : Use → List Adoption → Use → Prop
  | refl (u : Use) : Steps share sends u [] u
  | adopt {u v : Use} {log : List Adoption} {parent link : Link} {record : LinkRecord}
      {after : Arena} : Steps share sends u log v → parent ∈ v.links → sends record →
      share.materialize parent record v.arena = (.ok link, after) →
      Steps share sends u (log ++ [⟨v.arena, parent, link⟩]) ⟨after, link :: v.links⟩

variable {share : Share} {sends : LinkRecord → Prop} {u v w : Use} {log log' : List Adoption}

theorem Steps.trans (h : Steps share sends u log v) (h' : Steps share sends v log' w) :
    Steps share sends u (log ++ log') w := by
  induction h' with
  | refl => simpa using h
  | adopt _ hp hs hm ih => rw [← List.append_assoc]; exact .adopt ih hp hs hm

theorem Steps.links_subset (h : Steps share sends u log v) : u.links ⊆ v.links := by
  induction h with
  | refl => exact List.Subset.refl _
  | adopt _ _ _ _ ih =>
    intro _ hl
    exact List.mem_cons_of_mem _ (ih hl)

/-- What a step does to the tree. -/
theorem Proper.takes (hu : u.Proper) {parent link : Link} {record : LinkRecord} {after : Arena}
    (hm : share.materialize parent record u.arena = (.ok link, after)) :
    u.arena.Takes link.node link.handle after := by
  have ht := Arena.takes_insert hu.sound link.node
  rw [(Share.materialize_ok hm).2.2] at ht
  exact ht

theorem Proper.adopt (hu : u.Proper) {parent link : Link} {record : LinkRecord} {after : Arena}
    (hp : parent ∈ u.links)
    (hm : share.materialize parent record u.arena = (.ok link, after)) :
    Proper ⟨after, link :: u.links⟩ := by
  obtain ⟨hid, hd, -⟩ := Share.materialize_ok hm
  obtain ⟨hn, hr, -⟩ := Node.derive_eq_ok_iff.mp hd
  have ht := hu.takes hm
  have hk := hu.knows parent hp
  have hpar : ∀ p, link.node.parent = some p →
      p < u.arena.size ∧ link.node.record.parentLinkId = some (u.arena.nodeAt p).id := by
    intro p hpp
    rw [hn] at hpp
    cases hpp
    exact ⟨hk.bound, by rw [hr, hid, hk.id_eq]⟩
  refine ⟨ht.sound hu.sound hpar, fun l hl => ?_, fun {h} hh => ?_⟩
  · rcases List.mem_cons.mp hl with rfl | hl
    · refine ⟨ht.bound, by rw [ht.at_handle]; rfl, fun hpp => ?_⟩
      obtain ⟨hb, he⟩ := hpar _ hpp
      exact ⟨Nat.lt_of_lt_of_le hb ht.size_le, by rw [ht.id_eq hb, he]⟩
    · exact ht.knows (hu.knows l hl)
  · by_cases he : h = link.handle
    · have hl : after.linkAt h = link := by rw [Arena.linkAt, he, ht.at_handle]
      rw [hl]
      exact List.mem_cons_self
    · have hk' := (ht.lt_or_eq hh).resolve_right he
      have hl : after.linkAt h = u.arena.linkAt h := by
        unfold Arena.linkAt
        rw [ht.elsewhere hk' he]
      rw [hl]
      exact List.mem_cons_of_mem _ (hu.present hk')

theorem Steps.proper (h : Steps share sends u log v) (hu : u.Proper) : v.Proper := by
  induction h with
  | refl => exact hu
  | adopt _ hp _ hm ih => exact ih.adopt hp hm

/-- Whoever uses the share only makes steps. -/
def discipline (share : Share) (sends : LinkRecord → Prop) : Discipline Use Arena where
  describes u arena := u.arena = arena ∧ u.Proper
  step u v := ∃ log, Steps share sends u log v
  refl u := ⟨[], .refl u⟩
  trans := fun ⟨_, h⟩ ⟨_, h'⟩ => ⟨_, h.trans h'⟩

theorem links_subset_of_step (h : (discipline share sends).step u v) : u.links ⊆ v.links := by
  obtain ⟨_, h⟩ := h
  exact h.links_subset

/-! ## Calls -/

/-- The share's links are asked for, and the records in the replies are such as the server sends. -/
def terms (share : Share) (sends : LinkRecord → Prop) : Terms where
  asks
    | .getLink shareId _ | .listChildren shareId _ _ => shareId = share.id
    | _ => False
  replies
    | .getLink _ _, reply => ∀ record : LinkRecord, reply = .ok record → sends record
    | .listChildren _ _ _, reply =>
      ∀ records : List LinkRecord, reply = .ok records → ∀ record ∈ records, sends record
    | _, _ => True

theorem replies_any (share : Share) (request : Request) (reply : request.Reply) :
    (terms share fun _ => True).replies request reply := by
  cases request <;> simp [terms]

/-- The links in an answer are links of the share. -/
def HandsOut (answer : Except DriveError (List Link)) (u : Use) : Prop :=
  ∀ links, answer = .ok links → links ⊆ u.links

theorem HandsOut.step {answer : Except DriveError (List Link)} (h : HandsOut answer u)
    (hs : (discipline share sends).step u v) : HandsOut answer v :=
  fun links he => List.Subset.trans (h links he) (links_subset_of_step hs)

theorem handsOut_error (error : DriveError) (u : Use) : HandsOut (.error error) u :=
  fun _ h => by cases h

/-- A record of the server is taken in, or refused with the tree left as it is. -/
theorem meets_adopt {parent : Link} {record : LinkRecord}
    {terms : Terms} (hp : parent ∈ u.links)
    (hs : sends record) :
    (share.adopt parent record).run.Meets (discipline share sends) terms
      (fun r v => HandsOut (r.map ([·])) v ∧ ∀ link, r = .ok link → link.node.record = record)
      u := by
  intro arena ⟨ha, hu⟩
  cases hm : share.materialize parent record arena with
  | mk answer after =>
  simp only [hm]
  cases answer with
  | ok link =>
    subst ha
    refine ⟨⟨after, link :: u.links⟩, ⟨_, .adopt (.refl u) hp hs hm⟩, ⟨rfl, hu.adopt hp hm⟩, ?_, ?_⟩
    · intro links he
      cases he
      simp
    · intro _ he
      cases he
      exact (Node.derive_eq_ok_iff.mp (Share.materialize_ok hm).2.1).2.1
  | error error =>
    have hafter := Share.materialize_error hm
    exact ⟨u, ⟨[], .refl u⟩, ⟨ha.trans hafter.symm, hu⟩, handsOut_error error u,
      fun _ h => by cases h⟩

theorem meets_adoptAll {parent : Link} {records : List LinkRecord}
    {terms : Terms} (hp : parent ∈ u.links)
    (hs : ∀ record ∈ records, sends record) :
    (records.mapM (share.adopt parent)).run.Meets (discipline share sends) terms HandsOut u := by
  induction records generalizing u with
  | nil =>
    intro links h
    exact by cases h; exact List.nil_subset _
  | cons record rest ih =>
    rw [List.mapM_cons]
    refine .bindExcept <| (meets_adopt hp (hs record (by simp))).mono fun r v hv hr => ?_
    cases r with
    | error error => exact handsOut_error error v
    | ok link =>
      have hl : link ∈ v.links := by simpa using hr.1 [link] rfl
      refine .bindExcept <| (ih (links_subset_of_step hv hp)
        fun record hm => hs record (by simp [hm])).mono fun r w hw hr' => ?_
      cases r with
      | error error => exact handsOut_error error w
      | ok links =>
        intro links' he
        cases he
        exact List.cons_subset.mpr ⟨links_subset_of_step hw hl, hr' links rfl⟩

theorem meets_children {link : Link} {all : Bool} (hl : link ∈ u.links) :
    (link.children share all).run.Meets (discipline share sends) (terms share sends) HandsOut
      u := by
  cases hf : link.isFolder with
  | false =>
    rw [Link.children_file hf]
    intro arena _
    exact handsOut_error _ u
  | true =>
    rw [Link.children_folder hf]
    refine .bindExcept <| Dialogue.meets_fetch _ rfl fun v hv reply hr => ?_
    cases reply with
    | error error => exact handsOut_error _ v
    | ok records => exact meets_adoptAll (links_subset_of_step hv hl) (hr records rfl)

theorem meets_arenaNow {α : Type} {Γ : Type} {d : Discipline Γ Arena} {g : Γ}
    {terms : Terms}
    {f : Arena → ExceptT DriveError (Dialogue Arena) α} {post : Except DriveError α → Γ → Prop}
    (h : ∀ arena, d.describes g arena → (f arena).run.Meets d terms post g) :
    (Share.arenaNow >>= f).run.Meets d terms post g :=
  .bindExcept fun arena ha => h arena ha

theorem meets_openLink {linkId : String} :
    (share.openLink linkId).run.Meets (discipline share sends) (terms share sends)
      (fun r v => HandsOut (r.map ([·])) v) u := by
  refine meets_arenaNow fun arena ⟨ha, hu⟩ => ?_
  cases hf : arena.find? linkId with
  | some h =>
    intro links he
    cases he
    subst ha
    exact List.cons_subset.mpr ⟨hu.present (hu.sound.find?_iff.mp hf).1, List.nil_subset _⟩
  | none =>
    refine .bindExcept <| Dialogue.meets_fetch _ rfl fun v _ reply hr => ?_
    cases reply with
    | error error => exact handsOut_error _ v
    | ok record =>
      refine meets_arenaNow fun arena ⟨ha, hv⟩ => ?_
      cases hp : record.parentLinkId.bind arena.find? with
      | none =>
        exact handsOut_error _ v
      | some h =>
        obtain ⟨id, -, hf⟩ := Option.bind_eq_some_iff.mp hp
        subst ha
        exact (meets_adopt (hv.present (hv.sound.find?_iff.mp hf).1) (hr record rfl)).mono
          fun _ _ _ h => h.1

theorem meets_walk {link : Link} {all : Bool} {walked segments : List String}
    (hl : link ∈ u.links) :
    (Link.walk share all walked link segments).run.Meets (discipline share sends)
      (terms share sends) (fun r v => HandsOut (r.map ([·])) v) u := by
  induction segments generalizing u link walked with
  | nil =>
    intro links he
    cases he
    simpa using hl
  | cons segment rest ih =>
    cases hf : link.isFolder with
    | false =>
      rw [Link.walk_file hf]
      intro arena _
      exact handsOut_error _ u
    | true =>
      rw [Link.walk_folder hf]
      refine .bindExcept <| (meets_children hl).mono fun r v _ hr => ?_
      cases r with
      | error error => exact handsOut_error error v
      | ok children =>
        cases hc : children.find? (·.name = segment) with
        | none =>
          simp only [hc]
          exact handsOut_error _ v
        | some child =>
          simp only [hc]
          exact ih (hr children rfl (List.mem_of_find?_eq_some hc))

end Use
end SealedDrive
