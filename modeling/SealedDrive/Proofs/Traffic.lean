import SealedDrive.Proofs.Use

/-!
Clients at work on one share. They hold links, make calls side by side and are answered by any
server in any order; calls may be left while they wait, and the server may change meanwhile.
Whatever happens, the tree and the links in hand are those of a share in use.
-/

namespace SealedDrive

variable {τ : Type}

/-! ## Calls -/

/-- What a client may ask of the tree of a share. -/
inductive Call where
  | listChildren (link : Link) (all : Bool)
  | openLink (linkId : String)
  | resolve (link : Link) (path : String) (all : Bool)

namespace Call

/-- A call is made on a link in hand. -/
def On (links : List Link) : Call → Prop
  | listChildren link _ | resolve link _ _ => link ∈ links
  | openLink _ => True

/-- The activity of a call, which answers the links it found. -/
def perform (service : Service τ) (share : Share) :
    Call → Activity (Arena × τ) (Except DriveError (List Link))
  | listChildren link all => Link.listChildren service share link all
  | openLink linkId =>
    ((share.openLink linkId).run.carry service).map fun answer => answer.map ([·])
  | resolve link path all =>
    (Link.resolve service share link path all).map fun answer => answer.map ([·])

end Call

section

variable {Γ σ α : Type} {d : Discipline Γ σ} {crashes : Prop} {g : Γ}

/-- The time was up, and that is the answer. -/
def TimedOut (bound : Option Span) (answer : Except DriveError α) : Prop :=
  ∃ span, bound = some span ∧ answer = .error (.timedOut span)

theorem not_timedOut_none {answer : Except DriveError α} : ¬ TimedOut none answer := nofun

/-- The bound of a session adds an error of its own. -/
theorem meets_bounded {session : Session} {p : Activity σ (Except DriveError α)}
    {post : Except DriveError α → Γ → Prop} (h : p.Meets d crashes post g)
    (hn : ∀ span, session.timeout = some span →
      ∀ g', d.step g g' → post (.error (.timedOut span)) g') :
    (session.bounded p).Meets d crashes post g := by
  unfold Session.bounded
  cases ht : session.timeout with
  | none => exact h
  | some span => exact h.before (hn span ht)

end

variable {service : Service τ} {share : Share} {sends : LinkRecord → Prop} {J : τ → Prop}
  {crashes : Prop} {u v : Use}

/-- A call keeps to the use of the share and hands out links of its tree. -/
theorem meets_perform (hg : service.Gives J crashes (Use.terms share sends)) {call : Call}
    (ho : call.On u.links) :
    (call.perform service share).Meets ((Use.discipline share sends).beside J) crashes
      Use.HandsOut u := by
  cases call with
  | listChildren link all =>
    exact meets_bounded ((Use.meets_children ho).carry hg) fun _ _ v _ => Use.handsOut_error _ v
  | openLink linkId => exact .map (Use.meets_openLink.carry hg)
  | resolve link path all =>
    refine .map ?_
    unfold Link.resolve
    cases Path.segments path with
    | error error => exact Use.handsOut_error error u
    | ok segments =>
      exact meets_bounded ((Use.meets_walk ho).carry hg) fun _ _ v _ => Use.handsOut_error _ v

/-! ## Traffic -/

/-- The tree of a share, the server, the links that clients hold and the calls under way. -/
structure Traffic (τ : Type) where
  arena : Arena
  server : τ
  links : List Link
  calls : List (Activity.Burst (Arena × τ) (Except DriveError (List Link)))

namespace Traffic

/-- Before anything is done with a tree. -/
def start (arena : Arena) (server : τ) : Traffic τ := ⟨arena, server, [], []⟩

/-- What may happen next. -/
inductive Step (service : Service τ) (share : Share) (J : τ → Prop) : Traffic τ → Traffic τ → Prop
  | root (s : Traffic τ) :
    Step service share J s { s with links := s.arena.rootLink :: s.links }
  | parent {s : Traffic τ} {link parent : Link} : link ∈ s.links →
    link.parent? s.arena = some parent →
    Step service share J s { s with links := parent :: s.links }
  | begin {s : Traffic τ} {call : Call} : call.On s.links →
    Step service share J s
      { s with calls := s.calls ++ [.waiting 0 (fun _ => id) (call.perform service share)] }
  /-- A call goes on up to its next wait, with so much left of the allowance. -/
  | turn {s : Traffic τ} {i millis left left' : Nat} {leave : Leaving → Arena × τ → Arena × τ}
    {next : Activity (Arena × τ) (Except DriveError (List Link))}
    {burst : Activity.Burst (Arena × τ) (Except DriveError (List Link))} {arena : Arena}
    {server : τ} : s.calls[i]? = some (.waiting millis leave next) →
    next.burst left (s.arena, s.server) = (burst, left', arena, server) →
    Step service share J s ⟨arena, server, s.links, s.calls.set i burst⟩
  | answer {s : Traffic τ} {links : List Link} : .done (.ok links) ∈ s.calls →
    Step service share J s { s with links := links ++ s.links }
  /-- A call is left while it waits. -/
  | leave {s : Traffic τ} {i millis : Nat} {leave : Leaving → Arena × τ → Arena × τ}
    {next : Activity (Arena × τ) (Except DriveError (List Link))} (how : Leaving) :
    s.calls[i]? = some (.waiting millis leave next) →
    Step service share J s ⟨(leave how (s.arena, s.server)).1, (leave how (s.arena, s.server)).2,
      s.links, s.calls.eraseIdx i⟩
  | server {s : Traffic τ} {server : τ} : J server → Step service share J s { s with server }

/-- Any number of steps. -/
abbrev Run (service : Service τ) (share : Share) (J : τ → Prop) : Traffic τ → Traffic τ → Prop :=
  Relation.ReflTransGen (Step service share J)

variable {s s' : Traffic τ}

theorem Step.mono {J' : τ → Prop} (h : Step service share J s s') (hj : ∀ t, J t → J' t) :
    Step service share J' s s' := by
  cases h with
  | root => exact .root s
  | parent hl hp => exact .parent hl hp
  | begin ho => exact .begin ho
  | turn hi hb => exact .turn hi hb
  | answer hm => exact .answer hm
  | leave how hi => exact .leave how hi
  | server ht => exact .server (hj _ ht)

/-- The tree and the links in hand are those of a share in use, and the calls under way keep to
it. -/
structure Follows (share : Share) (sends : LinkRecord → Prop) (J : τ → Prop) (crashes : Prop)
    (s : Traffic τ) (u : Use) : Prop where
  arena : u.arena = s.arena
  proper : u.Proper
  links : s.links ⊆ u.links
  server : J s.server
  calls : ∀ call ∈ s.calls,
    call.Meets ((Use.discipline share sends).beside J) crashes Use.HandsOut u

/-- Answers stay right while the share is used. -/
theorem meets_calls_step
    {call : Activity.Burst (Arena × τ) (Except DriveError (List Link))}
    (h : call.Meets ((Use.discipline share sends).beside J) crashes Use.HandsOut u)
    (hs : (Use.discipline share sends).step u v) :
    call.Meets ((Use.discipline share sends).beside J) crashes Use.HandsOut v :=
  h.step (fun _ _ _ hs ha => ha.step hs) hs

theorem Follows.step (hf : s.Follows share sends J crashes u)
    (hg : service.Gives J crashes (Use.terms share sends)) (h : Step service share J s s') :
    ∃ v, (Use.discipline share sends).step u v ∧ s'.Follows share sends J crashes v := by
  have hd : ((Use.discipline share sends).beside J).describes u (s.arena, s.server) :=
    ⟨⟨hf.arena, hf.proper⟩, hf.server⟩
  have hrefl := (Use.discipline share sends).refl u
  cases h with
  | root =>
    refine ⟨u, hrefl, { hf with links := List.cons_subset.mpr ⟨?_, hf.links⟩ }⟩
    exact hf.arena ▸ hf.proper.present (Arena.size_pos _)
  | @parent link parent hl hp =>
    refine ⟨u, hrefl, { hf with links := List.cons_subset.mpr ⟨?_, hf.links⟩ }⟩
    obtain ⟨p, hpar, rfl⟩ := Option.map_eq_some_iff.mp hp
    exact hf.arena ▸ hf.proper.present ((hf.proper.knows link (hf.links hl)).parent hpar).1
  | @begin call ho =>
    have hon : call.On u.links := by
      cases call with
      | openLink => trivial
      | listChildren => exact hf.links ho
      | resolve => exact hf.links ho
    refine ⟨u, hrefl, { hf with calls := fun b hb => ?_ }⟩
    rcases List.mem_append.mp hb with hb | hb
    · exact hf.calls b hb
    · rw [List.mem_singleton.mp hb]
      refine ⟨fun _ => Discipline.allows_id _, fun v hv => meets_perform hg ?_⟩
      cases call with
      | openLink => trivial
      | listChildren => exact Use.links_subset_of_step hv hon
      | resolve => exact Use.links_subset_of_step hv hon
  | @turn i millis left left' leave next burst arena server hi hb =>
    have hm := hf.calls _ (List.mem_of_getElem? hi)
    obtain ⟨v, hv, hd', hm'⟩ := (hm.2 u hrefl).burst left hd
    rw [hb] at hd' hm'
    have hsub := List.Subset.trans hf.links (Use.links_subset_of_step hv)
    refine ⟨v, hv, hd'.1.1, hd'.1.2, hsub, hd'.2, ?_⟩
    intro b hb
    rcases List.mem_or_eq_of_mem_set hb with hb | rfl
    · exact meets_calls_step (hf.calls b hb) hv
    · exact hm'
  | answer hm =>
    exact ⟨u, hrefl, { hf with
      links := List.append_subset.mpr ⟨hf.calls _ hm _ rfl, hf.links⟩ }⟩
  | @leave i millis leave next how hi =>
    obtain ⟨v, hv, hd'⟩ := (hf.calls _ (List.mem_of_getElem? hi)).1 how u _ hd
    have hsub := List.Subset.trans hf.links (Use.links_subset_of_step hv)
    refine ⟨v, hv, hd'.1.1, hd'.1.2, hsub, hd'.2, ?_⟩
    intro b hb
    exact meets_calls_step (hf.calls b (List.mem_of_mem_eraseIdx hb)) hv
  | server hj => exact ⟨u, hrefl, { hf with server := hj }⟩

/-- A run of any length is a use of the share. -/
theorem Follows.run (hf : s.Follows share sends J crashes u)
    (hg : service.Gives J crashes (Use.terms share sends)) (h : Run service share J s s') :
    ∃ log v, Use.Steps share sends u log v ∧ s'.Follows share sends J crashes v := by
  induction h with
  | refl => exact ⟨[], u, .refl u, hf⟩
  | tail _ hs ih =>
    obtain ⟨log, v, hv, hf⟩ := ih
    obtain ⟨w, ⟨log', hw⟩, hf⟩ := hf.step hg hs
    exact ⟨_, w, hv.trans hw, hf⟩

/-- By induction on the activity: a call that would come to an end alone comes to an end. -/
theorem run_of_burst {p : Activity (Arena × τ) (Except DriveError (List Link))} {left left' : Nat}
    {state state' : Arena × τ} {answer : Except DriveError (List Link)}
    (hr : p.run (fun _ => id) left state = (some answer, left', state')) {i : Nat}
    (hi : s.calls[i]? = some (p.burst left state).1)
    (hs : (s.arena, s.server) = (p.burst left state).2.2) :
    Run service share J s
      ⟨state'.1, state'.2, s.links, s.calls.set i (.done answer)⟩ := by
  induction p generalizing left state s with
  | done a =>
    cases hr
    obtain ⟨hlt, he⟩ := List.getElem?_eq_some_iff.mp hi
    have he : s.calls[i] = .done answer := he
    have hs : (s.arena, s.server) = state' := hs
    rw [← he, List.set_getElem_self, ← hs]
  | crash => cases hr
  | read next ih => exact ih state hr hi hs
  | write state next ih => exact ih hr hi hs
  | allowance takes next ih => exact ih _ hr hi hs
  | wait millis leave next ih =>
    have hs : (s.arena, s.server) = state := hs
    rcases hb : next.burst Activity.fullAllowance state with ⟨burst, left'', arena, server⟩
    have hturn : Step service share J s ⟨arena, server, s.links, s.calls.set i burst⟩ :=
      .turn hi (hs ▸ hb)
    obtain ⟨hlt, -⟩ := List.getElem?_eq_some_iff.mp hi
    have hr : next.run (fun _ => id) Activity.fullAllowance state =
      (some answer, left', state') := hr
    have hrest := ih (s := ⟨arena, server, s.links, s.calls.set i burst⟩) hr
      (by rw [hb, List.getElem?_set_self hlt]) (by rw [hb])
    rw [List.set_set] at hrest
    exact .head hturn hrest

/-- A call on a link in hand that would answer alone can be made, and leaves its links in hand. -/
theorem run_of_perform {call : Call} (ho : call.On s.links) {links : List Link} {left : Nat}
    {state : Arena × τ}
    (hr : (call.perform service share).run (fun _ => id) Activity.fullAllowance
      (s.arena, s.server) = (some (.ok links), left, state)) :
    ∃ s', Run service share J s s' ∧ s'.links = links ++ s.links ∧ s'.arena = state.1 := by
  let waiting : Activity (Arena × τ) (Except DriveError (List Link)) :=
    .wait 0 (fun _ => id) (call.perform service share)
  let begun : Traffic τ :=
    { s with calls := s.calls ++ [(waiting.burst 0 (s.arena, s.server)).1] }
  have hbegin : Step service share J s begun := .begin ho
  have hi : begun.calls[s.calls.length]? = some (waiting.burst 0 (s.arena, s.server)).1 := by
    rw [List.getElem?_append_right (Nat.le_refl _), Nat.sub_self]
    rfl
  have hr : waiting.run (fun _ => id) 0 (s.arena, s.server) = (some (.ok links), left, state) := hr
  have hrun : Run service share J begun ⟨state.1, state.2, s.links,
      begun.calls.set s.calls.length (.done (.ok links))⟩ := run_of_burst hr hi rfl
  have hlt : s.calls.length < begun.calls.length := by
    rw [List.length_append]
    exact Nat.lt_succ_self _
  exact ⟨_, (hrun.head hbegin).tail (.answer (List.mem_set hlt _)), rfl, rfl⟩

end Traffic

/-! ## From the beginning -/

namespace Use

/-- The tree of a share of which only the root is known. -/
def start (root : Node) : Use := ⟨.ofRoot root, [(Arena.ofRoot root).rootLink]⟩

theorem start_proper {root : Node} (hr : root.parent = none) : (start root).Proper := by
  have hz : ∀ {h}, h < (Arena.ofRoot root).size → h = 0 := by
    intro h hh
    simp [Arena.size_eq, Arena.ofRoot] at hh
    exact hh
  refine ⟨Arena.sound_ofRoot hr, fun link hl => ?_, fun hh => ?_⟩
  · rw [List.mem_singleton.mp hl]
    refine ⟨Arena.size_pos _, rfl, fun {p} hp => ?_⟩
    have hp : root.parent = some p := hp
    rw [hr] at hp
    cases hp
  · rw [hz hh]
    exact List.mem_cons_self

end Use

namespace Traffic

theorem follows_start {root : Node} (hr : root.parent = none) {server : τ} (hj : J server) :
    (start (.ofRoot root) server).Follows share sends J crashes (.start root) :=
  ⟨rfl, Use.start_proper hr, List.nil_subset _, hj, fun _ hc => by cases hc⟩

/-- Whatever clients do with a tree, answered by a server that sends such records, is a use of the
share. -/
theorem use_of_run (hg : service.Gives J crashes (Use.terms share sends)) {root : Node}
    (hr : root.parent = none) {server : τ} (hj : J server) {s : Traffic τ}
    (h : Run service share J (start (.ofRoot root) server) s) :
    ∃ log u, Use.Steps share sends (.start root) log u ∧ u.Proper ∧ u.arena = s.arena ∧
      s.links ⊆ u.links := by
  obtain ⟨log, u, hu, hf⟩ := (follows_start hr hj).run hg h
  exact ⟨log, u, hu, hf.proper, hf.arena, hf.links⟩

end Traffic
end SealedDrive
