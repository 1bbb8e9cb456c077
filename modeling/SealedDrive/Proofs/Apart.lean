import Mathlib.Logic.Hydra
import Mathlib.Logic.Relation
import SealedDrive.Proofs.Discipline

/-!
Dialogues side by side, step by step. Others may move between any two steps of a dialogue, not only
while it waits for a reply, so a look at the memory may find more than the last one did. What a
dialogue puts into the memory it puts there together with the look before it; that is one step. A
dialogue that bears this keeps its promise in any company, and no company goes on for ever.
-/

namespace SealedDrive

variable {Γ σ α β ε : Type}

namespace Dialogue

/-! ## Bearing interference -/

/-- Whatever the others do before each step, the dialogue keeps to the terms and to the discipline
and answers with `post`. It may only put something into the memory right after a look at it, when it
is `current`. -/
def Bears (d : Discipline Γ σ) (terms : Terms) (post : α → Γ → Prop) :
    Dialogue σ α → (current : Bool) → Γ → Prop
  | done a, _, g => post a g
  | ask request next, _, g => terms.asks request ∧ ∀ g', d.step g g' →
    ∀ reply, terms.replies request reply → Bears d terms post (next reply) false g'
  | read next, _, g => ∀ g', d.step g g' → ∀ s, d.describes g' s →
    Bears d terms post (next s) true g'
  | write s next, current, g => current = true ∧ ∃ g', d.step g g' ∧ d.describes g' s ∧
    Bears d terms post next false g'

variable {d : Discipline Γ σ} {terms : Terms} {post : α → Γ → Prop} {g g' : Γ} {current : Bool}
  {p p' : Dialogue σ α} {s s' : σ} {reply : (request : Request) → request.Reply}

/-- A look at the memory does no harm. -/
theorem Bears.of_stale (h : p.Bears d terms post false g) (current : Bool) :
    p.Bears d terms post current g := by
  cases p with
  | write s next => cases h.1
  | _ => exact h

theorem Bears.mono {post' : α → Γ → Prop} (h : p.Bears d terms post current g)
    (hp : ∀ a g', d.step g g' → post a g' → post' a g') : p.Bears d terms post' current g := by
  induction p generalizing g current with
  | done a => exact hp a g (d.refl g) h
  | ask request next ih =>
    exact ⟨h.1, fun g' hg reply hr => ih reply (h.2 g' hg reply hr)
      fun a g'' hg' => hp a g'' (d.trans hg hg')⟩
  | read next ih =>
    exact fun g' hg s hs => ih s (h g' hg s hs) fun a g'' hg' => hp a g'' (d.trans hg hg')
  | write s next ih =>
    obtain ⟨hc, g', hg, hs, h⟩ := h
    exact ⟨hc, g', hg, hs, ih h fun a g'' hg' => hp a g'' (d.trans hg hg')⟩

theorem Bears.bind {f : α → Dialogue σ β} {post : β → Γ → Prop}
    (h : p.Bears d terms (fun a g => (f a).Bears d terms post false g) current g) :
    (p.bind f).Bears d terms post current g := by
  induction p generalizing g current with
  | done a => exact h.of_stale current
  | ask request next ih =>
    exact ⟨h.1, fun g' hg reply hr => ih reply (h.2 g' hg reply hr)⟩
  | read next ih => exact fun g' hg s hs => ih s (h g' hg s hs)
  | write s next ih =>
    obtain ⟨hc, g', hg, hs, h⟩ := h
    exact ⟨hc, g', hg, hs, ih h⟩

/-- One part of a dialogue after another, when an error ends it. -/
theorem Bears.bindExcept {p : ExceptT ε (Dialogue σ) α} {f : α → ExceptT ε (Dialogue σ) β}
    {post : Except ε β → Γ → Prop}
    (h : p.run.Bears d terms (fun r g =>
      match r with
      | .ok a => (f a).run.Bears d terms post false g
      | .error error => post (.error error) g) current g) :
    (p >>= f).run.Bears d terms post current g := by
  refine Bears.bind (h.mono fun r g' _ hr => ?_)
  cases r with
  | ok a => exact hr
  | error error => exact hr

theorem bears_fetch {wrap : ApiError → ε} (request : Request)
    {post : Except ε request.Answer → Γ → Prop} (ha : terms.asks request)
    (h : ∀ g', d.step g g' → ∀ reply, terms.replies request reply →
      post (reply.mapError wrap) g') :
    (fetch wrap request).run.Bears d terms post current g := by
  refine ⟨ha, fun g' hg reply hr => ?_⟩
  have hp := h g' hg reply hr
  cases reply with
  | ok answer => exact hp
  | error error => exact hp

/-- A change of the memory is one step. -/
theorem bears_update {f : σ → α × σ}
    (h : ∀ g', d.step g g' → ∀ s, d.describes g' s →
      ∃ g'', d.step g' g'' ∧ d.describes g'' (f s).2 ∧ post (f s).1 g'') :
    (update f).Bears d terms post current g :=
  fun g' hg s hs => ⟨rfl, h g' hg s hs⟩

/-- Who bears interference at every step bears it while waiting. -/
theorem Bears.meets (h : p.Bears d terms post current g) : p.Meets d terms post g := by
  induction p generalizing g current with
  | done a => exact h
  | ask request next ih => exact ⟨h.1, fun g' hg reply hr => ih reply (h.2 g' hg reply hr)⟩
  | read next ih => exact fun s hs => ih s (h g (d.refl g) s hs)
  | write s next ih =>
    obtain ⟨-, g', hg, hs, h⟩ := h
    exact ⟨g', hg, hs, ih h⟩

/-- What the others do changes nothing about that. -/
theorem Bears.later (hpost : ∀ a {g g'}, d.step g g' → post a g → post a g')
    (h : p.Bears d terms post false g) (hg : d.step g g') : p.Bears d terms post false g' := by
  cases p with
  | done a => exact hpost a hg h
  | ask request next => exact ⟨h.1, fun g'' hg' => h.2 g'' (d.trans hg hg')⟩
  | read next => exact fun g'' hg' => h g'' (d.trans hg hg')
  | write s next => cases h.1

/-! ## Steps -/

/-- The next step: a request and its reply, or a look at the memory together with what is put there
at once. -/
def step? (reply : (request : Request) → request.Reply) :
    Dialogue σ α → σ → Option (Dialogue σ α × σ)
  | done _, _ => none
  | ask request next, s => some (next (reply request), s)
  | read next, s =>
    match next s with
    | write s' rest => some (rest, s')
    | rest => some (rest, s)
  | write s' next, _ => some (next, s')

theorem Bears.step (h : p.Bears d terms post false g) (hs : d.describes g s)
    (hr : ∀ request, terms.asks request → terms.replies request (reply request))
    (hstep : p.step? reply s = some (p', s')) :
    ∃ g', d.step g g' ∧ d.describes g' s' ∧ p'.Bears d terms post false g' := by
  cases p with
  | done a => cases hstep
  | ask request next =>
    cases hstep
    exact ⟨g, d.refl g, hs, h.2 g (d.refl g) _ (hr request h.1)⟩
  | read next =>
    have hnext := h g (d.refl g) s hs
    simp only [step?] at hstep
    cases hn : next s with
    | write s'' rest =>
      rw [hn] at hstep hnext
      cases hstep
      exact hnext.2
    | done a | ask request rest | read rest =>
      rw [hn] at hstep hnext
      cases hstep
      exact ⟨g, d.refl g, hs, hnext⟩
  | write s' next => cases h.1

/-- Whether it has answered. -/
def isDone : Dialogue σ α → Bool
  | done _ => true
  | _ => false

theorem isDone_iff : p.isDone = true ↔ ∃ a, p = done a := by
  cases p with
  | done a => exact ⟨fun _ => ⟨a, rfl⟩, fun _ => rfl⟩
  | _ => exact ⟨nofun, nofun⟩

theorem isSome_step? (reply : (request : Request) → request.Reply) (p : Dialogue σ α) (s : σ) :
    (p.step? reply s).isSome = !p.isDone := by
  cases p with
  | read next =>
    simp only [step?]
    cases next s <;> rfl
  | _ => rfl

/-- What may become of a dialogue in one step, its end before its time included. -/
inductive After (reply : (request : Request) → request.Reply) : Dialogue σ α → Dialogue σ α → Prop
  | step {p p' : Dialogue σ α} {s s' : σ} : p.step? reply s = some (p', s') → After reply p' p
  | cut {p : Dialogue σ α} (a : α) : p.isDone = false → After reply (done a) p

theorem acc_done (a : α) : Acc (After reply) (done a : Dialogue σ α) := by
  refine .intro _ fun p' h => ?_
  cases h with
  | step h => cases h
  | cut _ h => cases h

theorem wellFounded_after (reply : (request : Request) → request.Reply) :
    WellFounded (After reply : Dialogue σ α → Dialogue σ α → Prop) := by
  refine ⟨fun p => ?_⟩
  induction p with
  | done a => exact acc_done a
  | ask request next ih =>
    refine .intro _ fun p' h => ?_
    cases h with
    | step h => cases h; exact ih _
    | cut a => exact acc_done a
  | read next ih =>
    refine .intro _ fun p' h => ?_
    cases h with
    | cut a => exact acc_done a
    | @step _ _ s _ h =>
      have hnext := ih s
      simp only [step?] at h
      cases hn : next s with
      | write s' rest =>
        rw [hn] at h hnext
        have hrest := hnext.inv (.step (rfl : (write s' rest).step? reply s = some (rest, s')))
        cases h
        exact hrest
      | done a | ask request rest | read rest =>
        rw [hn] at h hnext
        cases h
        exact hnext
  | write s next ih =>
    refine .intro _ fun p' h => ?_
    cases h with
    | step h => cases h; exact ih
    | cut a => exact acc_done a

end Dialogue

/-! ## Several at once -/

/-- Dialogues under way on one memory. -/
structure Crew (σ α : Type) where
  memory : σ
  members : List (Dialogue σ α)

namespace Crew

/-- Some member takes its next step, or is cut off with an answer that is given in its place. -/
inductive Step (reply : (request : Request) → request.Reply) (cuts : α → Prop) :
    Crew σ α → Crew σ α → Prop
  | work {c : Crew σ α} {i : Nat} {p p' : Dialogue σ α} {s : σ} : c.members[i]? = some p →
    p.step? reply c.memory = some (p', s) → Step reply cuts c ⟨s, c.members.set i p'⟩
  | cut {c : Crew σ α} {i : Nat} {p : Dialogue σ α} {a : α} : c.members[i]? = some p →
    p.isDone = false → cuts a → Step reply cuts c { c with members := c.members.set i (.done a) }

/-- Any number of steps, in any order. -/
abbrev Run (reply : (request : Request) → request.Reply) (cuts : α → Prop) :
    Crew σ α → Crew σ α → Prop :=
  Relation.ReflTransGen (Step reply cuts)

variable {d : Discipline Γ σ} {terms : Terms} {posts : Nat → α → Γ → Prop} {g g' : Γ}
  {reply : (request : Request) → request.Reply} {cuts : α → Prop} {c c' : Crew σ α}

theorem Step.length_eq (h : Step reply cuts c c') : c'.members.length = c.members.length := by
  cases h <;> exact List.length_set

theorem Run.length_eq (h : Run reply cuts c c') : c'.members.length = c.members.length := by
  induction h with
  | refl => rfl
  | tail _ h ih => exact h.length_eq.trans ih

/-- The memory is as described, and every member bears what the others do. -/
structure Bears (d : Discipline Γ σ) (terms : Terms) (posts : Nat → α → Γ → Prop) (c : Crew σ α)
    (g : Γ) : Prop where
  describes : d.describes g c.memory
  members : ∀ {i : Nat} {p : Dialogue σ α}, c.members[i]? = some p →
    p.Bears d terms (posts i) false g

/-- One member goes on, and the others bear it. -/
theorem Bears.set (hposts : ∀ i a {g g'}, d.step g g' → posts i a g → posts i a g')
    (h : c.Bears d terms posts g) (hg : d.step g g') {s : σ} (hs : d.describes g' s) {i : Nat}
    {p : Dialogue σ α} (hp : p.Bears d terms (posts i) false g') :
    Bears d terms posts ⟨s, c.members.set i p⟩ g' := by
  refine ⟨hs, fun {j q} hq => ?_⟩
  rw [List.getElem?_set] at hq
  split at hq
  · next he =>
    split at hq
    · cases hq
      exact he ▸ hp
    · cases hq
  · exact (h.members hq).later (hposts j) hg

theorem Bears.step (hposts : ∀ i a {g g'}, d.step g g' → posts i a g → posts i a g')
    (hcuts : ∀ i a g, cuts a → posts i a g)
    (hr : ∀ request, terms.asks request → terms.replies request (reply request))
    (h : c.Bears d terms posts g) (hstep : Step reply cuts c c') :
    ∃ g', d.step g g' ∧ c'.Bears d terms posts g' := by
  cases hstep with
  | work hi hp =>
    obtain ⟨g', hg, hs, hp'⟩ := (h.members hi).step h.describes hr hp
    exact ⟨g', hg, h.set hposts hg hs hp'⟩
  | cut hi _ ha => exact ⟨g, d.refl g, h.set hposts (d.refl g) h.describes (hcuts _ _ g ha)⟩

theorem Bears.run (hposts : ∀ i a {g g'}, d.step g g' → posts i a g → posts i a g')
    (hcuts : ∀ i a g, cuts a → posts i a g)
    (hr : ∀ request, terms.asks request → terms.replies request (reply request))
    (h : c.Bears d terms posts g) (hrun : Run reply cuts c c') :
    ∃ g', d.step g g' ∧ c'.Bears d terms posts g' := by
  induction hrun with
  | refl => exact ⟨g, d.refl g, h⟩
  | tail _ hstep ih =>
    obtain ⟨g', hg, h'⟩ := ih
    obtain ⟨g'', hg', h''⟩ := h'.step hposts hcuts hr hstep
    exact ⟨g'', d.trans hg hg', h''⟩

/-! ### To the end -/

/-- No order of the steps goes on for ever. -/
theorem wellFounded_step (reply : (request : Request) → request.Reply) (cuts : α → Prop) :
    WellFounded fun c' c : Crew σ α => Step reply cuts c c' := by
  have hset : ∀ {c : Crew σ α} {i : Nat} {p p' : Dialogue σ α}, c.members[i]? = some p →
      p'.After reply p → Relation.CutExpand (Dialogue.After reply)
        (c.members.set i p' : Multiset (Dialogue σ α)) c.members := by
    intro c i p p' hi ha
    obtain ⟨hlt, rfl⟩ := List.getElem?_eq_some_iff.mp hi
    rw [Multiset.coe_eq_coe.mpr (List.set_perm_cons_eraseIdx hlt p'),
      ← Multiset.coe_eq_coe.mpr (List.getElem_cons_eraseIdx_perm hlt), ← Multiset.cons_coe,
      ← Multiset.cons_coe, ← Multiset.singleton_add, ← Multiset.singleton_add]
    exact Relation.cutExpand_single_add ha _
  refine Subrelation.wf (fun {c' c} h => ?_) <|
    InvImage.wf (fun c : Crew σ α => (c.members : Multiset (Dialogue σ α)))
      (Dialogue.wellFounded_after reply).cutExpand
  cases h with
  | work hi hp => exact hset hi (.step hp)
  | cut hi hp => exact hset hi (.cut _ hp)

/-- Whoever has not answered yet can go on. -/
theorem exists_step (reply : (request : Request) → request.Reply) (cuts : α → Prop)
    {p : Dialogue σ α} (hm : p ∈ c.members) (hp : p.isDone = false) :
    ∃ c', Step reply cuts c c' := by
  obtain ⟨i, hi⟩ := List.mem_iff_getElem?.mp hm
  have hsome : (p.step? reply c.memory).isSome = true := by
    rw [Dialogue.isSome_step?, hp]
    rfl
  exact ⟨_, .work hi (Option.some_get hsome).symm⟩

/-- So some order of the steps leads to the end. -/
theorem exists_end (reply : (request : Request) → request.Reply) (cuts : α → Prop)
    (c : Crew σ α) : ∃ c', Run reply cuts c c' ∧ ∀ p ∈ c'.members, p.isDone = true := by
  induction c using (wellFounded_step reply cuts).induction with
  | _ c ih =>
  by_cases hdone : ∀ p ∈ c.members, p.isDone = true
  · exact ⟨c, .refl, hdone⟩
  · push Not at hdone
    obtain ⟨p, hm, hp⟩ := hdone
    obtain ⟨c', hstep⟩ := exists_step reply cuts hm (by simpa using hp)
    obtain ⟨c'', hrun, hdone⟩ := ih c' hstep
    exact ⟨c'', .head hstep hrun, hdone⟩

end Crew
end SealedDrive
