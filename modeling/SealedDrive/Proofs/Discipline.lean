import SealedDrive.Deadline
import SealedDrive.Dialogue
import SealedDrive.Together

/-!
Rely and guarantee. A state that several activities share is described by what is known of it, a
ghost of type `Γ`, and a discipline says how the ghost may move. An activity meets a postcondition
when, whatever the others do within the discipline while it waits, it keeps to the discipline
itself and answers as promised. Runs, bursts, bounds and dialogues carried out by a service all
follow from that one notion, so statements about every schedule and every server need no
scheduler.
-/

namespace SealedDrive

/-- What is known of a shared state, and how it may change at any time. -/
structure Discipline (Γ σ : Type) where
  describes : Γ → σ → Prop
  step : Γ → Γ → Prop
  refl : ∀ g, step g g
  trans : ∀ {g g' g''}, step g g' → step g' g'' → step g g''

namespace Discipline

variable {Γ σ τ : Type}

/-- A change of the state that keeps to the discipline. -/
def Allows (d : Discipline Γ σ) (change : σ → σ) : Prop :=
  ∀ g s, d.describes g s → ∃ g', d.step g g' ∧ d.describes g' (change s)

/-- Nothing is known but that a property of the state stands. -/
def standing (J : σ → Prop) : Discipline Unit σ where
  describes _ s := J s
  step _ _ := True
  refl _ := trivial
  trans _ _ := trivial

/-- The discipline on one part of a state, beside another part of which a property stands. -/
def beside (d : Discipline Γ σ) (J : τ → Prop) : Discipline Γ (σ × τ) where
  describes g s := d.describes g s.1 ∧ J s.2
  step := d.step
  refl := d.refl
  trans := d.trans

@[simp]
theorem allows_id (d : Discipline Γ σ) : d.Allows id := fun g _ h => ⟨g, d.refl g, h⟩

/-- Changes of the other part are not the discipline's business. -/
theorem Allows.beside {d : Discipline Γ σ} {J : τ → Prop} {f : τ → τ}
    (h : (standing J).Allows f) : (d.beside J).Allows (fun s => (s.1, f s.2)) := by
  intro g s ⟨hg, hj⟩
  obtain ⟨_, -, hf⟩ := h () s.2 hj
  exact ⟨g, d.refl g, hg, hf⟩

end Discipline

/-! ## Activities -/

namespace Activity

variable {Γ σ τ α β ε : Type} {d : Discipline Γ σ} {crashes : Prop}
  {post : α → Γ → Prop} {g : Γ}

theorem bind_done (p : Activity σ α) : p.bind .done = p := by
  induction p with
  | done a => rfl
  | crash => rfl
  | read next ih => exact congrArg read (funext ih)
  | write s next ih => exact congrArg (write s) ih
  | allowance takes next ih => exact congrArg (allowance takes) (funext ih)
  | wait millis leave next ih => exact congrArg (wait millis leave) ih

theorem bind_assoc (p : Activity σ α) (f : α → Activity σ β) (g : β → Activity σ ε) :
    (p.bind f).bind g = p.bind fun a => (f a).bind g := by
  induction p with
  | done a => rfl
  | crash => rfl
  | read next ih => exact congrArg read (funext ih)
  | write s next ih => exact congrArg (write s) ih
  | allowance takes next ih => exact congrArg (allowance takes) (funext ih)
  | wait millis leave next ih => exact congrArg (wait millis leave) ih

/-- Whatever the others do while it waits, the activity keeps to the discipline and answers with
`post`; `crashes` says whether it may crash instead. -/
def Meets (d : Discipline Γ σ) (crashes : Prop) (post : α → Γ → Prop) : Activity σ α → Γ → Prop
  | done a, g => post a g
  | crash, _ => crashes
  | read next, g => ∀ s, d.describes g s → Meets d crashes post (next s) g
  | write s next, g => ∃ g', d.step g g' ∧ d.describes g' s ∧ Meets d crashes post next g'
  | allowance _ next, g => ∀ isLeft, Meets d crashes post (next isLeft) g
  | wait _ leave next, g =>
    (∀ how, d.Allows (leave how)) ∧ ∀ g', d.step g g' → Meets d crashes post next g'

theorem Meets.mono {p : Activity σ α} {crashes' : Prop} {post' : α → Γ → Prop}
    (h : p.Meets d crashes post g) (hc : crashes → crashes')
    (hp : ∀ a g', d.step g g' → post a g' → post' a g') : p.Meets d crashes' post' g := by
  induction p generalizing g with
  | done a => exact hp a g (d.refl g) h
  | crash => exact hc h
  | read next ih =>
    intro s hs
    exact ih s (h s hs) hp
  | write s next ih =>
    obtain ⟨g', hg, hs, h⟩ := h
    exact ⟨g', hg, hs, ih h fun a g'' hg' => hp a g'' (d.trans hg hg')⟩
  | allowance takes next ih =>
    intro isLeft
    exact ih isLeft (h isLeft) hp
  | wait millis leave next ih =>
    exact ⟨h.1, fun g' hg => ih (h.2 g' hg) fun a g'' hg' => hp a g'' (d.trans hg hg')⟩

/-- Two promises about one activity. -/
theorem Meets.and {J : σ → Prop} {p : Activity σ α} {post post' : α → Prop}
    (h : p.Meets (.standing J) crashes (fun a _ => post a) ())
    (h' : p.Meets (.standing J) crashes (fun a _ => post' a) ()) :
    p.Meets (.standing J) crashes (fun a _ => post a ∧ post' a) () := by
  induction p with
  | done a => exact ⟨h, h'⟩
  | crash => exact h
  | read next ih =>
    intro s hs
    exact ih s (h s hs) (h' s hs)
  | write s next ih =>
    obtain ⟨_, -, hs, h⟩ := h
    obtain ⟨_, -, -, h'⟩ := h'
    exact ⟨(), trivial, hs, ih h h'⟩
  | allowance takes next ih =>
    intro isLeft
    exact ih isLeft (h isLeft) (h' isLeft)
  | wait millis leave next ih => exact ⟨h.1, fun _ _ => ih (h.2 () trivial) (h'.2 () trivial)⟩

theorem Meets.bind {p : Activity σ α} {f : α → Activity σ β} {post : β → Γ → Prop}
    (h : p.Meets d crashes (fun a g => (f a).Meets d crashes post g) g) :
    (p.bind f).Meets d crashes post g := by
  induction p generalizing g with
  | done a => exact h
  | crash => exact h
  | read next ih =>
    intro s hs
    exact ih s (h s hs)
  | write s next ih =>
    obtain ⟨g', hg, hs, h⟩ := h
    exact ⟨g', hg, hs, ih h⟩
  | allowance takes next ih =>
    intro isLeft
    exact ih isLeft (h isLeft)
  | wait millis leave next ih => exact ⟨h.1, fun g' hg => ih (h.2 g' hg)⟩

/-- One part of an activity after another, when an error ends it and nothing is promised. -/
theorem Meets.bindExcept {p : ExceptT ε (Activity σ) α} {f : α → ExceptT ε (Activity σ) β}
    (h : p.run.Meets d crashes (fun _ _ => True) g)
    (hf : ∀ a g', d.step g g' → (f a).run.Meets d crashes (fun _ _ => True) g') :
    (p >>= f).run.Meets d crashes (fun _ _ => True) g := by
  refine Meets.bind (h.mono id fun r g' hg _ => ?_)
  cases r with
  | ok a => exact hf a g' hg
  | error error => trivial

theorem Meets.map {p : Activity σ α} {f : α → β} {post : β → Γ → Prop}
    (h : p.Meets d crashes (fun a g => post (f a) g) g) : (p.map f).Meets d crashes post g :=
  Meets.bind h

theorem Meets.timed {p : Activity σ α} (h : p.Meets d crashes post g) (spent : Nat) :
    (p.timed spent).Meets d crashes (fun r g => post r.1 g) g := by
  induction p generalizing g spent with
  | done a => exact h
  | crash => exact h
  | read next ih =>
    intro s hs
    exact ih s (h s hs) spent
  | write s next ih =>
    obtain ⟨g', hg, hs, h⟩ := h
    exact ⟨g', hg, hs, ih h spent⟩
  | allowance takes next ih =>
    intro isLeft
    exact ih isLeft (h isLeft) spent
  | wait millis leave next ih => exact ⟨h.1, fun g' hg => ih (h.2 g' hg) _⟩

theorem meets_spend {units : Nat} {post : Unit → Γ → Prop} (h : post () g) :
    (spend units).Meets d crashes post g := by
  induction units with
  | zero => exact h
  | succ units ih =>
    intro _
    exact ih

/-- A sleep lets the others go on, and nothing else. -/
theorem meets_sleep {millis : Nat} {leave : Leaving → σ → σ} {post : Unit → Γ → Prop}
    (hl : ∀ how, d.Allows (leave how)) (h : ∀ g', d.step g g' → post () g') :
    (sleep millis leave).Meets d crashes post g := by
  have hr : ∀ g', d.step g g' → (if millis = 0 then spend 1
      else wait millis leave (spend 1)).Meets d crashes post g' := by
    intro g' hg
    split
    · exact meets_spend (h g' hg)
    · exact ⟨hl, fun g'' hg' => meets_spend (h g'' (d.trans hg hg'))⟩
  intro isLeft
  cases isLeft with
  | true => exact hr g (d.refl g)
  | false => exact ⟨hl, hr⟩

/-- Where nothing is known and nothing promised, there is nothing to keep. -/
theorem meets_standing_true (p : Activity σ α) :
    p.Meets (.standing fun _ => True) True (fun _ _ => True) () := by
  induction p with
  | done a => trivial
  | crash => trivial
  | read next ih =>
    intro s _
    exact ih s
  | write s next ih => exact ⟨(), trivial, trivial, ih⟩
  | allowance takes next ih =>
    intro isLeft
    exact ih isLeft
  | wait millis leave next ih =>
    exact ⟨fun _ _ _ _ => ⟨(), trivial, trivial⟩, fun _ _ => ih⟩

/-! ### Running -/

/-- What a run leaves behind, when the turns of the others keep to the discipline. -/
theorem Meets.run {p : Activity σ α} {turn : Nat → σ → σ} (h : p.Meets d crashes post g)
    (ht : ∀ millis, d.Allows (turn millis)) (left : Nat) {s : σ} (hs : d.describes g s) :
    ∃ g', d.step g g' ∧ d.describes g' (p.run turn left s).2.2 ∧
      (∀ a, (p.run turn left s).1 = some a → post a g') ∧
      ((p.run turn left s).1 = none → crashes) := by
  induction p generalizing g left s with
  | done a => exact ⟨g, d.refl g, hs, fun b hb => by cases hb; exact h, fun hn => by cases hn⟩
  | crash => exact ⟨g, d.refl g, hs, fun b hb => (by cases hb), fun _ => h⟩
  | read next ih => exact ih s (h s hs) left hs
  | write s' next ih =>
    obtain ⟨g', hg, hs', h⟩ := h
    obtain ⟨g'', hg', rest⟩ := ih h left hs'
    exact ⟨g'', d.trans hg hg', rest⟩
  | allowance takes next ih => exact ih _ (h _) _ hs
  | wait millis leave next ih =>
    obtain ⟨g', hg, hs'⟩ := ht millis g s hs
    obtain ⟨g'', hg', rest⟩ := ih (h.2 g' hg) fullAllowance hs'
    exact ⟨g'', d.trans hg hg', rest⟩

/-- What a run answers is what the activity answers with. -/
theorem Meets.exists_post {p : Activity σ α} {turn : Nat → σ → σ} {left : Nat} {s : σ} {a : α}
    (h : p.Meets d crashes post g) (ht : ∀ millis, d.Allows (turn millis))
    (hs : d.describes g s) (hr : (p.run turn left s).1 = some a) : ∃ g', post a g' := by
  obtain ⟨g', -, -, hpost, -⟩ := h.run ht left hs
  exact ⟨g', hpost a hr⟩

/-- An activity that can only answer this does. -/
theorem Meets.run_eq {J : σ → Prop} {p : Activity σ α} {answer : α} {turn : Nat → σ → σ}
    (h : p.Meets (.standing J) False (fun a _ => a = answer) ())
    (ht : ∀ millis, (Discipline.standing J).Allows (turn millis)) (left : Nat) {s : σ} (hs : J s) :
    (p.run turn left s).1 = some answer := by
  obtain ⟨-, -, -, hpost, hcrash⟩ := h.run ht left hs
  cases hr : (p.run turn left s).1 with
  | none => exact (hcrash hr).elim
  | some a => rw [hpost a hr]

/-- How an activity may stand after a burst. -/
def Burst.Meets (d : Discipline Γ σ) (crashes : Prop) (post : α → Γ → Prop) :
    Burst σ α → Γ → Prop
  | .done a, g => post a g
  | .crashed, _ => crashes
  | .waiting _ leave next, g =>
    (∀ how, d.Allows (leave how)) ∧ ∀ g', d.step g g' → next.Meets d crashes post g'

theorem Meets.burst {p : Activity σ α} (h : p.Meets d crashes post g) (left : Nat) {s : σ}
    (hs : d.describes g s) :
    ∃ g', d.step g g' ∧ d.describes g' (p.burst left s).2.2 ∧
      (p.burst left s).1.Meets d crashes post g' := by
  induction p generalizing g left s with
  | done a => exact ⟨g, d.refl g, hs, h⟩
  | crash => exact ⟨g, d.refl g, hs, h⟩
  | read next ih => exact ih s (h s hs) left hs
  | write s' next ih =>
    obtain ⟨g', hg, hs', h⟩ := h
    obtain ⟨g'', hg', rest⟩ := ih h left hs'
    exact ⟨g'', d.trans hg hg', rest⟩
  | allowance takes next ih => exact ih _ (h _) _ hs
  | wait millis leave next ih => exact ⟨g, d.refl g, hs, h⟩

/-- What the others do disturbs nobody, when it leaves answers right. -/
theorem Burst.Meets.step {b : Burst σ α} (h : b.Meets d crashes post g)
    (hp : ∀ a g g', d.step g g' → post a g → post a g') {g' : Γ} (hg : d.step g g') :
    b.Meets d crashes post g' := by
  cases b with
  | done a => exact hp a g g' hg h
  | crashed => exact h
  | waiting millis leave next => exact ⟨h.1, fun g'' hg' => h.2 g'' (d.trans hg hg')⟩

/-! ### Bounds -/

theorem meets_abandon {leave : Leaving → σ → σ} {after : Nat} {post : Option α → Γ → Prop}
    (hl : ∀ how, d.Allows (leave how)) (h : ∀ g', d.step g g' → post none g') :
    (abandon leave after).Meets d crashes post g := by
  refine Meets.bind (meets_spend ?_)
  intro s hs
  obtain ⟨g', hg, hs'⟩ := hl (.atOnce after) g s hs
  exact ⟨g', hg, hs', h g' hg⟩

theorem Meets.withinFrom {p : Activity σ α} {post' : Option α → Γ → Prop}
    (h : p.Meets d crashes post g) (hp : ∀ a g', d.step g g' → post a g' → post' (some a) g')
    (hn : ∀ g', d.step g g' → post' none g') {watches : Bool} {budget : Nat} :
    (withinFrom watches budget p).Meets d crashes post' g := by
  induction p generalizing g watches budget with
  | done a => exact hp a g (d.refl g) h
  | crash => exact h
  | read next ih =>
    intro s hs
    exact ih s (h s hs) hp hn
  | write s next ih =>
    obtain ⟨g', hg, hs, h⟩ := h
    exact ⟨g', hg, hs, ih h (fun a g'' hg' => hp a g'' (d.trans hg hg'))
      fun g'' hg' => hn g'' (d.trans hg hg')⟩
  | allowance takes next ih =>
    intro isLeft
    exact ih isLeft (h isLeft) hp hn
  | wait millis leave next ih =>
    unfold Activity.withinFrom
    split
    · exact meets_abandon h.1 hn
    · split
      · exact ⟨h.1, fun g' hg => ih (h.2 g' hg) (fun a g'' hg' => hp a g'' (d.trans hg hg'))
          fun g'' hg' => hn g'' (d.trans hg hg')⟩
      · exact ⟨h.1, fun g' hg => meets_abandon h.1 fun g'' hg' => hn g'' (d.trans hg hg')⟩

/-- Under a bound the answer is what was promised, or the error of the bound at any time. -/
theorem Meets.before {p : Activity σ (Except ε α)} {post : Except ε α → Γ → Prop}
    (h : p.Meets d crashes post g) {span : Span} {error : ε}
    (hn : ∀ g', d.step g g' → post (.error error) g') :
    (p.before span error).Meets d crashes post g :=
  Meets.map fun _ => Meets.withinFrom h (fun _ _ _ ha => ha) hn

/-! ### Parts of a state -/

/-- An activity on the part beside a discipline. -/
theorem Meets.focus_snd {p : Activity τ α} {J : τ → Prop} {post : α → Prop}
    (h : p.Meets (.standing J) crashes (fun a _ => post a) ()) :
    (p.focus Prod.snd fun t (s : σ × τ) => (s.1, t)).Meets (d.beside J) crashes
      (fun a g' => d.step g g' ∧ post a) g := by
  suffices H : ∀ g', d.step g g' → (p.focus Prod.snd fun t (s : σ × τ) => (s.1, t)).Meets
      (d.beside J) crashes (fun a g' => d.step g g' ∧ post a) g' from H g (d.refl g)
  induction p with
  | done a =>
    intro g' hg
    exact ⟨hg, h⟩
  | crash =>
    intro _ _
    exact h
  | read next ih =>
    intro g' hg s hs
    exact ih s.2 (h s.2 hs.2) g' hg
  | write t next ih =>
    obtain ⟨_, -, ht, h⟩ := h
    intro g' hg s hs
    exact ⟨g', d.refl g', ⟨hs.1, ht⟩, ih h g' hg⟩
  | allowance takes next ih =>
    intro g' hg isLeft
    exact ih isLeft (h isLeft) g' hg
  | wait millis leave next ih =>
    intro g' hg
    exact ⟨fun how => (h.1 how).beside,
      fun g'' hg' => ih (h.2 () trivial) g'' (d.trans hg hg')⟩

/-- A part that an activity keeps to itself is changed by nobody else. -/
theorem Meets.holding {p : Activity (σ × τ) α} {J : τ → Prop} {post : α → Γ → Prop}
    (h : p.Meets (d.beside J) crashes post g) {s : σ} (hs : d.describes g s) :
    (p.holding s).Meets (.standing J) crashes
      (fun r _ => ∃ g', d.step g g' ∧ d.describes g' r.2 ∧ post r.1 g') () := by
  suffices H : ∀ g' s, d.step g g' → d.describes g' s → p.Meets (d.beside J) crashes post g' →
      (p.holding s).Meets (.standing J) crashes
        (fun r _ => ∃ g', d.step g g' ∧ d.describes g' r.2 ∧ post r.1 g') () from
    H g s (d.refl g) hs h
  clear h hs s
  induction p with
  | done a =>
    intro g' s hg hs h
    exact ⟨g', hg, hs, h⟩
  | crash =>
    intro _ _ _ _ h
    exact h
  | read next ih =>
    intro g' s hg hs h t ht
    exact ih (s, t) g' s hg hs (h (s, t) ⟨hs, ht⟩)
  | write s' next ih =>
    intro g' s hg hs h
    obtain ⟨g'', hg', hs', h⟩ := h
    exact ⟨(), trivial, hs'.2, ih g'' s'.1 (d.trans hg hg') hs'.1 h⟩
  | allowance takes next ih =>
    intro g' s hg hs h isLeft
    exact ih isLeft g' s hg hs (h isLeft)
  | wait millis leave next ih =>
    intro g' s hg hs h
    refine ⟨fun how _ t ht => ?_, fun _ _ => ih g' s hg hs (h.2 g' (d.refl g'))⟩
    obtain ⟨_, -, -, hj⟩ := h.1 how g' (s, t) ⟨hs, ht⟩
    exact ⟨(), trivial, hj⟩

end Activity

/-! ## Services and dialogues -/

/-- What a client asks of a service, and what it may be replied. -/
structure Terms where
  asks : Request → Prop
  replies : (request : Request) → request.Reply → Prop

/-- A service that keeps to the terms while `J` stands on its state. -/
def Service.Gives {τ : Type} (service : Service τ) (J : τ → Prop) (crashes : Prop)
    (terms : Terms) : Prop :=
  ∀ request, terms.asks request →
    (service request).Meets (.standing J) crashes (fun reply _ => terms.replies request reply) ()

/-- Any service keeps to terms that allow every reply. -/
theorem Service.gives_any {τ : Type} (service : Service τ) {terms : Terms}
    (h : ∀ request reply, terms.replies request reply) :
    service.Gives (fun _ => True) True terms :=
  fun request _ => (Activity.meets_standing_true (service request)).mono id
    fun reply _ _ _ => h request reply

namespace Dialogue

variable {Γ σ τ α β ε : Type} {d : Discipline Γ σ} {terms : Terms} {post : α → Γ → Prop} {g : Γ}

theorem bind_done (p : Dialogue σ α) : p.bind done = p := by
  induction p with
  | done a => rfl
  | ask request next ih => exact congrArg (ask request) (funext ih)
  | read next ih => exact congrArg read (funext ih)
  | write s next ih => exact congrArg (write s) ih

theorem bind_assoc (p : Dialogue σ α) (f : α → Dialogue σ β) (g : β → Dialogue σ ε) :
    (p.bind f).bind g = p.bind fun a => (f a).bind g := by
  induction p with
  | done a => rfl
  | ask request next ih => exact congrArg (ask request) (funext ih)
  | read next ih => exact congrArg read (funext ih)
  | write s next ih => exact congrArg (write s) ih

instance : LawfulMonad (Dialogue σ) :=
  LawfulMonad.mk' (Dialogue σ) bind_done (fun _ _ => rfl) bind_assoc

theorem carry_bind (service : Service τ) (p : Dialogue σ α) (f : α → Dialogue σ β) :
    (p.bind f).carry service = (p.carry service).bind fun a => (f a).carry service := by
  induction p with
  | done a => rfl
  | ask request next ih =>
    refine Eq.trans ?_ (Activity.bind_assoc _ _ _).symm
    exact congrArg (Activity.bind _) (funext ih)
  | read next ih => exact congrArg Activity.read (funext fun s => ih s.1)
  | write s next ih => exact congrArg Activity.read (funext fun s' => congrArg (Activity.write _) ih)

/-- Whatever is replied within the terms, and whatever the others do before a reply comes, the
dialogue keeps to the terms and to the discipline and answers with `post`. -/
def Meets (d : Discipline Γ σ) (terms : Terms) (post : α → Γ → Prop) : Dialogue σ α → Γ → Prop
  | done a, g => post a g
  | ask request next, g => terms.asks request ∧
    ∀ g', d.step g g' → ∀ reply, terms.replies request reply → Meets d terms post (next reply) g'
  | read next, g => ∀ s, d.describes g s → Meets d terms post (next s) g
  | write s next, g => ∃ g', d.step g g' ∧ d.describes g' s ∧ Meets d terms post next g'

theorem Meets.mono {p : Dialogue σ α} {post' : α → Γ → Prop} (h : p.Meets d terms post g)
    (hp : ∀ a g', d.step g g' → post a g' → post' a g') : p.Meets d terms post' g := by
  induction p generalizing g with
  | done a => exact hp a g (d.refl g) h
  | ask request next ih =>
    exact ⟨h.1, fun g' hg reply hr => ih reply (h.2 g' hg reply hr)
      fun a g'' hg' => hp a g'' (d.trans hg hg')⟩
  | read next ih =>
    intro s hs
    exact ih s (h s hs) hp
  | write s next ih =>
    obtain ⟨g', hg, hs, h⟩ := h
    exact ⟨g', hg, hs, ih h fun a g'' hg' => hp a g'' (d.trans hg hg')⟩

theorem Meets.bind {p : Dialogue σ α} {f : α → Dialogue σ β} {post : β → Γ → Prop}
    (h : p.Meets d terms (fun a g => (f a).Meets d terms post g) g) :
    (p.bind f).Meets d terms post g := by
  induction p generalizing g with
  | done a => exact h
  | ask request next ih =>
    exact ⟨h.1, fun g' hg reply hr => ih reply (h.2 g' hg reply hr)⟩
  | read next ih =>
    intro s hs
    exact ih s (h s hs)
  | write s next ih =>
    obtain ⟨g', hg, hs, h⟩ := h
    exact ⟨g', hg, hs, ih h⟩

/-- One part of a dialogue after another, when an error ends it. -/
theorem Meets.bindExcept {p : ExceptT ε (Dialogue σ) α} {f : α → ExceptT ε (Dialogue σ) β}
    {post : Except ε β → Γ → Prop}
    (h : p.run.Meets d terms (fun r g =>
      match r with
      | .ok a => (f a).run.Meets d terms post g
      | .error error => post (.error error) g) g) :
    (p >>= f).run.Meets d terms post g := by
  refine Meets.bind (Meets.mono h fun r g' _ hr => ?_)
  cases r with
  | ok a => exact hr
  | error error => exact hr

/-- Going on with what a computation answers. -/
theorem meets_ofExcept {x : Except ε α} {f : α → ExceptT ε (Dialogue σ) β}
    {post : Except ε β → Γ → Prop} (h : ∀ a, x = .ok a → (f a).run.Meets d terms post g)
    (he : ∀ error, x = .error error → post (.error error) g) :
    (ExceptT.mk (pure x) >>= f).run.Meets d terms post g := by
  cases x with
  | ok a => exact h a rfl
  | error error => exact he error rfl

theorem meets_fetch {wrap : ApiError → ε} (request : Request)
    {post : Except ε request.Answer → Γ → Prop}
    (ha : terms.asks request)
    (h : ∀ g', d.step g g' → ∀ reply, terms.replies request reply →
      post (reply.mapError wrap) g') :
    (fetch wrap request).run.Meets d terms post g := by
  refine ⟨ha, fun g' hg reply hr => ?_⟩
  have hp := h g' hg reply hr
  cases reply with
  | ok answer => exact hp
  | error error => exact hp

/-- Going on with what a computation is known to answer. -/
theorem meets_ofOk {x : Except ε α} {a : α} (hx : x = .ok a)
    {f : α → ExceptT ε (Dialogue σ) β} {post : Except ε β → Γ → Prop}
    (h : (f a).run.Meets d terms post g) :
    (ExceptT.mk (pure x) >>= f).run.Meets d terms post g := by
  subst hx
  exact h

/-- Going on with the only answer that the terms allow. -/
theorem meets_answer {wrap : ApiError → ε} {request : Request} {answer : request.Answer}
    (ha : terms.asks request) (hr : ∀ reply, terms.replies request reply → reply = .ok answer)
    {f : request.Answer → ExceptT ε (Dialogue σ) β} {post : Except ε β → Γ → Prop}
    (h : ∀ g', d.step g g' → (f answer).run.Meets d terms post g') :
    (fetch wrap request >>= f).run.Meets d terms post g := by
  refine .bindExcept (meets_fetch request ha fun g' hg reply hreply => ?_)
  rw [hr reply hreply]
  exact h g' hg

/-- A dialogue carried out by a service that gives such replies. -/
theorem Meets.carry {p : Dialogue σ α} {service : Service τ} {J : τ → Prop} {crashes : Prop}
    (h : p.Meets d terms post g) (hs : service.Gives J crashes terms) :
    (p.carry service).Meets (d.beside J) crashes post g := by
  induction p generalizing g with
  | done a => exact h
  | ask request next ih =>
    exact Activity.Meets.bind <| (Activity.Meets.focus_snd (hs request h.1)).mono id
      fun reply g' _ hr => ih reply (h.2 g' hr.1 reply hr.2)
  | read next ih =>
    intro s hd
    exact ih s.1 (h s.1 hd.1)
  | write s next ih =>
    obtain ⟨g', hg, hd, h⟩ := h
    intro s' hs'
    exact ⟨g', hg, ⟨hd, hs'.2⟩, ih h⟩

/-- A dialogue that needs no memory, carried out by a service that gives such replies. -/
theorem Meets.carryAlone {p : Dialogue Unit α} {service : Service τ} {J : τ → Prop}
    {crashes : Prop} {post : α → Prop}
    (h : p.Meets (.standing fun _ => True) terms (fun a _ => post a) ())
    (hs : service.Gives J crashes terms) :
    (p.carryAlone service).Meets (.standing J) crashes (fun a _ => post a) () := by
  induction p with
  | done a => exact h
  | ask request next ih =>
    exact Activity.Meets.bind <| (hs request h.1).mono id
      fun reply _ _ hr => ih reply (h.2 () trivial reply hr)
  | read next ih => exact ih () (h () trivial)
  | write s next ih =>
    obtain ⟨_, _, _, h⟩ := h
    exact ih h

end Dialogue
end SealedDrive
