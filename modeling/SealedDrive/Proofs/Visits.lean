import SealedDrive.Proofs.Clock
import SealedDrive.Proofs.Intake
import SealedDrive.Proofs.Shown

/-!
Walks under the clock. A walk asks for one listing after the other and takes in what it is replied
before it goes on; only the listings take time. So a bound over the whole walk cuts it off at a
listing that has not come: the tree then has what the listings before brought, and the walk without
a bound, which hears the same up to there, only adds to it.
-/

namespace SealedDrive

variable {σ τ α β γ : Type}

/-! ## Clocks -/

namespace Activity

variable {turn : Nat → σ → σ}

/-- A clock that was started earlier shows as much more. -/
theorem run_timed_add (p : Activity σ α) (turn : Nat → σ → σ) (spent more left : Nat) (s : σ) :
    (p.timed (spent + more)).run turn left s =
      (((p.timed more).run turn left s).1.map fun r => (r.1, spent + r.2),
        ((p.timed more).run turn left s).2) := by
  induction p generalizing more left s with
  | done a => rfl
  | crash => rfl
  | read next ih => exact ih s more left s
  | write s' next ih => exact ih more left s'
  | allowance takes next ih => exact ih _ more _ s
  | wait millis leave next ih =>
    simp only [timed, run, Nat.add_assoc]
    exact ih _ _ _

theorem focus_timed {get : τ → σ} {set : σ → τ → τ} (p : Activity σ α) (spent : Nat) :
    (p.focus get set).timed spent = (p.timed spent).focus get set := by
  induction p generalizing spent with
  | done a => rfl
  | crash => rfl
  | read next ih => exact congrArg read (funext fun t => ih (get t) spent)
  | write s next ih => exact congrArg read (funext fun t => congrArg (write (set s t)) (ih spent))
  | allowance takes next ih =>
    exact congrArg (allowance takes) (funext fun isLeft => ih isLeft spent)
  | wait millis leave next ih => exact congrArg (wait millis _) (ih _)

/-- Beside a part that nobody touches. -/
theorem run_timed_focus_snd {p : Activity τ α} {turn : Nat → τ → τ} {left left' : Nat}
    {t t' : τ} {r : Option (α × Nat)} (h : (p.timed 0).run turn left t = (r, left', t'))
    (spent : Nat) (s : σ) :
    ((p.focus Prod.snd fun t (s : σ × τ) => (s.1, t)).timed spent).run
        (fun millis s => (s.1, turn millis s.2)) left (s, t) =
      (r.map fun r => (r.1, spent + r.2), left', (s, t')) := by
  have hlater := run_timed_add p turn spent 0 left t
  rw [Nat.add_zero, h] at hlater
  rw [focus_timed, run_focus_snd, hlater]

/-- What takes no time is done before whatever comes after it, on the clock and under a bound. -/
theorem Waitless.run_bind {p : Activity σ α} (h : p.Waitless) {F : Activity σ β → Activity σ γ}
    (hread : ∀ next, F (.read next) = .read fun s => F (next s))
    (hwrite : ∀ s next, F (.write s next) = .write s (F next)) {f : α → Activity σ β}
    {left left' : Nat} {s s' : σ} {a : α} (hr : p.run turn left s = (some a, left', s')) :
    (F (p.bind f)).run turn left s = (F (f a)).run turn left' s' := by
  induction h generalizing s with
  | done a =>
    cases hr
    rfl
  | read _ ih =>
    simp only [Activity.bind, hread, run]
    exact ih s hr
  | write _ ih =>
    simp only [Activity.bind, hwrite, run]
    exact ih hr

/-- Once the time is up, the answer is the error of the bound. -/
theorem run_before {ε : Type} {p : Activity σ (Except ε α)} {span : Span} {error : ε}
    {left left' : Nat} {s s' : σ}
    (h : ((p.withinFrom (0 < left) span.millis).timed 0).run turn left s =
      (some (none, 0 + span.millis), left', s')) :
    ((p.before span error).timed 0).run turn left s =
      (some (.error error, span.millis), left', s') := by
  have hwithin : ((p.within span.millis).timed 0).run turn left s =
      (some (none, span.millis), left', s') := by
    rw [Nat.zero_add] at h
    exact h
  rw [before, orElse, Activity.map, timed_bind, run_bind, hwithin]
  rfl

end Activity

/-! ## Listings -/

/-- A listing that a walk asked for, the reply and how long it took to come. -/
structure Visit where
  folder : Link
  reply : Except ApiError (List LinkRecord)
  millis : Nat

namespace Visit

/-- The ids of the children that came. -/
def ids (visit : Visit) : List String :=
  match visit.reply with
  | .ok records => records.map (·.linkId)
  | .error _ => []

/-- The listing came, and all of it opens below the folder. -/
def Opens (share : Share) (visit : Visit) : Prop :=
  ∃ records, visit.reply = .ok records ∧
    ∀ record ∈ records, ∃ node, share.Accepts visit.folder record node

/-- How long these listings take together. -/
def total (visits : List Visit) : Nat := (visits.map (·.millis)).sum

@[simp]
theorem total_nil : total [] = 0 := rfl

@[simp]
theorem total_cons (visit : Visit) (rest : List Visit) :
    total (visit :: rest) = visit.millis + total rest := rfl

end Visit

namespace Arena

variable {arena after : Arena} {id : String}

/-- A link with the id is known. -/
def Has (arena : Arena) (id : String) : Prop := (arena.find? id).isSome

theorem has_insert (arena : Arena) (node : Node) (id : String) :
    (arena.insert node).2.Has id ↔ arena.Has id ∨ id = node.id := by
  unfold Has
  cases hf : arena.find? node.id with
  | some h =>
    rw [insert_of_known hf, find?_replace]
    refine ⟨.inl, fun hor => hor.elim (fun h => h) ?_⟩
    rintro rfl
    rw [hf]
    rfl
  | none =>
    rw [insert_of_new hf]
    by_cases hid : id = node.id
    · simp [find?, List.lookup_append, hid]
    · simp [find?, List.lookup_append, lookup_single, hid]

theorem TookIn.has_iff {links : List Link} (h : arena.TookIn links after) :
    after.Has id ↔ arena.Has id ∨ ∃ link ∈ links, link.id = id := by
  induction links generalizing arena with
  | nil =>
    obtain rfl := (Prod.mk.inj h.inserted).2
    simp
  | cons link rest ih =>
    obtain ⟨between, hi, ht⟩ := h.uncons
    have hfirst := has_insert arena link.node id
    rw [hi] at hfirst
    rw [ih ht, hfirst, List.exists_mem_cons_iff, or_assoc, eq_comm]
    rfl

end Arena

namespace Share

variable {share : Share} {parent : Link} {records : List LinkRecord} {arena after : Arena}
  {links : List Link} {answer : Except DriveError (List Link)} {id : String}

theorem Accepts.id_eq {record : LinkRecord} {node : Node} (h : share.Accepts parent record node) :
    node.id = record.linkId := by
  obtain ⟨-, hr, -⟩ := Node.derive_eq_ok_iff.mp h.opens
  rw [Node.id, hr]

/-- A listing that opens brings the ids of its records. -/
theorem TakesIn.has_iff (h : share.TakesIn parent records arena (.ok links) after) :
    after.Has id ↔ arena.Has id ∨ id ∈ records.map (·.linkId) := by
  cases h with
  | whole hr ht =>
    rw [ht.has_iff, List.mem_map]
    refine or_congr_right ⟨?_, ?_⟩
    · rintro ⟨link, hm, rfl⟩
      obtain ⟨record, hrm, ha⟩ := exists_of_forall₂_right hr hm
      exact ⟨record, hrm, ha.id_eq.symm⟩
    · rintro ⟨record, hrm, rfl⟩
      obtain ⟨link, hm, ha⟩ := exists_of_forall₂_left hr hrm
      exact ⟨link, hm, ha.id_eq⟩

theorem TakesIn.has_mono (h : share.TakesIn parent records arena answer after)
    (hid : arena.Has id) : after.Has id := by
  cases h with
  | whole _ ht => exact ht.has_iff.mpr (.inl hid)
  | upTo _ _ _ ht => exact ht.has_iff.mpr (.inl hid)

/-- All of a listing opens when it is taken in as a whole, and only then. -/
theorem TakesIn.opens (h : share.TakesIn parent records arena (.ok links) after) :
    ∀ record ∈ records, ∃ node, share.Accepts parent record node := by
  cases h with
  | whole hr _ =>
    intro record hrm
    obtain ⟨link, -, ha⟩ := exists_of_forall₂_left hr hrm
    exact ⟨link.node, ha⟩

theorem TakesIn.not_opens {error : DriveError}
    (h : share.TakesIn parent records arena (.error error) after) :
    ¬ ∀ record ∈ records, ∃ node, share.Accepts parent record node := by
  cases h with
  | @upTo before rest record _ _ _ he _ hno _ =>
    intro hall
    obtain ⟨node, ha⟩ := hall record (he ▸ List.mem_append_right _ List.mem_cons_self)
    have hok : share.materialize parent record after = (.ok _, _) :=
      materialize_of_derive ha.named ha.opens
    rw [materialize_eq_error_iff.mpr ⟨hno, rfl⟩] at hok
    cases hok

theorem exists_takesIn (share : Share) (parent : Link) (records : List LinkRecord)
    (arena : Arena) : ∃ answer after, share.TakesIn parent records arena answer after := by
  -- any service will do, as nothing is asked
  have service : Service Unit := fun _ => .crash
  obtain ⟨answer, after, ht, -⟩ : ∃ answer after, share.TakesIn parent records arena answer after ∧
      ((records.mapM (share.adopt parent)).run.carry service).run (fun _ s => s) 0 (arena, ()) =
        (some answer, 0, (after, ())) := run_adoptAll records _ 0 arena ()
  exact ⟨answer, after, ht⟩

/-- Taking in records takes no time. -/
theorem TakesIn.run (h : share.TakesIn parent records arena answer after) (service : Service τ)
    (turn : Nat → Arena × τ → Arena × τ) (left : Nat) (server : τ) :
    ((records.mapM (share.adopt parent)).run.carry service).run turn left (arena, server) =
      (some answer, left, (after, server)) := by
  obtain ⟨answer', after', h', hr⟩ : ∃ answer after,
    share.TakesIn parent records arena answer after ∧
      ((records.mapM (share.adopt parent)).run.carry service).run turn left (arena, server) =
        (some answer, left, (after, server)) := run_adoptAll records turn left arena server
  obtain ⟨rfl, rfl⟩ := h.unique h'
  exact hr

end Share

/-! ## Walks -/

namespace Link

/-- Ask for the children of a folder, and how long that takes. -/
def call (service : Service τ) (share : Share) (all : Bool) (turn : Nat → τ → τ) (folder : Link)
    (left : Nat) (server : τ) : Option (Except ApiError (List LinkRecord) × Nat) × Nat × τ :=
  ((service (.listChildren share.id folder.id all)).timed 0).run turn left server

/-- How a walk goes that nobody bounds: the listings that come, what it answers, and how allowance,
tree and server stand in the end. -/
inductive Walks (service : Service τ) (share : Share) (all : Bool) (turn : Nat → τ → τ) :
    List String → Link → List String → Nat × Arena × τ → List Visit →
    Option (Except DriveError Link) → Nat × Arena × τ → Prop
  | arrived {walked : List String} {link : Link} {state : Nat × Arena × τ} :
    Walks service share all turn walked link [] state [] (some (.ok link)) state
  | file {walked rest : List String} {segment : String} {link : Link} {left : Nat} {arena : Arena}
    {server : τ} : link.isFolder = false →
    Walks service share all turn walked link (segment :: rest) (left, arena, server) []
      (some (.error (.notAFolder (link.path arena)))) (left, arena, server)
  /-- The service crashes. -/
  | crashed {walked rest : List String} {segment : String} {link : Link} {left left' : Nat}
    {arena : Arena} {server server' : τ} : link.isFolder = true →
    link.call service share all turn left server = (none, left', server') →
    Walks service share all turn walked link (segment :: rest) (left, arena, server) [] none
      (left', arena, server')
  | refused {walked rest : List String} {segment : String} {link : Link} {left left' millis : Nat}
    {arena : Arena} {server server' : τ} {error : ApiError} : link.isFolder = true →
    link.call service share all turn left server = (some (.error error, millis), left', server') →
    Walks service share all turn walked link (segment :: rest) (left, arena, server)
      [⟨link, .error error, millis⟩] (some (.error (.api error))) (left', arena, server')
  /-- A record of the listing does not open. -/
  | broken {walked rest : List String} {segment : String} {link : Link} {left left' millis : Nat}
    {arena after : Arena} {server server' : τ} {records : List LinkRecord} {error : DriveError} :
    link.isFolder = true →
    link.call service share all turn left server = (some (.ok records, millis), left', server') →
    share.TakesIn link records arena (.error error) after →
    Walks service share all turn walked link (segment :: rest) (left, arena, server)
      [⟨link, .ok records, millis⟩] (some (.error error)) (left', after, server')
  | missing {walked rest : List String} {segment : String} {link : Link} {left left' millis : Nat}
    {arena after : Arena} {server server' : τ} {records : List LinkRecord} {links : List Link} :
    link.isFolder = true →
    link.call service share all turn left server = (some (.ok records, millis), left', server') →
    share.TakesIn link records arena (.ok links) after →
    links.find? (·.name = segment) = none →
    Walks service share all turn walked link (segment :: rest) (left, arena, server)
      [⟨link, .ok records, millis⟩]
      (some (.error (.fileNotFound (Path.join (walked ++ [segment]))))) (left', after, server')
  | next {walked rest : List String} {segment : String} {link child : Link}
    {left left' millis : Nat} {arena after : Arena} {server server' : τ}
    {records : List LinkRecord} {links : List Link} {visits : List Visit}
    {answer : Option (Except DriveError Link)} {final : Nat × Arena × τ} : link.isFolder = true →
    link.call service share all turn left server = (some (.ok records, millis), left', server') →
    share.TakesIn link records arena (.ok links) after →
    links.find? (·.name = segment) = some child →
    Walks service share all turn (walked ++ [segment]) child rest (left', after, server') visits
      answer final →
    Walks service share all turn walked link (segment :: rest) (left, arena, server)
      (⟨link, .ok records, millis⟩ :: visits) answer final

/-- The same, beside the tree. -/
def listing (service : Service τ) (share : Share) (all : Bool) (folder : Link) :
    Activity (Arena × τ) (Except ApiError (List LinkRecord)) :=
  (service (.listChildren share.id folder.id all)).focus Prod.snd fun t s => (s.1, t)

/-- What a walk does when the children of a folder are known. -/
def goBelow (service : Service τ) (share : Share) (all : Bool) (walked : List String)
    (segment : String) (rest : List String) :
    Except DriveError (List Link) → Activity (Arena × τ) (Except DriveError Link)
  | .error error => .done (.error error)
  | .ok links =>
    match links.find? (·.name = segment) with
    | some child => (walk share all (walked ++ [segment]) child rest).run.carry service
    | none => .done (.error (.fileNotFound (Path.join (walked ++ [segment]))))

/-- What a walk does when the reply of a listing has come. -/
def goOn (service : Service τ) (share : Share) (all : Bool) (walked : List String) (link : Link)
    (segment : String) (rest : List String) :
    Except ApiError (List LinkRecord) → Activity (Arena × τ) (Except DriveError Link)
  | .error error => .done (.error (.api error))
  | .ok records => ((records.mapM (share.adopt link)).run.carry service).bind
    (goBelow service share all walked segment rest)

variable {service : Service τ} {share : Share} {all : Bool} {turn : Nat → τ → τ}
  {walked rest segments : List String} {segment : String} {link : Link}

/-- Walking on from a folder is asking for its children, and going on with the reply. -/
theorem carry_walk_folder (h : link.isFolder = true) :
    (walk share all walked link (segment :: rest)).run.carry service =
      (link.listing service share all).bind (goOn service share all walked link segment rest) := by
  rw [walk_folder h, children_folder h]
  refine Eq.trans (Dialogue.carry_bind _ _ _) ?_
  refine Eq.trans (congrArg (fun p => Activity.bind p _) (Dialogue.carry_bind _ _ _)) ?_
  refine Eq.trans (Activity.bind_assoc _ _ _) ?_
  refine Eq.trans (Activity.bind_assoc _ _ _) (congrArg (Activity.bind _) (funext fun reply => ?_))
  cases reply with
  | error error => rfl
  | ok records =>
    show Activity.bind ((records.mapM (share.adopt link)).run.carry service) _ =
      goOn service share all walked link segment rest (.ok records)
    refine congrArg (Activity.bind _) (funext fun taken => ?_)
    cases taken with
    | error error => rfl
    | ok links =>
      dsimp only [ExceptT.bindCont, goBelow]
      cases links.find? (·.name = segment) <;> rfl

/-- Taking in the records takes no time, so it is done whatever bounds the walk. -/
theorem run_goOn {F : Activity (Arena × τ) (Except DriveError Link) → Activity (Arena × τ) γ}
    (hread : ∀ next, F (.read next) = .read fun s => F (next s))
    (hwrite : ∀ s next, F (.write s next) = .write s (F next))
    {turn : Nat → Arena × τ → Arena × τ} {records : List LinkRecord} {arena after : Arena}
    {taken : Except DriveError (List Link)} (ht : share.TakesIn link records arena taken after)
    (left : Nat) (server : τ) :
    (F (goOn service share all walked link segment rest (.ok records))).run turn left
        (arena, server) =
      (F (goBelow service share all walked segment rest taken)).run turn left
        (after, server) := by
  exact (Share.waitless_adoptAll records).run_bind hread hwrite (ht.run service turn left server)

/-- The others leave the tree alone. -/
abbrev aside (turn : Nat → τ → τ) (millis : Nat) (s : Arena × τ) : Arena × τ :=
  (s.1, turn millis s.2)

theorem run_call {left left' : Nat} {arena : Arena} {server server' : τ}
    {reply : Option (Except ApiError (List LinkRecord) × Nat)}
    (h : link.call service share all turn left server = (reply, left', server')) (spent : Nat) :
    ((link.listing service share all).timed spent).run (aside turn) left (arena, server) =
      (reply.map fun r => (r.1, spent + r.2), left', (arena, server')) :=
  Activity.run_timed_focus_snd h spent arena

/-- Every walk goes in one of these ways. -/
theorem exists_walks (service : Service τ) (share : Share) (all : Bool) (turn : Nat → τ → τ)
    (segments walked : List String) (link : Link) (left : Nat) (arena : Arena) (server : τ) :
    ∃ visits answer final, Walks service share all turn walked link segments (left, arena, server)
      visits answer final := by
  induction segments generalizing walked link left arena server with
  | nil => exact ⟨_, _, _, .arrived⟩
  | cons segment rest ih =>
    cases hf : link.isFolder with
    | false => exact ⟨_, _, _, .file hf⟩
    | true =>
      rcases hc : link.call service share all turn left server with
        ⟨_ | ⟨error | records, millis⟩, left', server'⟩
      · exact ⟨_, _, _, .crashed hf hc⟩
      · exact ⟨_, _, _, .refused hf hc⟩
      · obtain ⟨taken, after, ht⟩ := share.exists_takesIn link records arena
        cases taken with
        | error error => exact ⟨_, _, _, .broken hf hc ht⟩
        | ok links =>
          cases hn : links.find? (·.name = segment) with
          | none => exact ⟨_, _, _, .missing hf hc ht hn⟩
          | some child =>
            obtain ⟨visits, answer, final, hw⟩ := ih (walked ++ [segment]) child left' after server'
            exact ⟨_, _, _, .next hf hc ht hn hw⟩

variable {start final : Nat × Arena × τ} {visits : List Visit}
  {answer : Option (Except DriveError Link)}

/-- It takes as long as its listings. -/
theorem Walks.run (h : Walks service share all turn walked link segments start visits answer final)
    (spent : Nat) :
    (((walk share all walked link segments).run.carry service).timed spent).run (aside turn) start.1
        start.2 = (answer.map (·, spent + Visit.total visits), final) := by
  induction h generalizing spent with
  | arrived => rfl
  | file hf =>
    rw [walk_file hf]
    rfl
  | crashed hf hc =>
    rw [carry_walk_folder hf, Activity.timed_bind, Activity.run_bind, run_call hc]
    rfl
  | refused hf hc =>
    rw [carry_walk_folder hf, Activity.timed_bind, Activity.run_bind, run_call hc]
    rfl
  | broken hf hc ht =>
    rw [carry_walk_folder hf, Activity.timed_bind, Activity.run_bind, run_call hc]
    exact run_goOn (F := fun q => q.timed _) (fun _ => rfl) (fun _ _ => rfl) ht _ _
  | missing hf hc ht hn =>
    rw [carry_walk_folder hf, Activity.timed_bind, Activity.run_bind, run_call hc]
    refine (run_goOn (F := fun q => q.timed _) (fun _ => rfl) (fun _ _ => rfl) ht _ _).trans ?_
    simp only [goBelow, hn]
    rfl
  | next hf hc ht hn _ ih =>
    rw [carry_walk_folder hf, Activity.timed_bind, Activity.run_bind, run_call hc]
    refine (run_goOn (F := fun q => q.timed _) (fun _ => rfl) (fun _ _ => rfl) ht _ _).trans ?_
    simp only [goBelow, hn, Visit.total_cons, ← Nat.add_assoc]
    exact ih _

/-- A walk only adds to the tree, all of every listing that opens. -/
theorem Walks.has (h : Walks service share all turn walked link segments start visits answer final)
    (id : String) : (start.2.1.Has id → final.2.1.Has id) ∧
      ∀ visit ∈ visits, visit.Opens share → id ∈ visit.ids → final.2.1.Has id := by
  induction h with
  | arrived => exact ⟨fun h => h, fun _ hm => absurd hm List.not_mem_nil⟩
  | file => exact ⟨fun h => h, fun _ hm => absurd hm List.not_mem_nil⟩
  | crashed => exact ⟨fun h => h, fun _ hm => absurd hm List.not_mem_nil⟩
  | refused =>
    refine ⟨fun h => h, fun visit hm ho => ?_⟩
    obtain ⟨records, hr, -⟩ := ho
    rw [List.mem_singleton.mp hm] at hr
    cases hr
  | broken _ _ ht =>
    refine ⟨ht.has_mono, fun visit hm ho => ?_⟩
    obtain ⟨records, hr, hall⟩ := ho
    rw [List.mem_singleton.mp hm] at hr hall
    cases hr
    exact absurd hall ht.not_opens
  | missing _ _ ht =>
    refine ⟨ht.has_mono, fun visit hm _ hid => ?_⟩
    rw [List.mem_singleton.mp hm] at hid
    exact ht.has_iff.mpr (.inr hid)
  | next _ _ ht _ _ ih =>
    refine ⟨fun h => ih.1 (ht.has_mono h), fun visit hm ho hid => ?_⟩
    rcases List.mem_cons.mp hm with rfl | hm
    · exact ih.1 (ht.has_iff.mpr (.inr hid))
    · exact ih.2 visit hm ho hid

/-- How a walk stands that is cut off after so many milliseconds: the listings that had come, the
one that it was waiting for, and the tree, which has what was there and what those brought. -/
structure CutOff (share : Share) (arena : Arena) (visits : List Visit) (budget : Nat)
    (received : List Visit) (missed : Visit) (between : Arena) : Prop where
  visits_eq : ∃ later, visits = received ++ missed :: later
  inTime : Visit.total received ≤ budget
  late : budget ≤ Visit.total received + missed.millis
  opens : ∀ visit ∈ received, visit.Opens share
  has_iff : ∀ id, between.Has id ↔ arena.Has id ∨ ∃ visit ∈ received, id ∈ visit.ids

/-- Nothing has come yet. -/
theorem cutOff_first {arena : Arena} {budget : Nat} {missed : Visit} (later : List Visit)
    (h : budget ≤ missed.millis) :
    CutOff share arena (missed :: later) budget [] missed arena where
  visits_eq := ⟨later, rfl⟩
  inTime := Nat.zero_le _
  late := by
    rw [Visit.total_nil, Nat.zero_add]
    exact h
  opens _ hm := absurd hm List.not_mem_nil
  has_iff id := by simp

/-- A listing that comes in time, and the rest under what is left. -/
theorem CutOff.cons {arena after between : Arena} {budget millis : Nat}
    {records : List LinkRecord} {links : List Link} {received : List Visit} {missed : Visit}
    (ht : share.TakesIn link records arena (.ok links) after) (hle : millis ≤ budget)
    (h : CutOff share after visits (budget - millis) received missed between) :
    CutOff share arena (⟨link, .ok records, millis⟩ :: visits) budget
      (⟨link, .ok records, millis⟩ :: received) missed between where
  visits_eq := by
    obtain ⟨later, hv⟩ := h.visits_eq
    exact ⟨later, congrArg _ hv⟩
  inTime := by
    have := h.inTime
    rw [Visit.total_cons]
    dsimp only
    omega
  late := by
    have := h.late
    rw [Visit.total_cons]
    dsimp only
    omega
  opens := List.forall_mem_cons.mpr ⟨⟨records, rfl, ht.opens⟩, h.opens⟩
  has_iff id := by
    rw [h.has_iff, ht.has_iff, List.exists_mem_cons_iff, or_assoc]
    rfl

/-- A listing under a bound: it comes in time, and the walk goes on with what is left of the time,
or the time is up while the walk waits for it. -/
theorem run_listing_within {left left' millis : Nat} {arena : Arena} {server server' : τ}
    {reply : Except ApiError (List LinkRecord)}
    (hc : link.call service share all turn left server = (some (reply, millis), left', server'))
    (f : Except ApiError (List LinkRecord) → Activity (Arena × τ) (Except DriveError Link))
    (watches : Bool) (budget spent : Nat) :
    (millis ≤ budget ∧ ∃ watches',
      ((((link.listing service share all).bind f).withinFrom watches budget).timed spent).run
          (aside turn) left (arena, server) =
        (((f reply).withinFrom watches' (budget - millis)).timed (spent + millis)).run (aside turn)
          left' (arena, server')) ∨
    (budget ≤ millis ∧ ∃ left'' server'',
      ((((link.listing service share all).bind f).withinFrom watches budget).timed spent).run
          (aside turn) left (arena, server) =
        (some (none, spent + budget), left'', (arena, server''))) := by
  have hturn (millis : Nat) : ((Discipline.unchanged Arena).beside fun _ : τ => True).Allows
      (aside turn millis) := fun g _ hs => ⟨g, rfl, hs⟩
  have hmeets : (link.listing service share all).Meets
      ((Discipline.unchanged Arena).beside fun _ => True) True (fun _ _ => True) arena :=
    Activity.meets_unchanged (service (.listChildren share.id link.id all))
  have hfree : ((link.listing service share all).timed spent).run (aside turn) left
      (arena, server) = (some (reply, spent + millis), left', (arena, server')) :=
    run_call hc spent
  obtain ⟨_, rfl, hcases⟩ := hmeets.run_withinFrom_bind hturn f watches budget spent left
    (s := (arena, server)) ⟨rfl, trivial⟩
  rcases hcases with ⟨reply', now, left'', s', watches', hrun, hle, -, -, hbound⟩ |
    ⟨left'', s', hbound, hs', hlate⟩ | ⟨-, hcrash, -⟩
  · -- what came in time is what comes without a bound
    cases hrun.symm.trans hfree
    refine .inl ⟨by omega, watches', ?_⟩
    have hleft : spent + budget - (spent + millis) = budget - millis := by omega
    rw [hleft] at hbound
    exact hbound
  · obtain ⟨arena', server''⟩ := s'
    obtain rfl : arena = arena' := hs'.1
    have hle := hlate reply (spent + millis) (congrArg Prod.fst hfree)
    exact .inr ⟨by omega, left'', server'', hbound⟩
  · rw [hfree] at hcrash
    cases hcrash

/-- A last listing that outlasts the bound is waited for until the time is up. -/
theorem run_missed {left left' millis : Nat} {arena : Arena} {server server' : τ}
    {reply : Except ApiError (List LinkRecord)} (hf : link.isFolder = true)
    (hc : link.call service share all turn left server = (some (reply, millis), left', server'))
    (watches : Bool) {budget : Nat} (hlt : budget < Visit.total [⟨link, reply, millis⟩])
    (spent : Nat) :
    ∃ received missed between left' server',
      CutOff share arena [⟨link, reply, millis⟩] budget received missed between ∧
      ((((walk share all walked link (segment :: rest)).run.carry service).withinFrom watches
          budget).timed spent).run (aside turn) left (arena, server) =
        (some (none, spent + budget), left', (between, server')) := by
  rw [carry_walk_folder hf]
  have hlong : budget < millis := hlt
  obtain ⟨hle, -⟩ | ⟨hle, left', server', hrun⟩ := run_listing_within hc _ watches budget spent
  · exact absurd hle (Nat.not_le_of_lt hlong)
  · exact ⟨[], _, _, left', server', cutOff_first [] hle, hrun⟩

/-- By induction on the walk: under a bound that its listings outlast, the time is up exactly then,
while the walk waits for one of them. -/
theorem Walks.cut (h : Walks service share all turn walked link segments start visits answer final)
    (watches : Bool) {budget : Nat} (hlt : budget < Visit.total visits) (spent : Nat) :
    ∃ received missed between left' server',
      CutOff share start.2.1 visits budget received missed between ∧
      ((((walk share all walked link segments).run.carry service).withinFrom watches budget).timed
          spent).run (aside turn) start.1 start.2 =
        (some (none, spent + budget), left', (between, server')) := by
  induction h generalizing watches budget spent with
  | arrived => exact absurd hlt (Nat.not_lt_zero _)
  | file => exact absurd hlt (Nat.not_lt_zero _)
  | crashed => exact absurd hlt (Nat.not_lt_zero _)
  | refused hf hc => exact run_missed hf hc watches hlt spent
  | broken hf hc => exact run_missed hf hc watches hlt spent
  | missing hf hc => exact run_missed hf hc watches hlt spent
  | @next _ _ _ _ _ _ _ millis _ _ _ _ _ _ visits _ _ hf hc ht hn _ ih =>
    rw [carry_walk_folder hf]
    have hlong : budget < millis + Visit.total visits := hlt
    obtain ⟨hle, watches', hrun⟩ | ⟨hle, left', server', hrun⟩ :=
      run_listing_within hc _ watches budget spent
    · -- the rest of the walk has what the first listing left of the time
      have hless : budget - millis < Visit.total visits := by omega
      obtain ⟨received, missed, between, left', server', hcut, hrest⟩ :=
        ih watches' hless (spent + millis)
      refine ⟨_, missed, between, left', server', hcut.cons ht hle, hrun.trans ?_⟩
      refine (run_goOn (F := fun q => (q.withinFrom watches' (budget - millis)).timed _)
        (fun _ => rfl) (fun _ _ => rfl) ht _ _).trans ?_
      have htotal : spent + millis + (budget - millis) = spent + budget := by omega
      simp only [goBelow, hn, ← htotal]
      exact hrest
    · exact ⟨[], _, _, left', server', cutOff_first visits hle, hrun⟩

end Link

/-! ## Timeouts -/

/-- The same share under another time bound. -/
def Share.withTimeout (share : Share) (timeout : Option Span) : Share :=
  { share with session := { share.session with timeout } }

/-- The bound has no part in what a walk does. -/
theorem Link.walk_withTimeout (share : Share) (timeout : Option Span) (all : Bool)
    (segments walked : List String) (link : Link) :
    walk (share.withTimeout timeout) all walked link segments =
      walk share all walked link segments := by
  induction segments generalizing walked link with
  | nil => rfl
  | cons segment rest ih =>
    have hadopt : (share.withTimeout timeout).adopt link = share.adopt link := rfl
    simp only [walk, children, hadopt, ih]
    rfl

namespace Link

/-- How a resolution goes that nobody bounds: a path that is no path ends it before anything is
asked. -/
inductive Resolves (service : Service τ) (share : Share) (all : Bool) (turn : Nat → τ → τ)
    (link : Link) (path : String) (start : Nat × Arena × τ) :
    List Visit → Option (Except DriveError Link) → Nat × Arena × τ → Prop
  | unreadable {error : DriveError} : Path.segments path = .error error →
    Resolves service share all turn link path start [] (some (.error error)) start
  | walks {segments : List String} {visits : List Visit}
    {answer : Option (Except DriveError Link)} {final : Nat × Arena × τ} :
    Path.segments path = .ok segments →
    Walks service share all turn [] link segments start visits answer final →
    Resolves service share all turn link path start visits answer final

/-- What a resolution answers and when, and how allowance, tree and server stand then. -/
def clockResolve (service : Service τ) (share : Share) (link : Link) (path : String) (all : Bool)
    (turn : Nat → τ → τ) (left : Nat) (arena : Arena) (server : τ) :
    Option (Except DriveError Link × Nat) × Nat × Arena × τ :=
  ((link.resolve service share path all).timed 0).run (aside turn) left (arena, server)

variable {service : Service τ} {share : Share} {all : Bool} {turn : Nat → τ → τ} {link : Link}
  {path : String} {left : Nat} {arena : Arena} {server : τ} {segments : List String}

theorem clockResolve_error {error : DriveError} (h : Path.segments path = .error error)
    (timeout : Option Span) :
    link.clockResolve service (share.withTimeout timeout) path all turn left arena server =
      (some (.error error, 0), left, (arena, server)) := by
  unfold clockResolve resolve
  rw [h]
  rfl

/-- The walk as it is when nobody bounds it. -/
theorem clockResolve_none (h : Path.segments path = .ok segments) :
    link.clockResolve service (share.withTimeout none) path all turn left arena server =
      (((walk share all [] link segments).run.carry service).timed 0).run (aside turn) left
        (arena, server) := by
  unfold clockResolve resolve
  rw [h, ← walk_withTimeout share none]
  rfl

theorem clockResolve_some (h : Path.segments path = .ok segments) (span : Span) :
    link.clockResolve service (share.withTimeout (some span)) path all turn left arena server =
      ((((walk share all [] link segments).run.carry service).before span
        (.timedOut span)).timed 0).run (aside turn) left (arena, server) := by
  unfold clockResolve resolve
  rw [h, ← walk_withTimeout share (some span)]
  rfl

/-- A timeout bounds the whole walk, whatever the service does and however long it takes for every
listing. If the listings of the walk without a timeout come before it, the answer is the same; if
they take longer, it is that the time is up, exactly then. The tree then has what the listings that
had come brought, all of them and nothing else, and of that nothing that the walk without a timeout
does not bring. -/
theorem timeout_bounds_walk (service : Service τ) (share : Share) (span : Span) (link : Link)
    (path : String) (all : Bool) (turn : Nat → τ → τ) (left : Nat) (arena : Arena) (server : τ) :
    ∃ visits answer left' after server',
      link.Resolves service share all turn path (left, arena, server) visits answer
        (left', after, server') ∧
      link.clockResolve service (share.withTimeout none) path all turn left arena server =
        (answer.map (·, Visit.total visits), left', (after, server')) ∧
      (∀ visit ∈ visits, visit.Opens share → ∀ id ∈ visit.ids, after.Has id) ∧
      (Visit.total visits < span.millis → ∀ found, answer = some found →
        link.clockResolve service (share.withTimeout (some span)) path all turn left arena server =
          (some (found, Visit.total visits), left', (after, server'))) ∧
      (span.millis < Visit.total visits → ∃ received missed between left'' server'',
        link.clockResolve service (share.withTimeout (some span)) path all turn left arena server =
          (some (.error (.timedOut span), span.millis), left'', (between, server'')) ∧
        CutOff share arena visits span.millis received missed between ∧
        ∀ id, between.Has id → after.Has id) := by
  cases hs : Path.segments path with
  | error error =>
    refine ⟨[], _, left, arena, server, .unreadable hs, clockResolve_error hs none,
      fun _ hm => absurd hm List.not_mem_nil, fun _ found hf => ?_,
      fun hlt => absurd hlt (Nat.not_lt_zero _)⟩
    cases hf
    exact clockResolve_error hs (some span)
  | ok segments =>
    obtain ⟨visits, answer, ⟨left', after, server'⟩, hw⟩ :=
      exists_walks service share all turn segments [] link left arena server
    have hfree := hw.run 0
    rw [Nat.zero_add] at hfree
    rw [clockResolve_none hs, clockResolve_some hs]
    have hbrings := hw.has
    refine ⟨visits, answer, left', after, server', .walks hs hw, hfree,
      fun visit hm ho id hid => (hbrings id).2 visit hm ho hid, fun hlt found hf => ?_,
      fun hlt => ?_⟩
    · subst hf
      exact (Activity.cuts_before _ span _).inTime hfree (by omega)
    · obtain ⟨received, missed, between, left'', server'', hcut, hrun⟩ :=
        hw.cut (0 < left) hlt 0
      refine ⟨received, missed, between, left'', server'', ?_, hcut, fun id hid => ?_⟩
      · exact Activity.run_before hrun
      · obtain ⟨later, hv⟩ := hcut.visits_eq
        rcases (hcut.has_iff id).mp hid with hid | ⟨visit, hm, hid⟩
        · exact (hbrings id).1 hid
        · exact (hbrings id).2 visit (hv ▸ List.mem_append_left _ hm) (hcut.opens visit hm) hid

end Link

namespace Ring

variable {root folder : Node}

/-- A server that takes two seconds for every listing. Below the root there is a folder, and in that
nothing. -/
def unhurried : Service Unit
  | .listChildren _ linkId _ => .wait 2000 (fun _ => id) (.done (.ok
      (if linkId = "link-4" then [sealed "link-5" (some "link-4") "Papers"] else [])))
  | _ => .done (.error .unauthorized)

/-- What a walk into the folder asks for. -/
def visits (root folder : Node) : List Visit :=
  [⟨⟨0, root⟩, .ok [sealed "link-5" (some "link-4") "Papers"], 2000⟩, ⟨⟨1, folder⟩, .ok [], 2000⟩]

/-- Looking for something in the folder lists the root, then the folder. -/
theorem walks_unhurried (hr : Opens "link-4" none "Root" none root)
    (hf : Opens "link-5" (some "link-4") "Papers" (some 0) folder) :
    Link.Walks unhurried share true (fun _ s => s) [] ⟨0, root⟩ ["Papers", "x"]
      (0, .ofRoot root, ()) (visits root folder) (some (.error (.fileNotFound "Papers/x")))
      (Activity.fullAllowance, arena root folder, ()) := by
  have hroot : (⟨0, root⟩ : Link).call unhurried share true (fun _ s => s) 0 () =
      (some (.ok [sealed "link-5" (some "link-4") "Papers"], 2000), Activity.fullAllowance,
        ()) := by
    unfold Link.call
    rw [show Link.id ⟨0, root⟩ = "link-4" from hr.id_eq]
    rfl
  have hfolder : (⟨1, folder⟩ : Link).call unhurried share true (fun _ s => s)
      Activity.fullAllowance () = (some (.ok [], 2000), Activity.fullAllowance, ()) := by
    unfold Link.call
    rw [show Link.id ⟨1, folder⟩ = "link-5" from hf.id_eq]
    rfl
  obtain ⟨ha, hi⟩ := Share.materialize_eq_ok_iff.mp (materialize_folder hr hf)
  have htaken : share.TakesIn ⟨0, root⟩ [sealed "link-5" (some "link-4") "Papers"] (.ofRoot root)
      (.ok [⟨1, folder⟩]) (arena root folder) :=
    .cons ha hi (Share.takesIn_nil_iff.mpr ⟨rfl, rfl⟩)
  have hname : Link.name ⟨1, folder⟩ = "Papers" := hf.name_eq
  have hchild : [(⟨1, folder⟩ : Link)].find? (·.name = "Papers") = some ⟨1, folder⟩ := by
    simp [hname]
  exact .next hr.isFolder hroot htaken hchild <|
    .missing hf.isFolder hfolder (Share.takesIn_nil_iff.mpr ⟨rfl, rfl⟩) rfl

/-- What looking there answers under a timeout, and when. -/
def clockSearch (root : Node) (timeout : Option Span) :
    Option (Except DriveError Link × Nat) :=
  (Link.clockResolve unhurried (share.withTimeout timeout) ⟨0, root⟩ "Papers/x" true
    (fun _ s => s) 0 (.ofRoot root) ()).1

end Ring

/-- Neither listing takes three seconds, but the walk does, and is cut off then. A timeout of five
seconds changes nothing. -/
theorem Link.timeout_bounds_walk_ring : ∃ root, Ring.Opens "link-4" none "Root" none root ∧
    Ring.clockSearch root none = some (.error (.fileNotFound "Papers/x"), 4000) ∧
    Ring.clockSearch root (some (.ofSeconds 3)) =
      some (.error (.timedOut (.ofSeconds 3)), 3000) ∧
    Ring.clockSearch root (some (.ofSeconds 5)) =
      some (.error (.fileNotFound "Papers/x"), 4000) := by
  have hfit : Plan.FitName "Root" ∧ Plan.FitName "Papers" := by
    simp only [Plan.FitName, Aead.Fits]
    decide
  obtain ⟨root, hr⟩ := Ring.exists_opens "link-4" none hfit.1 none
  obtain ⟨folder, hf⟩ := Ring.exists_opens "link-5" (some "link-4") hfit.2 (some 0)
  have hsegments : Path.segments "Papers/x" = .ok ["Papers", "x"] := by rfl
  have hfree := (Ring.walks_unhurried hr hf).run 0
  rw [show Visit.total (Ring.visits root folder) = 4000 from rfl, Nat.zero_add] at hfree
  have hfree := (Link.clockResolve_none hsegments).trans hfree
  have hbounds := fun span => Link.timeout_bounds_walk Ring.unhurried Ring.share span ⟨0, root⟩
    "Papers/x" true (fun _ s => s) 0 (.ofRoot root) ()
  refine ⟨root, hr, congrArg Prod.fst hfree, ?_, ?_⟩
  · obtain ⟨visits, answer, left, after, server, -, hrun, -, -, hlate⟩ := hbounds (.ofSeconds 3)
    rw [hfree] at hrun
    obtain ⟨_, hanswer, htotal⟩ := Option.map_eq_some_iff.mp (congrArg Prod.fst hrun).symm
    obtain ⟨-, htotal⟩ := Prod.mk.inj htotal
    have hspan : (Span.ofSeconds 3).millis = 3000 := rfl
    obtain ⟨received, missed, between, left', server', hclock, -⟩ := hlate (by omega)
    exact congrArg Prod.fst hclock
  · obtain ⟨visits, answer, left, after, server, -, hrun, -, hinTime, -⟩ := hbounds (.ofSeconds 5)
    rw [hfree] at hrun
    obtain ⟨_, hanswer, htotal⟩ := Option.map_eq_some_iff.mp (congrArg Prod.fst hrun).symm
    obtain ⟨rfl, htotal⟩ := Prod.mk.inj htotal
    have hspan : (Span.ofSeconds 5).millis = 5000 := rfl
    refine (congrArg Prod.fst (hinTime (by omega) _ hanswer)).trans ?_
    rw [htotal]

end SealedDrive
