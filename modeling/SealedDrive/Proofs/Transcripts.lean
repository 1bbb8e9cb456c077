import SealedDrive.Proofs.Clock
import SealedDrive.Proofs.Custody
import SealedDrive.Proofs.Intake
import SealedDrive.Proofs.Responses

/-!
What was said between a client and whoever answers it. `Dialogue.Leads` says how a dialogue goes on
after some exchanges, whatever was replied in them; a service that keeps a transcript shows that
every run goes that way, also one that a bound cuts off or that crashes.
-/

namespace SealedDrive

/-- A request and what it was replied. -/
structure Exchange where
  request : Request
  reply : request.Reply

variable {σ τ α β ε : Type}

namespace Dialogue

/-- After these exchanges the dialogue goes on as `rest`. -/
inductive Leads : Dialogue Unit α → List Exchange → Dialogue Unit α → Prop
  | stay (p : Dialogue Unit α) : Leads p [] p
  | ask {request : Request} {next : request.Reply → Dialogue Unit α} {said : List Exchange}
    {rest : Dialogue Unit α} (reply : request.Reply) : Leads (next reply) said rest →
    Leads (.ask request next) (⟨request, reply⟩ :: said) rest
  | read {next : Unit → Dialogue Unit α} {said : List Exchange} {rest : Dialogue Unit α} :
    Leads (next ()) said rest → Leads (.read next) said rest
  | write {memory : Unit} {next : Dialogue Unit α} {said : List Exchange}
    {rest : Dialogue Unit α} : Leads next said rest → Leads (.write memory next) said rest

/-- What is asked next, unless the dialogue is over. -/
def pending : Dialogue Unit α → List Request
  | done _ => []
  | ask request _ => [request]
  | read next => (next ()).pending
  | write _ next => next.pending

/-- What the dialogue answers, if it is over. -/
def answer? : Dialogue Unit α → Option α
  | done a => some a
  | ask _ _ => none
  | read next => (next ()).answer?
  | write _ next => next.answer?

/-- All that is asked when the replies are fixed. -/
def asked (reply : (request : Request) → request.Reply) : Dialogue Unit α → List Request
  | done _ => []
  | ask request next => request :: (next (reply request)).asked reply
  | read next => (next ()).asked reply
  | write _ next => next.asked reply

section

variable {p rest : Dialogue Unit α} {said : List Exchange}
  {reply : (request : Request) → request.Reply}

theorem Leads.done_inv {a : α} (h : Leads (.done a) said rest) : said = [] ∧ rest = .done a := by
  cases h
  exact ⟨rfl, rfl⟩

/-- The next request is the one that would be asked first. -/
theorem pending_prefix (p : Dialogue Unit α)
    (reply : (request : Request) → request.Reply) : p.pending <+: p.asked reply := by
  induction p with
  | done a => exact List.nil_prefix
  | ask request next ih => exact List.cons_prefix_cons.mpr ⟨rfl, List.nil_prefix⟩
  | read next ih => exact ih ()
  | write memory next ih => exact ih

/-- A dialogue that is not over asks for something. -/
theorem exists_pending (h : p.answer? = none) : ∃ request, p.pending = [request] := by
  induction p with
  | done a => cases h
  | ask request next ih => exact ⟨request, rfl⟩
  | read next ih => exact ih () h
  | write memory next ih => exact ih h

theorem length_pending_le (p : Dialogue Unit α) : p.pending.length ≤ 1 := by
  induction p with
  | done a => exact Nat.zero_le _
  | ask request next ih => exact Nat.le_refl _
  | read next ih => exact ih ()
  | write memory next ih => exact ih

/-- A dialogue that is over asks for nothing. -/
theorem of_answer? {a : α} (h : p.answer? = some a)
    (reply : (request : Request) → request.Reply) :
    p.asked reply = [] ∧ p.pending = [] ∧ p.answerBy reply () = (a, ()) := by
  induction p with
  | done b =>
    cases h
    exact ⟨rfl, rfl, rfl⟩
  | ask request next ih => cases h
  | read next ih => exact ih () h
  | write memory next ih => exact ih h

/-- Replies that were given may as well be fixed beforehand. -/
theorem Leads.asked_eq (h : p.Leads said rest) (hr : ∀ exchange ∈ said,
    reply exchange.request = exchange.reply) :
    p.asked reply = said.map (·.request) ++ rest.asked reply ∧
      p.answerBy reply () = rest.answerBy reply () := by
  induction h with
  | stay p => exact ⟨rfl, rfl⟩
  | @ask request next _ _ given _ ih =>
    obtain ⟨hfirst, hlater⟩ := List.forall_mem_cons.mp hr
    have hfirst : reply request = given := hfirst
    obtain ⟨hasked, hanswer⟩ := ih hlater
    refine ⟨congrArg (request :: ·) ?_, ?_⟩
    · rw [hfirst]
      exact hasked
    · show (next (reply request)).answerBy reply () = _
      rw [hfirst]
      exact hanswer
  | read _ ih => exact ih hr
  | write _ ih => exact ih hr

/-- Whatever was asked so far, and is asked next, is the beginning of what fixed replies lead to. -/
theorem Leads.prefix_asked (h : p.Leads said rest) (hr : ∀ exchange ∈ said,
    reply exchange.request = exchange.reply) :
    said.map (·.request) ++ rest.pending <+: p.asked reply := by
  rw [(h.asked_eq hr).1]
  exact (List.prefix_append_right_inj _).mpr (rest.pending_prefix reply)

theorem Leads.concat_inv {last : Exchange} (h : p.Leads (said ++ [last]) rest) :
    ∃ next, p.Leads said (.ask last.request next) := by
  generalize hall : said ++ [last] = all at h
  induction h generalizing said with
  | stay p => exact absurd hall (by simp)
  | @ask request next later rest given h ih =>
    cases said with
    | nil =>
      obtain ⟨rfl, -⟩ := List.cons.inj hall
      exact ⟨next, .stay _⟩
    | cons first before =>
      obtain ⟨rfl, hlater⟩ := List.cons.inj hall
      obtain ⟨next, hnext⟩ := ih hlater
      exact ⟨next, .ask given hnext⟩
  | read _ ih =>
    obtain ⟨next, hnext⟩ := ih hall
    exact ⟨next, .read hnext⟩
  | write _ ih =>
    obtain ⟨next, hnext⟩ := ih hall
    exact ⟨next, .write hnext⟩

/-- Where nothing is ever asked twice, the replies might have been fixed beforehand. -/
theorem Leads.exists_reply (hn : ∀ reply, (p.asked reply).Nodup) (h : p.Leads said rest) :
    ∃ reply : (request : Request) → request.Reply,
      ∀ exchange ∈ said, reply exchange.request = exchange.reply := by
  induction said using List.reverseRecOn generalizing rest with
  | nil => exact ⟨fun _ => .error .unauthorized, fun _ hm => absurd hm List.not_mem_nil⟩
  | append_singleton before last ih =>
    obtain ⟨next, hbefore⟩ := h.concat_inv
    obtain ⟨reply, hreply⟩ := ih hbefore
    have hnew : last.request ∉ before.map (·.request) := by
      have hnodup := hn reply
      rw [(hbefore.asked_eq hreply).1] at hnodup
      exact fun hm => List.disjoint_of_nodup_append hnodup hm (List.mem_cons_self ..)
    refine ⟨Function.update reply last.request last.reply, fun exchange hm => ?_⟩
    rcases List.mem_append.mp hm with hm | hm
    · have hne : exchange.request ≠ last.request := fun he =>
        hnew (he ▸ List.mem_map_of_mem hm)
      rw [Function.update_of_ne hne]
      exact hreply exchange hm
    · rw [List.mem_singleton.mp hm]
      exact Function.update_self ..

end

/-! ## Refusals -/

/-- A request that is refused is the last one, and its error the answer. -/
def StopsAt (wrap : ApiError → ε) : Dialogue Unit (Except ε α) → Prop
  | done _ => True
  | ask _ next => (∀ error, next (.error error) = .done (.error (wrap error))) ∧
    ∀ answer, StopsAt wrap (next (.ok answer))
  | read next => StopsAt wrap (next ())
  | write _ next => StopsAt wrap next

theorem stopsAt_fetch (wrap : ApiError → ε) (request : Request) :
    (fetch wrap request : ExceptT ε (Dialogue Unit) request.Answer).run.StopsAt wrap :=
  ⟨fun _ => rfl, fun _ => trivial⟩

theorem IsSilent.stopsAt {wrap : ApiError → ε} {p : Dialogue Unit (Except ε α)}
    (h : p.IsSilent) : p.StopsAt wrap := by
  obtain ⟨answer, rfl⟩ := h
  trivial

theorem StopsAt.bind {wrap : ApiError → ε} {p : ExceptT ε (Dialogue Unit) α}
    {f : α → ExceptT ε (Dialogue Unit) β} (h : p.run.StopsAt wrap)
    (hf : ∀ a, (f a).run.StopsAt wrap) : (p >>= f).run.StopsAt wrap := by
  have hall : ∀ q : Dialogue Unit (Except ε α), q.StopsAt wrap →
      Dialogue.StopsAt wrap (q.bind (ExceptT.bindCont f)) := by
    intro q hq
    induction q with
    | done r =>
      cases r with
      | ok a => exact hf a
      | error error => trivial
    | ask request next ih =>
      refine ⟨fun error => ?_, fun answer => ih _ (hq.2 answer)⟩
      show (next (.error error)).bind _ = _
      rw [hq.1 error]
      rfl
    | read next ih => exact ih () hq
    | write memory next ih => exact ih hq
  exact hall _ h

theorem Leads.of_refused {wrap : ApiError → ε} {p rest : Dialogue Unit (Except ε α)}
    {said : List Exchange} (hstop : p.StopsAt wrap) (h : p.Leads said rest) {request : Request}
    {error : ApiError} (hm : ⟨request, .error error⟩ ∈ said) :
    rest = .done (.error (wrap error)) := by
  induction h with
  | stay p => cases hm
  | @ask asked next later rest given h ih =>
    rcases List.mem_cons.mp hm with he | hlater
    · cases he
      rw [hstop.1 error] at h
      exact h.done_inv.2
    · cases given with
      | ok answer => exact ih (hstop.2 answer) hlater
      | error first =>
        rw [hstop.1 first] at h
        rw [h.done_inv.1] at hlater
        cases hlater
  | read _ ih => exact ih hstop hm
  | write _ ih => exact ih hstop hm

end Dialogue

/-! ## Keeping a transcript -/

/-- What was asked, and what was replied to it. -/
structure Transcript where
  asked : List Request := []
  said : List Exchange := []

namespace Transcript

def ask (transcript : Transcript) (request : Request) : Transcript :=
  { transcript with asked := transcript.asked ++ [request] }

def hear (transcript : Transcript) (exchange : Exchange) : Transcript :=
  { transcript with said := transcript.said ++ [exchange] }

/-- More was said, and perhaps something asked that has no reply. -/
def extend (transcript : Transcript) (said : List Exchange) (pending : List Request) :
    Transcript where
  asked := transcript.asked ++ said.map (·.request) ++ pending
  said := transcript.said ++ said

theorem extend_nil (transcript : Transcript) : transcript.extend [] [] = transcript := by
  simp [extend]

theorem extend_hear (transcript : Transcript) {request : Request} (reply : request.Reply)
    (said : List Exchange) (pending : List Request) :
    ((transcript.ask request).hear ⟨request, reply⟩).extend said pending =
      transcript.extend (⟨request, reply⟩ :: said) pending := by
  simp [extend, ask, hear]

end Transcript

/-- A service that keeps a transcript. -/
def Service.recording (service : Service τ) : Service (Transcript × τ) := fun request =>
  (Activity.modify fun s => (s.1.ask request, s.2)).bind fun _ =>
    ((service request).focus Prod.snd fun t s => (s.1, t)).bind fun reply =>
      (Activity.modify fun s => (s.1.hear ⟨request, reply⟩, s.2)).bind fun _ => .done reply

/-- A request is put on the transcript, then its reply, and then the dialogue goes on. -/
theorem Dialogue.carryAlone_recording (service : Service τ) (request : Request)
    (next : request.Reply → Dialogue Unit α) :
    (Dialogue.ask request next).carryAlone service.recording =
      .read fun s => .write (s.1.ask request, s.2) <|
        ((service request).focus Prod.snd fun t s => (s.1, t)).bind fun reply =>
          .read fun s => .write (s.1.hear ⟨request, reply⟩, s.2) <|
            (next reply).carryAlone service.recording :=
  congrArg Activity.read <| funext fun s => congrArg (Activity.write (s.1.ask request, s.2)) <|
    Activity.bind_assoc ((service request).focus Prod.snd fun t s => (s.1, t)) _ _

/-! ## Running -/

namespace Activity

/-- The clock changes nothing but the answer. -/
theorem run_timed (p : Activity σ α) (turn : Nat → σ → σ) (spent left : Nat) (s : σ) :
    ((p.timed spent).run turn left s).1.map Prod.fst = (p.run turn left s).1 ∧
      ((p.timed spent).run turn left s).2 = (p.run turn left s).2 := by
  induction p generalizing spent left s with
  | done a => exact ⟨rfl, rfl⟩
  | crash => exact ⟨rfl, rfl⟩
  | read next ih => exact ih s spent left s
  | write s' next ih => exact ih spent left s'
  | allowance takes next ih => exact ih _ spent _ s
  | wait millis leave next ih => exact ih _ _ _

end Activity

namespace Dialogue

/-- Where a dialogue stands that came to an answer, was cut off by a bound, or crashed. -/
def Stops (rest : Dialogue Unit α) : Option (Option α) → Prop
  | some (some answer) => rest.answer? = some answer
  | _ => rest.answer? = none

/-- The transcript of a dialogue up to where it stopped. -/
def Transcribed (p : Dialogue Unit α) (answer : Option (Option α)) (before after : Transcript) :
    Prop :=
  ∃ said rest, p.Leads said rest ∧ rest.Stops answer ∧ after = before.extend said rest.pending

theorem Transcribed.ask {request : Request} {next : request.Reply → Dialogue Unit α}
    {reply : request.Reply} {answer : Option (Option α)} {before after : Transcript}
    (h : (next reply).Transcribed answer ((before.ask request).hear ⟨request, reply⟩) after) :
    (Dialogue.ask request next).Transcribed answer before after := by
  obtain ⟨said, rest, hleads, hstops, rfl⟩ := h
  exact ⟨_, rest, .ask reply hleads, hstops, before.extend_hear reply said rest.pending⟩

/-- A request that gets no reply. -/
theorem transcribed_pending (request : Request) (next : request.Reply → Dialogue Unit α)
    {answer : Option (Option α)} (hanswer : ∀ a, answer ≠ some (some a)) (before : Transcript) :
    (Dialogue.ask request next).Transcribed answer before (before.ask request) := by
  refine ⟨[], _, .stay _, ?_, by simp [Transcript.extend, Transcript.ask, pending]⟩
  match answer, hanswer with
  | none, _ => rfl
  | some none, _ => rfl
  | some (some a), hanswer => exact absurd rfl (hanswer a)

variable {service : Service τ} {turn : Nat → τ → τ}

theorem transcribed_withinFrom (p : Dialogue Unit α) (watches : Bool) (budget spent left : Nat)
    (transcript : Transcript) (t : τ) :
    p.Transcribed
      (((((p.carryAlone service.recording).withinFrom watches budget).timed spent).run
        (fun millis s => (s.1, turn millis s.2)) left (transcript, t)).1.map Prod.fst) transcript
      ((((p.carryAlone service.recording).withinFrom watches budget).timed spent).run
        (fun millis s => (s.1, turn millis s.2)) left (transcript, t)).2.2.1 := by
  induction p generalizing watches budget spent left transcript t with
  | done a => exact ⟨[], _, .stay _, rfl, transcript.extend_nil.symm⟩
  | ask request next ih =>
    have hturn (millis : Nat) : ((Discipline.unchanged Transcript).beside fun _ : τ => True).Allows
        fun s => (s.1, turn millis s.2) := fun g _ hs => ⟨g, rfl, hs⟩
    -- the request is on the transcript before the service has its turn
    obtain ⟨_, rfl, hcases⟩ := (Activity.meets_unchanged (service request)).run_withinFrom_bind
      hturn (fun reply => .read fun s => .write (s.1.hear ⟨request, reply⟩, s.2) <|
        (next reply).carryAlone service.recording) watches budget spent left
      (s := (transcript.ask request, t)) ⟨rfl, trivial⟩
    rw [carryAlone_recording]
    simp only [Activity.withinFrom, Activity.timed, Activity.run]
    rcases hcases with ⟨reply, millis, left', s', watches', -, -, hs', -, hrun⟩ |
      ⟨left', s', hrun, hs', -⟩ | ⟨-, -, left', s', hrun, hs'⟩
    · obtain ⟨_, t'⟩ := s'
      obtain rfl := hs'.1
      rw [hrun]
      exact .ask (ih reply watches' (spent + budget - millis) millis left'
        ((transcript.ask request).hear ⟨request, reply⟩) t')
    · obtain ⟨_, t'⟩ := s'
      obtain rfl := hs'.1
      rw [hrun]
      exact transcribed_pending request next (by rintro _ ⟨⟩) transcript
    · obtain ⟨_, t'⟩ := s'
      obtain rfl := hs'.1
      rw [hrun]
      exact transcribed_pending request next (by rintro _ ⟨⟩) transcript
  | read next ih =>
    obtain ⟨said, rest, hleads, hstops, hafter⟩ := ih () watches budget spent left transcript t
    exact ⟨said, rest, .read hleads, hstops, hafter⟩
  | write memory next ih =>
    obtain ⟨said, rest, hleads, hstops, hafter⟩ := ih watches budget spent left transcript t
    exact ⟨said, rest, .write hleads, hstops, hafter⟩

theorem transcribed_within (p : Dialogue Unit α) (budget left : Nat) (transcript : Transcript)
    (t : τ) :
    p.Transcribed
      (((p.carryAlone service.recording).within budget).run (fun millis s => (s.1, turn millis s.2))
        left (transcript, t)).1 transcript
      (((p.carryAlone service.recording).within budget).run (fun millis s => (s.1, turn millis s.2))
        left (transcript, t)).2.2.1 := by
  obtain ⟨hanswer, hstate⟩ := Activity.run_timed ((p.carryAlone service.recording).within budget)
    (fun millis s => (s.1, turn millis s.2)) 0 left (transcript, t)
  rw [← hanswer, ← hstate]
  exact p.transcribed_withinFrom _ budget 0 left transcript t

end Dialogue

/-! ### Without a transcript -/

/-- A run whose transcript is left out. -/
def Activity.withoutFst (run : Option α × Nat × σ × τ) : Option α × Nat × τ :=
  (run.1, run.2.1, run.2.2.2)

theorem Activity.withoutFst_run_focus_bind {turn : Nat → τ → τ} {f : α → Activity (σ × τ) β}
    {f' : α → Activity τ β}
    (hf : ∀ a watches budget left s t,
      withoutFst (((f a).withinFrom watches budget).run (fun millis s => (s.1, turn millis s.2))
        left (s, t)) = ((f' a).withinFrom watches budget).run turn left t)
    (p : Activity τ α) (watches : Bool) (budget left : Nat) (s : σ) (t : τ) :
    withoutFst ((((p.focus Prod.snd fun t (s : σ × τ) => (s.1, t)).bind f).withinFrom watches
        budget).run (fun millis s => (s.1, turn millis s.2)) left (s, t)) =
      ((p.bind f').withinFrom watches budget).run turn left t := by
  induction p generalizing watches budget left t with
  | done a => exact hf a watches budget left s t
  | crash => rfl
  | read next ih => exact ih t watches budget left t
  | write t' next ih => exact ih watches budget left t'
  | allowance takes next ih => exact ih _ watches budget _ t
  | wait millis leave next ih =>
    simp only [Activity.focus, Activity.bind, Activity.withinFrom]
    split
    · rfl
    · split
      · exact ih true _ _ _
      · rfl

/-- To keep a transcript makes no other difference. -/
theorem Dialogue.withoutFst_run_recording (service : Service τ) (turn : Nat → τ → τ)
    (p : Dialogue Unit α) (budget left : Nat) (transcript : Transcript) (t : τ) :
    Activity.withoutFst (((p.carryAlone service.recording).within budget).run
        (fun millis s => (s.1, turn millis s.2)) left (transcript, t)) =
      ((p.carryAlone service).within budget).run turn left t := by
  have hfrom (watches : Bool) : Activity.withoutFst
      (((p.carryAlone service.recording).withinFrom watches budget).run
        (fun millis s => (s.1, turn millis s.2)) left (transcript, t)) =
      ((p.carryAlone service).withinFrom watches budget).run turn left t := by
    induction p generalizing watches budget left transcript t with
    | done a => rfl
    | ask request next ih =>
      rw [carryAlone_recording]
      exact Activity.withoutFst_run_focus_bind (f := fun reply => .read fun s =>
          .write (s.1.hear ⟨request, reply⟩, s.2) <| (next reply).carryAlone service.recording)
        (fun reply watches budget left _ t => ih reply budget left _ t watches) _ _ _ _ _ _
    | read next ih => exact ih () budget left transcript t watches
    | write memory next ih => exact ih budget left transcript t watches
  exact hfrom _

/-! ### On a part of a state -/

section

variable {get : τ → σ} {set : σ → τ → τ}

theorem Activity.focus_bind (p : Activity σ α) (f : α → Activity σ β) :
    (p.bind f).focus get set = (p.focus get set).bind fun a => (f a).focus get set := by
  induction p with
  | done a => rfl
  | crash => rfl
  | read next ih => exact congrArg Activity.read (funext fun t => ih (get t))
  | write s next ih => exact congrArg Activity.read (funext fun t => congrArg _ ih)
  | allowance takes next ih => exact congrArg (Activity.allowance takes) (funext ih)
  | wait millis leave next ih => exact congrArg (Activity.wait millis _) ih

theorem Dialogue.carryAlone_focus (service : Service σ) (p : Dialogue Unit α) :
    (p.carryAlone fun request => (service request).focus get set) =
      (p.carryAlone service).focus get set := by
  induction p with
  | done a => rfl
  | ask request next ih =>
    refine Eq.trans ?_ (Activity.focus_bind _ _).symm
    exact congrArg (Activity.bind _) (funext ih)
  | read next ih => exact ih ()
  | write memory next ih => exact ih

/-- Under a bound the part changes as it would by itself, and nothing else does. -/
theorem Activity.run_within_focus_fst (p : Activity σ α) (turn : Nat → σ → σ) (budget left : Nat)
    (s : σ) (b : β) :
    ((p.focus Prod.fst fun s (x : σ × β) => (s, x.2)).within budget).run
        (fun millis x => (turn millis x.1, x.2)) left (s, b) =
      (((p.within budget).run turn left s).1, ((p.within budget).run turn left s).2.1,
        ((p.within budget).run turn left s).2.2, b) := by
  have hfrom (watches : Bool) : ((p.focus Prod.fst fun s (x : σ × β) => (s, x.2)).withinFrom
        watches budget).run (fun millis x => (turn millis x.1, x.2)) left (s, b) =
      (((p.withinFrom watches budget).run turn left s).1,
        ((p.withinFrom watches budget).run turn left s).2.1,
        ((p.withinFrom watches budget).run turn left s).2.2, b) := by
    induction p generalizing watches budget left s with
    | done a => rfl
    | crash => rfl
    | read next ih => exact ih s budget left s watches
    | write s' next ih => exact ih budget left s' watches
    | allowance takes next ih => exact ih _ budget _ s watches
    | wait millis leave next ih =>
      simp only [Activity.focus, Activity.withinFrom]
      split
      · rfl
      · split
        · exact ih _ _ _ true
        · rfl
  exact hfrom _

end

/-! ## Network phases -/

namespace Custody

/-- The same work against the same service, which keeps a transcript. -/
def recorded (c : Custody τ) : Custody (Transcript × τ) where
  service := c.service.recording
  turn millis s := (s.1, c.turn millis s.2)
  keeping := c.keeping
  config := c.config
  account := c.account
  state := ({}, c.state)
  vault := c.vault
  allowance := c.allowance

/-- A dialogue with the service, within the time of the settings. -/
def phase (c : Custody τ) (p : Dialogue Unit (Except SessionError α)) :
    Option (Except SessionError α) × Custody τ :=
  c.perform (c.manager.timed (p.carryAlone c.beside)).run

/-- A network phase is the dialogue under the bound; the vault stays as it is. -/
theorem phase_eq (c : Custody τ) (p : Dialogue Unit (Except SessionError α)) :
    c.phase p =
      let run := ((p.carryAlone c.service).within c.config.timeout.millis).run c.turn c.allowance
        c.state
      (run.1.map fun answer => answer.getD (.error (.timedOut c.config.timeout)),
        { c with allowance := run.2.1, state := run.2.2 }) := by
  have hcarry : p.carryAlone c.beside =
      (p.carryAlone c.service).focus Prod.fst fun state (s : τ × Vault) => (state, s.2) :=
    Dialogue.carryAlone_focus c.service p
  have hrun : ((p.carryAlone c.beside).within c.config.timeout.millis).run c.turns c.allowance
      (c.state, c.vault) = _ :=
    hcarry ▸ Activity.run_within_focus_fst _ c.turn _ c.allowance c.state c.vault
  have hconfig : c.manager.config = c.config := rfl
  unfold phase perform SessionManager.timed Activity.before Activity.orElse
  dsimp only [ExceptT.run_mk]
  rw [Activity.map, Activity.run_bind, hconfig, hrun]
  rcases ((p.carryAlone c.service).within c.config.timeout.millis).run c.turn c.allowance
    c.state with ⟨_ | answer, allowance, state⟩
  · rfl
  · rfl

/-- A network phase answers the same whether or not a transcript is kept, and the transcript tells
how far it got. -/
theorem phase_recorded (c : Custody τ) (p : Dialogue Unit (Except SessionError α)) :
    (c.recorded.phase p).1 = (c.phase p).1 ∧
      ∃ answer, p.Transcribed answer {} (c.recorded.phase p).2.state.1 ∧
        (c.phase p).1 =
          answer.map fun answer => answer.getD (.error (.timedOut c.config.timeout)) := by
  have hsame := Dialogue.withoutFst_run_recording c.service c.turn p c.config.timeout.millis
    c.allowance {} c.state
  rw [phase_eq, phase_eq, ← hsame]
  exact ⟨rfl, _, Dialogue.transcribed_within _ _ _ _ _, rfl⟩

end Custody

end SealedDrive
