import SealedDrive.Proofs.Loading
import SealedDrive.Proofs.Served

/-!
Servers with fixed replies. When the reply to a request is always the same, however long it takes
and whatever else is asked meanwhile, a dialogue that a service carries out answers what it answers
to these replies: the schedule is gone from it.
-/

namespace SealedDrive

variable {Γ σ τ α β γ ε : Type} {reply : (request : Request) → request.Reply}

/-- Whether a request reads shares and links. -/
def Request.readsShares : Request → Bool
  | .listShares _ | .getShare _ | .getLink _ _ | .listChildren _ _ _ => true
  | _ => false

/-- What shares and links are asked for is always replied the same. -/
def Terms.fixed (reply : (request : Request) → request.Reply) : Terms where
  asks request := request.readsShares = true
  replies request r := r = reply request

/-- An activity on the other part goes by, and the part that is kept stays as it is. -/
theorem Activity.Meets.bind_focus_holding {J : τ → Prop} {crashes : Prop} {p : Activity τ α}
    {f : α → Activity (σ × τ) β} {memory : σ} {post : β × σ → Prop}
    (h : p.Meets (.standing J) crashes (fun a _ =>
      ((f a).holding memory).Meets (.standing J) crashes (fun b _ => post b) ()) ()) :
    (((p.focus Prod.snd fun t (s : σ × τ) => (s.1, t)).bind f).holding memory).Meets (.standing J)
      crashes (fun b _ => post b) () := by
  induction p with
  | done a => exact h
  | crash => exact h
  | read next ih =>
    intro t ht
    exact ih t (h t ht)
  | write t next ih =>
    obtain ⟨_, -, ht, h⟩ := h
    intro _ _
    exact ⟨(), trivial, ht, ih h⟩
  | allowance takes next ih =>
    intro isLeft
    exact ih isLeft (h isLeft)
  | wait millis leave next ih => exact ⟨h.1, fun _ _ => ih (h.2 () trivial)⟩

namespace Dialogue

variable {d : Discipline Γ σ} {terms : Terms} {post : α → Γ → Prop} {g : Γ} {service : Service τ}
  {J : τ → Prop} {crashes : Prop}

/-- A dialogue on a memory of its own. -/
theorem Meets.holding_fixed {p : Dialogue σ α} (h : p.Meets d terms post g) {memory : σ}
    (hd : d.describes g memory) (hf : service.Gives J crashes (.fixed reply))
    (ha : ∀ request, terms.asks request → request.readsShares = true)
    (hr : ∀ request, terms.asks request → terms.replies request (reply request)) :
    ((p.carry service).holding memory).Meets (.standing J) crashes
      (fun r _ => r = p.answerBy reply memory) () := by
  induction p generalizing g memory with
  | done a => exact rfl
  | ask request next ih =>
    refine Activity.Meets.bind_focus_holding <|
      (hf request (ha _ h.1)).mono id fun r _ _ hreply => ?_
    have hreply : r = reply request := hreply
    subst hreply
    exact ih _ (h.2 g (d.refl g) _ (hr request h.1)) hd
  | read next ih =>
    intro t _
    exact ih memory (h memory hd) hd
  | write s next ih =>
    obtain ⟨g', -, hd', h⟩ := h
    intro t ht
    exact ⟨(), trivial, ht, ih h hd'⟩

/-- What a dialogue promises within the terms, it keeps with fixed replies, and it leaves the memory
as the discipline allows. -/
theorem Meets.answerBy {p : Dialogue σ α} (h : p.Meets d terms post g) (memory : σ)
    (hd : d.describes g memory)
    (hr : ∀ request, terms.asks request → terms.replies request (reply request)) :
    ∃ g', d.step g g' ∧ d.describes g' (p.answerBy reply memory).2 ∧
      post (p.answerBy reply memory).1 g' := by
  induction p generalizing g memory with
  | done a => exact ⟨g, d.refl g, hd, h⟩
  | ask request next ih => exact ih _ (h.2 g (d.refl g) _ (hr request h.1)) memory hd
  | read next ih => exact ih memory (h memory hd) memory hd
  | write s next ih =>
    obtain ⟨g', hg, hd', h⟩ := h
    obtain ⟨g'', hg', hpost⟩ := ih h s hd'
    exact ⟨g'', d.trans hg hg', hpost⟩

theorem carry_map (service : Service τ) (p : Dialogue σ α) (f : α → β) :
    (p.bind fun a => done (f a)).carry service = (p.carry service).map f := p.carry_bind service _

/-- A reply that is known. -/
theorem answerBy_fetch {wrap : ApiError → ε} {request : Request} {answer : request.Answer}
    {f : request.Answer → ExceptT ε (Dialogue σ) α} (h : reply request = .ok answer) (s : σ) :
    (fetch wrap request >>= f).run.answerBy reply s = (f answer).run.answerBy reply s := by
  show (Dialogue.bind (fetch wrap request).run (ExceptT.bindCont f)).answerBy reply s = _
  simp only [fetch, ExceptT.run, ExceptT.mk, Dialogue.bind, Dialogue.answerBy, h]
  rfl

/-- A dialogue without a memory. -/
theorem Meets.carryAlone_fixed {p : Dialogue Unit α} {post : α → Unit → Prop}
    (h : p.Meets (.standing fun _ => True) (.fixed reply) post ())
    (hf : service.Gives J crashes (.fixed reply)) :
    (p.carryAlone service).Meets (.standing J) crashes
      (fun a _ => a = (p.answerBy reply ()).1) () := by
  induction p with
  | done a => exact rfl
  | ask request next ih =>
    refine Activity.Meets.bind ((hf request h.1).mono id fun r _ _ hreply => ?_)
    have hreply : r = reply request := hreply
    subst hreply
    exact ih _ (h.2 () trivial _ rfl)
  | read next ih => exact ih () (h () trivial)
  | write s next ih =>
    obtain ⟨_, _, _, h⟩ := h
    exact ih h

end Dialogue

/-! ## Loads -/

/-- What a load answers to fixed replies. -/
def Session.shareBy (session : Session) (reply : (request : Request) → request.Reply)
    (shareId : String) : Except DriveError OpenShare :=
  ((Share.load session shareId : ExceptT DriveError (Dialogue Unit) OpenShare).run.answerBy
    reply ()).1

/-- A load that nothing is wrong with. -/
theorem Session.shareBy_eq_ok {session : Session} {shareId : String} {record : ShareRecord}
    {root : LinkRecord} {owner keyring : Keyring} {node : Node}
    (hs : reply (.getShare shareId) = .ok record)
    (ho : Share.ownerKeyring session shareId record = .ok owner)
    (hk : Keyring.derive record.key owner owner = .ok keyring)
    (hl : reply (.getLink shareId record.metadata.linkId) = .ok root)
    (hid : root.linkId = record.metadata.linkId)
    (hn : Node.derive session none keyring root = .ok node) :
    session.shareBy reply shareId = .ok ⟨⟨session, record, keyring⟩, .ofRoot node⟩ := by
  have hkeyring : (Keyring.derive record.key owner owner).mapError DriveError.crypto =
      .ok keyring := mapError_eq_ok_iff.mpr hk
  have hload : (Share.load session shareId :
      ExceptT DriveError (Dialogue Unit) OpenShare).run.Meets (.standing fun _ => True)
      (.fixed reply) (fun r _ => r = .ok ⟨⟨session, record, keyring⟩, .ofRoot node⟩) () := by
    unfold Share.load
    refine Dialogue.meets_answer rfl (fun _ h => Eq.trans h hs) fun _ _ => ?_
    refine Dialogue.meets_ofOk ho ?_
    refine Dialogue.meets_ofOk hkeyring ?_
    refine Dialogue.meets_answer rfl (fun _ h => Eq.trans h hl) fun _ _ => ?_
    dsimp only
    rw [if_neg (not_not_intro hid)]
    refine Dialogue.meets_ofOk hn ?_
    rfl
  obtain ⟨_, -, -, hpost⟩ := hload.answerBy () trivial fun _ _ => rfl
  exact hpost

theorem meets_share_fixed (session : Session) {service : Service τ} {J : τ → Prop} {crashes : Prop}
    (hf : service.Gives J crashes (.fixed reply)) (shareId : String) :
    (session.share service shareId).Meets (.standing J) crashes
      (fun result _ => result = session.shareBy reply shareId) () := by
  have hl : (Share.load session shareId : ExceptT DriveError (Dialogue Unit) OpenShare).run.Meets
      (.standing fun _ => True) (.fixed reply) (fun _ _ => True) () :=
    (Share.meets_load rfl fun _ => rfl).mono fun _ _ _ _ => trivial
  exact hl.carryAlone_fixed hf

/-- So every run of the load answers that. -/
theorem run_share_fixed (session : Session) {service : Service τ} {J : τ → Prop}
    (hf : service.Gives J False (.fixed reply)) {turn : Nat → τ → τ}
    (ht : ∀ millis, (Discipline.standing J).Allows (turn millis)) (left : Nat) {server : τ}
    (hs : J server) (shareId : String) :
    ((session.share service shareId).run turn left server).1 =
      some (session.shareBy reply shareId) :=
  (meets_share_fixed session hf shareId).run_eq ht left hs

/-! ## The drive in memory -/

namespace Server

/-- The replies of a drive to those who are authorized. -/
def replyTo (base : Server) : (request : Request) → request.Reply
  | .listShares all => .ok (base.listShares all)
  | .getShare shareId => base.findShare shareId
  | .getLink shareId linkId => base.findLink shareId linkId
  | .listChildren shareId linkId all => base.findChildren shareId linkId all
  | _ => .error .unauthorized

theorem gives_fixed (base : Server) : serve.Gives base.Serves False (.fixed base.replyTo) := by
  intro request ha
  cases request with
  | listShares all =>
    exact meets_lookUp fun s hs => by rw [listShares, hs.shares]; rfl
  | getShare shareId => exact base.gives_serve (.getShare shareId) trivial
  | getLink shareId linkId => exact base.gives_serve (.getLink shareId linkId) trivial
  | listChildren shareId linkId all =>
    exact base.gives_serve (.listChildren shareId linkId all) trivial
  | _ => cases ha

end Server

theorem World.gives_fixed (base : Server) :
    (service true).Gives (Serves base) False (.fixed base.replyTo) := by
  intro request ha
  have hbench : (Bench.direct request).Meets
      (.standing fun bench : Bench => base.Serves bench.server) False
      (fun r _ => r = base.replyTo request) () :=
    Activity.Meets.focus (fun _ h => h) (fun _ _ _ h => h) (base.gives_fixed request ha)
  exact Activity.Meets.focus (fun _ h => h) (fun _ _ _ h => h) hbench

/-! ## The bench -/

namespace Bench

/-- A bench on which these faults lie, and no patches, in front of a drive with the records of
another. -/
structure Serves (base : Server) (faults : List Fault) (bench : Bench) : Prop where
  server : base.Serves bench.server
  faults_eq : bench.faults = faults
  patches_eq : bench.patches = []

/-- The reply to a request is that of the drive, unless a fault fails it. -/
def replyUnder (faults : List Fault) (base : Server) (request : Request) : request.Reply :=
  match (faults.find? (·.hits request)).bind (·.mishap) with
  | some (.fail error) => .error error
  | _ => base.replyTo request

variable {base : Server} {faults : List Fault} {bench : Bench}

/-- Delays are not in the replies. -/
theorem replyUnder_delay (delay : Fault → Option Nat) (faults : List Fault) (base : Server) :
    replyUnder (faults.map fun fault => { fault with delay := delay fault }) base =
      replyUnder faults base := by
  funext request
  unfold replyUnder
  rw [List.find?_map]
  have hhits : ((·.hits request) ∘ fun fault : Fault => { fault with delay := delay fault }) =
      (·.hits request) := rfl
  rw [hhits]
  cases faults.find? (·.hits request) <;> rfl

theorem patched_eq {α : Type} [JsonForm α] (h : bench.patches = []) (kind id : String) (a : α) :
    bench.patched kind id a = a := by
  unfold patched
  rw [h]
  rfl

theorem patchAnswer_eq (h : bench.patches = []) (request : Request) (answer : request.Answer) :
    bench.patchAnswer request answer = answer := by
  have hmap : ∀ {α : Type} (f : α → α) (answers : List α), (∀ a, f a = a) →
      answers.map f = answers := fun f answers hf => (List.map_congr_left fun a _ => hf a).trans
    (List.map_id _)
  cases request with
  | login | submitTwoFactor | resume | revoke => rfl
  | getUser => exact patched_eq (α := User) h _ _ _
  | getVolume => exact patched_eq (α := VolumeRecord) h _ _ _
  | getShare => exact patched_eq (α := ShareRecord) h _ _ _
  | getLink => exact patched_eq (α := LinkRecord) h _ _ _
  | getAddresses | getSalts | listVolumes | listShares | listChildren =>
    exact hmap _ _ fun _ => patched_eq h _ _ _

theorem meets_pass {request : Request} (ha : request.readsShares = true) :
    (pass request).Meets (.standing (Serves base faults)) False
      (fun r _ => r = base.replyTo request) () := by
  have hdirect : (direct request).Meets (.standing (Serves base faults)) False
      (fun r _ => r = base.replyTo request) () :=
    Activity.Meets.focus (fun _ h => h.server) (fun _ _ hb hs => { hb with server := hs })
      (base.gives_fixed request ha)
  refine .bind (hdirect.mono id fun reply _ _ hr bench hb => ?_)
  have hr : reply = base.replyTo request := hr
  subst hr
  cases base.replyTo request with
  | error error => rfl
  | ok answer => exact congrArg Except.ok (patchAnswer_eq hb.patches_eq request answer)

/-- Whatever the delays, the replies are always the same. -/
theorem gives_replyUnder (base : Server) {faults : List Fault}
    (hc : ∀ fault ∈ faults, fault.mishap ≠ some .crash) :
    serve.Gives (Serves base faults) False (.fixed (replyUnder faults base)) := by
  intro request ha bench hb
  refine ⟨(), trivial, { hb with }, ?_⟩
  have hpass : (pass request).Meets (.standing (Serves base faults)) False
      (fun r _ => r = base.replyTo request) () := meets_pass ha
  rw [hb.faults_eq]
  unfold Terms.fixed replyUnder
  dsimp only
  cases hf : faults.find? (·.hits request) with
  | none => exact hpass
  | some fault =>
    have hmeet : (meet request fault.mishap).Meets (.standing (Serves base faults)) False
        (fun r _ => r = match fault.mishap with
          | some (.fail error) => .error error
          | _ => base.replyTo request) () := by
      cases hm : fault.mishap with
      | none => exact hpass
      | some mishap =>
        cases mishap with
        | fail error => exact rfl
        | crash => exact absurd hm (hc fault (List.mem_of_find?_eq_some hf))
    cases hd : fault.delay with
    | none =>
      simp only [hd]
      exact hmeet
    | some millis =>
      simp only [hd]
      exact .bind (Activity.meets_sleep (fun _ => Discipline.allows_id _) fun _ _ => hmeet)

end Bench

namespace World

/-- A world with such a bench. -/
def Faulted (base : Server) (faults : List Fault) (world : World) : Prop :=
  world.bench.Serves base faults

theorem gives_replyUnder (base : Server) {faults : List Fault}
    (hc : ∀ fault ∈ faults, fault.mishap ≠ some .crash) :
    (service false).Gives (Faulted base faults) False (.fixed (Bench.replyUnder faults base)) :=
  fun request ha => Activity.Meets.focus (fun _ h => h) (fun _ _ _ h => h)
    (Bench.gives_replyUnder base hc request ha)

end World

end SealedDrive
