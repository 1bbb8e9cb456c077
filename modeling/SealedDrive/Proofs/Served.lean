import SealedDrive.Proofs.Built
import SealedDrive.Proofs.Traffic
import SealedDrive.Server.World

/-!
The drive in memory as a service. Whatever waits come in between, it answers for shares and links
from the records that it holds; and a session that is opened on it without a login holds the keyring
of everybody who signs for the account.
-/

namespace SealedDrive

section

variable {σ τ α : Type} {crashes : Prop}

/-- An activity on a part of a state of which a property stands. -/
theorem Activity.Meets.focus {p : Activity σ α} {J : σ → Prop} {K : τ → Prop} {post : α → Prop}
    {get : τ → σ} {set : σ → τ → τ} (hget : ∀ t, K t → J (get t))
    (hset : ∀ s t, K t → J s → K (set s t))
    (h : p.Meets (.standing J) crashes (fun a _ => post a) ()) :
    (p.focus get set).Meets (.standing K) crashes (fun a _ => post a) () := by
  induction p with
  | done a => exact h
  | crash => exact h
  | read next ih =>
    intro t ht
    exact ih _ (h _ (hget t ht))
  | write s next ih =>
    obtain ⟨_, -, hs, h⟩ := h
    intro t ht
    exact ⟨(), trivial, hset s t ht hs, ih h⟩
  | allowance takes next ih =>
    intro isLeft
    exact ih isLeft (h isLeft)
  | wait millis leave next ih =>
    refine ⟨fun how _ t ht => ?_, fun _ _ => ih (h.2 () trivial)⟩
    obtain ⟨_, -, hl⟩ := h.1 how () (get t) (hget t ht)
    exact ⟨(), trivial, hset _ t ht hl⟩

/-- Running one activity after the other. -/
theorem Activity.run_bind {β : Type} (turn : Nat → σ → σ) (p : Activity σ α)
    (f : α → Activity σ β) (left : Nat) (s : σ) :
    (p.bind f).run turn left s =
      match p.run turn left s with
      | (some a, left, s) => (f a).run turn left s
      | (none, left, s) => (none, left, s) := by
  induction p generalizing left s with
  | done a => rfl
  | crash => rfl
  | read next ih => exact ih s left s
  | write s' next ih => exact ih left s'
  | allowance takes next ih => exact ih _ _ s
  | wait millis leave next ih => exact ih _ _

/-- Running one activity after the other, when an error ends it. -/
theorem Activity.run_bindExcept {β ε : Type} (turn : Nat → σ → σ)
    (p : ExceptT ε (Activity σ) α) (f : α → ExceptT ε (Activity σ) β) (left : Nat) (s : σ) :
    (p >>= f).run.run turn left s =
      match p.run.run turn left s with
      | (some (.ok a), left, s) => (f a).run.run turn left s
      | (some (.error error), left, s) => (some (.error error), left, s)
      | (none, left, s) => (none, left, s) := by
  refine (Activity.run_bind turn p.run (ExceptT.bindCont f) left s).trans ?_
  rcases p.run.run turn left s with ⟨_ | _ | a, left, s⟩
  · rfl
  · rfl
  · rfl

theorem Activity.run_tryCatch {ε : Type} (turn : Nat → σ → σ)
    (p : ExceptT ε (Activity σ) α) (handle : ε → ExceptT ε (Activity σ) α) (left : Nat) (s : σ) :
    (tryCatch p handle).run.run turn left s =
      match p.run.run turn left s with
      | (some (.ok a), left, s) => (some (.ok a), left, s)
      | (some (.error error), left, s) => (handle error).run.run turn left s
      | (none, left, s) => (none, left, s) := by
  refine (Activity.run_bind turn p.run _ left s).trans ?_
  rcases p.run.run turn left s with ⟨_ | _ | a, left, s⟩
  · rfl
  · rfl
  · rfl

/-- A service keeps to terms that ask for less and promise less. -/
theorem Service.Gives.mono {service : Service τ} {J : τ → Prop} {terms terms' : Terms}
    (hg : service.Gives J crashes terms) (ha : ∀ request, terms'.asks request → terms.asks request)
    (hr : ∀ request reply, terms'.asks request → terms.replies request reply →
      terms'.replies request reply) : service.Gives J crashes terms' :=
  fun request h => (hg request (ha request h)).mono id fun reply _ _ hreply =>
    hr request reply h hreply

end

/-! ## Replies -/

namespace Server

/-- A drive that answers for data, with the records of another. -/
structure Serves (base s : Server) : Prop where
  authorized : s.isAuthorized = true
  shares : s.shares = base.shares
  links : s.links = base.links
  failingShares : s.failingShares = base.failingShares

/-- A client asks for shares and links, and is replied what the records say. -/
def recordTerms (base : Server) : Terms where
  asks
    | .getShare _ | .getLink _ _ | .listChildren _ _ _ => True
    | _ => False
  replies
    | .getShare shareId, reply => reply = base.findShare shareId
    | .getLink shareId linkId, reply => reply = base.findLink shareId linkId
    | .listChildren shareId linkId all, reply => reply = base.findChildren shareId linkId all
    | _, _ => True

variable {base : Server} {α : Type}

theorem Serves.leaveFlight {s : Server} (h : base.Serves s) (how : Leaving) :
    base.Serves (s.leaveFlight how) := by
  cases how <;> exact ⟨h.authorized, h.shares, h.links, h.failingShares⟩

theorem allows_leaveFlight (how : Leaving) :
    (Discipline.standing base.Serves).Allows (leaveFlight how) :=
  fun _ _ h => ⟨(), trivial, h.leaveFlight how⟩

theorem meets_lookUp {f : Server → Except ApiError α} {reply : Except ApiError α}
    (h : ∀ s, base.Serves s → f s = reply) :
    (lookUp f).Meets (.standing base.Serves) False (fun r _ => r = reply) () := by
  intro s hs
  show s.guarded (f s) = reply
  unfold guarded
  rw [if_pos hs.authorized, h s hs]

theorem meets_shareWait {J : Server → Prop} {latency : Option Nat} {next : Activity Server α}
    {post : α → Unit → Prop} (hl : ∀ how, (Discipline.standing J).Allows (leaveFlight how))
    (h : next.Meets (.standing J) False post ()) :
    (shareWait latency next).Meets (.standing J) False post () := by
  cases latency with
  | none => exact ⟨hl, fun _ _ => h⟩
  | some millis => exact Activity.Meets.bind (Activity.meets_sleep hl fun _ _ => h)

/-- The share is looked up after the wait, but nothing of it has changed meanwhile. -/
theorem meets_loadShare (shareId : String) :
    (loadShare shareId).Meets (.standing base.Serves) False
      (fun r _ => r = base.findShare shareId) () := by
  intro s hs
  dsimp only
  rw [if_pos hs.authorized]
  refine ⟨(), trivial, ⟨hs.authorized, hs.shares, hs.links, hs.failingShares⟩,
    meets_shareWait allows_leaveFlight fun s hs => ⟨(), trivial, hs.leaveFlight _, ?_⟩⟩
  show s.findShare shareId = base.findShare shareId
  unfold findShare
  rw [hs.shares, hs.failingShares]

theorem gives_serve (base : Server) : serve.Gives base.Serves False base.recordTerms := by
  intro request ha
  cases request with
  | getShare shareId => exact meets_loadShare shareId
  | getLink shareId linkId =>
    refine meets_lookUp fun s hs => ?_
    unfold findLink
    rw [hs.links]
  | listChildren shareId linkId all =>
    intro s _
    have hlookup : (lookUp fun s => s.findChildren shareId linkId all).Meets
        (.standing base.Serves) False
        (fun r _ => r = base.findChildren shareId linkId all) () := by
      refine meets_lookUp fun s hs => ?_
      unfold findChildren
      rw [hs.links]
    dsimp only
    cases s.childrenLatency with
    | none => exact hlookup
    | some millis =>
      exact Activity.Meets.bind (Activity.meets_sleep
        (fun _ => Discipline.allows_id _) fun _ _ => hlookup)
  | _ => exact ha.elim

end Server

namespace World

variable {base : Server}

/-- The drive of a world answers for data, with the records of another drive. -/
def Serves (base : Server) (world : World) : Prop := base.Serves world.bench.server

theorem gives_service (base : Server) :
    (service true).Gives (Serves base) False base.recordTerms := by
  intro request ha
  have hbench : (Bench.direct request).Meets
      (.standing fun bench : Bench => base.Serves bench.server) False
      (fun reply _ => base.recordTerms.replies request reply) () :=
    Activity.Meets.focus (fun _ h => h) (fun _ _ _ h => h) (base.gives_serve request ha)
  exact Activity.Meets.focus (fun _ h => h) (fun _ _ _ h => h) hbench

/-- The turns of the others leave the records alone. -/
theorem allows_turn (millis : Nat) : (Discipline.standing (Serves base)).Allows (turn millis) :=
  fun _ _ h => ⟨(), trivial, h.authorized, h.shares, h.links, h.failingShares⟩

end World

/-! ## Sessions -/

namespace Account

/-- The session of an account under these tokens. -/
def sessionOf (account : Account) (number : Nat) (tokens : Tokens) : Session where
  number := number
  tokens := tokens
  user := account.server.user
  addresses := account.server.addresses
  userKeyring := account.userKey
  addressKeyrings := account.addressKeys
  lister := {}
  timeout := none

variable {plan : Plan} {account : Account}

theorem Unlocks.unlock (hu : account.Unlocks) :
    account.keyPass.isEmpty = false ∧
      Keyring.unlock account.server.user account.server.addresses account.keyPass =
        .ok ⟨account.userKey, account.addressKeys⟩ := by
  obtain ⟨passKey, primary, hpass, hprimary, hopen, hrings⟩ := hu
  have hne : account.keyPass.isEmpty = false := by
    cases hempty : account.keyPass.isEmpty with
    | false => rfl
    | true =>
      have hnil : account.keyPass.bytes = [] := List.isEmpty_iff.mp hempty
      unfold Keyring.ofKeyPass at hpass
      rw [hnil] at hpass
      cases hpass
  refine ⟨hne, ?_⟩
  simp only [Keyring.unlock, hne, hpass, hprimary, bind, Except.bind, hopen, hrings, pure,
    Except.pure, Bool.false_eq_true, if_false]

theorem Follows.signerKeyring (hf : account.Follows plan) (hs : plan.Sound) {email : String}
    (h : email ∈ plan.used) (number : Nat) (tokens : Tokens) :
    (account.sessionOf number tokens).signerKeyring email = .ok (.ofAddress email) := by
  obtain ⟨address, hone, -, hk⟩ := hf.address (hs.used email h)
  have ha : (account.sessionOf number tokens).address? email = some address :=
    (find?_of_filter hone).2
  have hring : (account.sessionOf number tokens).addressKeyring? address.id =
      some (.ofAddress email) := hk
  unfold Session.signerKeyring
  rw [ha]
  simp only [hring]

end Account

namespace World

variable {account : Account}

theorem isEmpty_append {text : String} (h : text.isEmpty = false) (more : String) :
    (text ++ more).isEmpty = false := by
  rw [String.isEmpty_eq_false_iff] at h ⊢
  intro he
  exact h (String.append_eq_empty_iff.mp he).1

/-- What the drive replies at once, a dialogue goes on with. -/
theorem run_ask {σ : Type} {α : Type} {request : Request}
    {next : request.Reply → Dialogue Unit α} {service : Service σ} {turn : Nat → σ → σ} {left : Nat}
    {s s' : σ} {reply : request.Reply}
    (h : (service request).run turn left s = (some reply, left, s')) :
    ((Dialogue.ask request next).carryAlone service).run turn left s =
      ((next reply).carryAlone service).run turn left s' := by
  rw [Dialogue.carryAlone, Activity.run_bind, h]

theorem restore_eq {tokens : Tokens} (huid : tokens.uid.isEmpty = false)
    (haccess : tokens.accessToken.isEmpty = false)
    (hrefresh : tokens.refreshToken.isEmpty = false) :
    (LockedSession.restore tokens : ExceptT SessionError (Dialogue Unit) LockedSession).run =
      (do
        Dialogue.fetch .api (.resume tokens)
        let user ← Dialogue.fetch .api .getUser
        let addresses ← Dialogue.fetch .api .getAddresses
        return { tokens, user, addresses } :
          ExceptT SessionError (Dialogue Unit) LockedSession).run := by
  simp only [LockedSession.restore, LockedSession.require, huid, haccess, hrefresh,
    Bool.false_eq_true, if_false, pure_bind]

/-- The tokens that were issued last restore a session. -/
theorem run_restore (world : World) (server : Server)
    (hw : world.bench.server = server.issueSession.2) (turn : Nat → World → World) (left : Nat) :
    ∃ world', Serves server world' ∧ world'.bench.account.keyPass = world.bench.account.keyPass ∧
      ((LockedSession.restore server.issueSession.1).run.carryAlone (service true)).run turn left
          world =
        (some (.ok ⟨server.issueSession.1, server.user, server.addresses, {}, none⟩), left,
          world') := by
  let resumed : World :=
    { world with
      bench := world.bench.setServer
        { server.issueSession.2 with
          current := some server.issueSession.1.uid, awaitingTwoFactor := false } }
  have hresume : (service true (.resume server.issueSession.1)).run turn left world =
      (some (.ok ()), left, resumed) := by
    have hlookup : server.issueSession.2.sessions.lookup server.issueSession.1.uid =
        some server.issueSession.1.accessToken := (lookup_setEntry _ _ _ _).trans (if_pos rfl)
    show (some (world.bench.server.resume server.issueSession.1).1, left, { world with
      bench := world.bench.setServer (world.bench.server.resume server.issueSession.1).2 }) = _
    rw [hw, Server.resume, if_pos hlookup]
    rfl
  have huser : (service true .getUser).run turn left resumed =
      (some (.ok server.user), left, resumed) := rfl
  have haddresses : (service true .getAddresses).run turn left resumed =
      (some (.ok server.addresses), left, resumed) := rfl
  rw [restore_eq (isEmpty_append (by decide) _) (isEmpty_append (by decide) _)
    (isEmpty_append (by decide) _)]
  refine ⟨resumed, ⟨rfl, rfl, rfl, rfl⟩, rfl, ?_⟩
  exact (run_ask hresume).trans ((run_ask huser).trans (run_ask haddresses))

/-- A session opens at once. -/
theorem run_freshSession (hu : account.Unlocks) (world : World)
    (hw : world.bench.account = account) (number : Nat) (turn : Nat → World → World) (left : Nat) :
    ∃ world', Serves account.server world' ∧
      (freshSession true number).run.run turn left world =
        (some (.ok (account.sessionOf number account.server.issueSession.1)), left, world') := by
  subst hw
  let issued : World := { world with bench.account := world.bench.account.issueTokens.2 }
  obtain ⟨restored, hserves, hkey, hrun⟩ :=
    run_restore issued world.bench.account.server rfl turn left
  obtain ⟨hne, hunlock⟩ := hu.unlock
  have hkey : restored.bench.account.keyPass = world.bench.account.keyPass := hkey
  refine ⟨restored, hserves, ?_⟩
  refine (Activity.run_bind turn ((LockedSession.restore
    world.bench.account.server.issueSession.1).run.carryAlone (service true)) _ left
    issued).trans ?_
  rw [hrun]
  show (some ((LockedSession.mk _ _ _ _ _).unlock number restored.bench.account.keyPass), left,
    restored) = _
  rw [hkey, LockedSession.unlock, hne, hunlock]
  rfl

end World
end SealedDrive
