import SealedDrive.Proofs.Ending
import SealedDrive.Proofs.Loading
import SealedDrive.Proofs.Patience
import SealedDrive.Proofs.Ring

/-!
Shares loaded by a pool of workers. Whoever moves when, whatever the server replies and whichever
loads crash: a best-effort listing ends with an answer that accounts for each position of the
request once, no share is asked for twice on account of one position, and no more loads are under
way than there are workers.
-/

namespace SealedDrive

theorem Gathered.Accounts.mono {α : Type} {P Q : String → Except DriveError α → Prop}
    {ids : List String} {panicked : Nat} {g : Gathered α} (hg : g.Accounts P ids panicked)
    (h : ∀ id result, P id result → Q id result) : g.Accounts Q ids panicked where
  once := hg.once
  loaded entry hm := by
    obtain ⟨id, hid, hP⟩ := hg.loaded entry hm
    exact ⟨id, hid, h _ _ hP⟩
  failures failure hm := (hg.failures failure hm).imp_left (h _ _)

namespace Fetch

variable {σ α : Type} {load : String → Activity σ (Except DriveError α)} {J : σ → Prop}
  {crashes : Prop} {P : String → Except DriveError α → Prop} {config : ListerConfig}
  {ids : List String} {f : Fetch σ α} {log : List Job}

/-- A best-effort listing in which so many jobs were handed out. `P` is what is known of the answers
of loads. -/
structure Accountable (load : String → Activity σ (Except DriveError α)) (J : σ → Prop)
    (P : String → Except DriveError α → Prop) (config : ListerConfig) (ids : List String)
    (log : List Job) (f : Fetch σ α) : Prop where
  once : (log.map (·.position)).Nodup
  asked : ∀ job ∈ log, ids[job.position]? = some job.id
  /-- Each load under way is that of one worker. -/
  inFlight : f.held.length ≤ min (max config.maxWorkers.toNat 1) ids.length
  goesOn : f.outcome = none → ∃ jobs g, Step load J f jobs g
  answer : ∀ answer, f.outcome = some answer → ∃ g, answer = .ok g ∧ g.Accounts P ids f.panicked ∧
    (f.panicked < workersFor config ids.length → g.lost.length = f.panicked)

theorem Run.accountable (hl : ∀ id, Loads J crashes P id (load id))
    (hP : ∀ id error, P id (.error error) → error.isWorkerPanicked = false) {s : σ} (hs : J s)
    (hp : config.policy = .bestEffort) (h : Run load J (start config ids) log f) :
    f.Accountable load J P config ids log := by
  have hheld : f.held.length ≤ f.workers.length := List.length_filterMap_le _ _
  rcases h.settled hl hp with hf | ⟨-, -, g, hg, hr, he, hw, ho⟩
  · have hsub := hf.sublist
    exact ⟨nodup_positions hsub, fun job hm => id_of_mem_jobsOf (hsub.subset hm),
      hheld.trans (le_of_eq hf.attended.count), fun _ => hf.step hs,
      fun answer ha => by rw [hf.attended.outcome] at ha; cases ha⟩
  · have hsub := hg.sublist
    have hcount : f.workers.length = workersFor config ids.length := hw ▸ hg.attended.count
    have hpanicked : f.panicked = g.panicked := by rw [panicked, hw, panicked]
    refine ⟨nodup_positions hsub, fun job hm => id_of_mem_jobsOf (hsub.subset hm),
      hheld.trans (le_of_eq hcount), fun hn => (by rw [ho] at hn; cases hn), fun answer ha => ?_⟩
    obtain ⟨gathered, hfinish, haccounts⟩ := hg.accounts
    rw [ho, hfinish] at ha
    cases ha
    refine ⟨gathered, rfl, hpanicked ▸ haccounts, fun hlt => ?_⟩
    rw [hpanicked] at hlt ⊢
    exact hg.lost_length hP hr he (hg.attended.count ▸ hlt) hfinish

/-! ## What a listing may answer -/

/-- An answer that the caller may get, in some order of the moves. -/
def MayAnswer (load : String → Activity σ (Except DriveError α)) (J : σ → Prop)
    (config : ListerConfig) (ids : List String) (answer : Except DriveError (Gathered α)) : Prop :=
  ∃ log f, Run load J (start config ids) log f ∧ f.outcome = some answer

/-- In whatever order the moves come, the listing ends, and with such an answer. -/
structure Ends (load : String → Activity σ (Except DriveError α)) (J : σ → Prop)
    (config : ListerConfig) (ids : List String)
    (post : Except DriveError (Gathered α) → Prop) : Prop where
  ends : WellFounded fun g f : Fetch σ α => ∃ jobs, Step load J f jobs g
  goesOn : ∀ log f, Run load J (start config ids) log f → f.outcome = none →
    ∃ jobs g, Step load J f jobs g
  answers : ∀ answer, MayAnswer load J config ids answer → post answer

theorem Ends.mono {post post' : Except DriveError (Gathered α) → Prop}
    (h : Ends load J config ids post) (hp : ∀ answer, post answer → post' answer) :
    Ends load J config ids post' :=
  { h with answers := fun answer ha => hp answer (h.answers answer ha) }

/-- A best-effort listing does end. -/
theorem ends_of_bestEffort (hl : ∀ id, Loads J crashes P id (load id)) {s : σ} (hs : J s)
    (hp : config.policy = .bestEffort) {post : Except DriveError (Gathered α) → Prop}
    (h : ∀ answer, MayAnswer load J config ids answer → post answer) :
    Ends load J config ids post where
  ends := wellFounded_step load J
  goesOn log f hr ho := by
    rcases hr.settled hl hp with hf | ha
    · exact hf.step hs
    · obtain ⟨_, -, -, -, -, ha⟩ := ha.answer
      rw [ha] at ho
      cases ho
  answers := h

theorem mayAnswer_nil {s : σ} (hs : J s) (config : ListerConfig) :
    MayAnswer load J config [] (.ok {}) := by
  have hstart : (start config [] : Fetch σ α) =
      { ids := [], policy := config.policy, backlog := [], workers := [], gathered := {} } := by
    simp [start, workersFor]
  let joined : Fetch σ α := { (start config [] : Fetch σ α) with ended := true }
  have hjoin : Fetch.move? load .supervisor (start config []) 0 s = some (joined, 0, s) := by
    simp only [joined, hstart]
    rfl
  have hanswer : Fetch.move? load .caller joined 0 s = some (joined.leave (.ok {}), 0, s) := by
    simp only [joined, hstart]
    rfl
  exact ⟨_, _, .tail (.tail (.refl _) (.move hs hjoin)) (.move hs hanswer), rfl⟩

/-- A listing that is not cancelled answers what some order of the moves answers, or that its time
is up. -/
theorem meets_mayAnswer_or_timedOut [Crowded σ] (hl : ∀ id, Loads J crashes P id (load id))
    (hcrowd : ∀ crowd s, J s → J (Crowded.setCrowd crowd s)) {s : σ} (hs : J s)
    {patience : Nat} :
    (Fetch.run load config none ids patience).Meets (.standing J) True
      (fun answer _ => MayAnswer load J config ids answer ∨ TimedOut config.deadline answer)
      () := by
  have hkept : Kept load J fun f => f.Keeps J crashes P ∧
      ∃ log, Run load J (start config ids) log f :=
    kept_and hl fun f jobs g ⟨log, hr⟩ hstep => ⟨_, .tail hr hstep⟩
  refine hkept.meets_run hcrowd ⟨start_keeps config ids, [], .refl _⟩
    (fun f answer ⟨_, log, hr⟩ ho => .inl ⟨log, f, hr, ho⟩) (fun hids => ?_)
    (fun h => absurd rfl h) fun span hspan => .inr ⟨span, hspan, rfl⟩
  rw [hids]
  exact .inl (mayAnswer_nil hs config)

/-- Without a bound on its time it answers what some order of the moves answers. -/
theorem meets_mayAnswer [Crowded σ] (hl : ∀ id, Loads J crashes P id (load id))
    (hcrowd : ∀ crowd s, J s → J (Crowded.setCrowd crowd s)) {s : σ} (hs : J s)
    (hd : config.deadline = none) {patience : Nat} :
    (Fetch.run load config none ids patience).Meets (.standing J) True
      (fun answer _ => MayAnswer load J config ids answer) () :=
  (meets_mayAnswer_or_timedOut hl hcrowd hs).mono id fun _ _ _ ha =>
    ha.resolve_right (hd ▸ not_timedOut_none)

end Fetch

/-! ## Shares -/

/-- A dialogue that begins with a request and makes only requests of some kind after it. -/
def Dialogue.Begins {σ α : Type} (p : Dialogue σ α) (request : Request) (goesOn : Request → Prop) :
    Prop :=
  ∃ next, p = .ask request next ∧ ∀ reply, (next reply).Meets (.standing fun _ => True)
    ⟨goesOn, fun _ _ => True⟩ (fun _ _ => True) ()

theorem Share.begins_load (session : Session) (shareId : String) :
    (Share.load session shareId : ExceptT DriveError (Dialogue Unit) OpenShare).run.Begins
      (.getShare shareId) (∃ linkId, · = .getLink shareId linkId) := by
  refine ⟨_, rfl, fun reply => ?_⟩
  cases reply with
  | error error => trivial
  | ok record =>
    let terms : Terms := ⟨(∃ linkId, · = .getLink shareId linkId), fun _ _ => True⟩
    have ha : ∀ linkId, terms.asks (.getLink shareId linkId) := fun linkId => ⟨linkId, rfl⟩
    exact (Share.meets_openRecord ha record).mono fun _ _ _ _ => trivial

/-- A share that does not load fails in one of the ways of a load. -/
theorem meets_share_isOfLoad {τ : Type} (service : Service τ) (session : Session)
    (shareId : String) :
    Loads (fun _ => True) True
      (fun _ result => ∀ error, result = .error error → error.isOfLoad = true) shareId
      (session.share service shareId) := by
  have hg : service.Gives (fun _ => True) True .any := service.gives_any fun _ _ => trivial
  refine (meets_share_replies hg trivial fun _ => trivial).mono id fun result _ _ hr error he => ?_
  subst he
  exact hr

theorem meets_share_unpanicked {τ : Type} (service : Service τ) (session : Session)
    (shareId : String) :
    Loads (fun _ => True) True
      (fun _ result => ∀ error, result = .error error → error.isWorkerPanicked = false) shareId
      (session.share service shareId) := by
  refine (meets_share_isOfLoad service session shareId).mono id fun result _ _ hr error he => ?_
  have hload := hr error he
  cases error with
  | workerPanicked => cases hload
  | _ => rfl

section

variable {τ : Type} [Crowded τ] [Nonempty τ]

/-- A best-effort listing of shares that is neither cancelled nor out of time: a load asks for its
share once, no order of the moves goes on for ever, after any of them the listing is accountable,
and the program answers what some order answers. With enough patience it does answer, and under a
deadline that or that its time is up. -/
theorem shares_accountable (service : Service τ) (session : Session) {config : ListerConfig}
    (hp : config.policy = .bestEffort) (ids : List String)
    {P : String → Except DriveError OpenShare → Prop}
    (hP : ∀ id, Loads (fun _ => True) True P id (session.share service id)) :
    (∀ id, (Share.load session id : ExceptT DriveError (Dialogue Unit) OpenShare).run.Begins
      (.getShare id) (∃ linkId, · = .getLink id linkId)) ∧
    (WellFounded fun g f : Fetch τ OpenShare =>
      ∃ jobs, Fetch.Step (session.share service) (fun _ => True) f jobs g) ∧
    (∀ log f, Fetch.Run (session.share service) (fun _ => True) (.start config ids) log f →
      f.Accountable (session.share service) (fun _ => True) P config ids log) ∧
    (config.deadline = none → (session.fetchShares service config none ids).Meets
      (.standing fun _ => True) True
      (fun answer _ => Fetch.MayAnswer (session.share service) (fun _ => True) config ids answer)
      ()) ∧
    Activity.Settles (fun _ => True) False
      (fun answer => Fetch.MayAnswer (session.share service) (fun _ => True) config ids answer ∨
        TimedOut config.deadline answer)
      fun patience => session.fetchShares service config none ids patience := by
  obtain ⟨server⟩ := ‹Nonempty τ›
  refine ⟨Share.begins_load session, Fetch.wellFounded_step _ _, fun log f hr => ?_, fun hd => ?_,
    ?_⟩
  · have ha := hr.accountable
      (fun id => (hP id).and (meets_share_unpanicked service session id)) (s := server)
      (fun id error h => h.2 error rfl) trivial hp
    refine { ha with answer := fun answer ho => ?_ }
    obtain ⟨g, hg, haccounts, hlost⟩ := ha.answer answer ho
    exact ⟨g, hg, haccounts.mono fun _ _ h => h.1, hlost⟩
  · exact Fetch.meets_mayAnswer hP (fun _ _ _ => trivial) (s := server) trivial hd
  · exact Fetch.settles_run fun _ =>
      Fetch.meets_mayAnswer_or_timedOut hP (fun _ _ _ => trivial) (s := server) trivial

end

namespace Pool

instance : Crowded Unit where
  crowd _ := {}
  setCrowd _ _ := ()

/-- A server that refuses everything, and asking for one of the shares crashes. -/
def service : Service Unit
  | .getShare "share-b" => .crash
  | _ => .done (.error .unauthorized)

def session : Session := Ring.share.session

def config : ListerConfig := { maxWorkers := 2 }

/-- The producer fills the queue, one worker crashes, the other does the rest. -/
def actors : List Actor :=
  [.producer, .producer, .producer, .worker 0, .worker 1, .worker 1, .worker 0, .worker 0,
    .worker 0, .producer, .worker 0, .supervisor, .supervisor, .supervisor, .caller, .caller,
    .caller]

/-- Two positions of one id fail, the third is lost. -/
def listing : ShareListing where
  failures := [("share-a", .api .unauthorized), ("share-a", .api .unauthorized),
    ("share-b", .workerPanicked 1)]
  workers := 2

theorem play_actors :
    (Fetch.play (session.share service) () actors []
      (.start config ["share-a", "share-b", "share-a"])).map
        (fun x => (x.2.outcome, x.2.panicked)) = some (some (.ok listing), 1) := by
  rfl

theorem shares_accountable_crash :
    ∃ log f, Fetch.Run (session.share service) (fun _ => True)
        (.start config ["share-a", "share-b", "share-a"]) log f ∧
      f.outcome = some (.ok listing) ∧ f.panicked = 1 ∧ (log.map (·.position)).Nodup ∧
      listing.Accounts (fun _ _ => True) ["share-a", "share-b", "share-a"] 1 ∧
      listing.lost.length = 1 := by
  obtain ⟨⟨log, f⟩, hplay, hf⟩ := Option.map_eq_some_iff.mp play_actors
  obtain ⟨ho, hp⟩ := Prod.mk.inj hf
  have hr : Fetch.Run (session.share service) (fun _ => True)
      (.start config ["share-a", "share-b", "share-a"]) log f :=
    Fetch.Run.play trivial (.refl _) hplay
  have hp' : config.policy = .bestEffort := rfl
  obtain ⟨-, -, hall, -⟩ := shares_accountable service session hp'
    ["share-a", "share-b", "share-a"] fun id => Activity.meets_standing_true _
  have ha := hall log f hr
  obtain ⟨g, hg, haccounts, hlost⟩ := ha.answer _ ho
  cases hg
  exact ⟨log, f, hr, ho, hp, ha.once, hp ▸ haccounts, hp ▸ hlost (by rw [hp]; decide)⟩

end Pool

end SealedDrive
