import SealedDrive.Proofs.Sequential

/-!
Finding a path, in whatever order the shares load. The shares that load are put in order, so the
order is gone from them; the failures are kept in the order in which they came in, and the first is
the answer when no share has the name. So the order shows there and nowhere else: an answer is told
by the replies alone, or is the error of one of the shares that failed.
-/

namespace SealedDrive

section

variable {Γ σ τ : Type} {reply : (request : Request) → request.Reply} {session : Session}
  {path : String} {all : Bool}

theorem Session.loaded_of_shareBy {shareId : String} {opened : OpenShare}
    (h : session.shareBy reply shareId = .ok opened) : opened.Loaded session := by
  have hl : (Share.load session shareId : ExceptT DriveError (Dialogue Unit) OpenShare).run.Meets
      (.standing fun _ => True) .any (fun r _ => ∀ opened, r = .ok opened → opened.Loaded session)
      () := by
    refine (Share.meets_load trivial fun _ => trivial).mono fun answer _ _ ho opened he => ?_
    subst he
    exact ho.2.loaded
  obtain ⟨_, -, -, hpost⟩ := hl.answerBy () trivial fun _ _ => trivial
  exact hpost opened h

/-! ## Answers -/

namespace OpenShare

/-- Walk on in a share that was just loaded, with fixed replies. -/
def walkBy (reply : (request : Request) → request.Reply) (opened : OpenShare) (name : String)
    (rest : List String) (all : Bool) : Except DriveError (OpenShare × Link) :=
  match (Link.walk opened.share all [] opened.arena.rootLink rest).run.answerBy reply opened.arena
  with
  | (.ok link, arena) => .ok ({ opened with arena }, link)
  | (.error (.fileNotFound missing), _) => .error (.fileNotFound (name ++ "/" ++ missing))
  | (.error error, _) => .error error

end OpenShare

namespace Session

/-- What loading all shares one by one answers to fixed replies. -/
def resultsBy (session : Session) (reply : (request : Request) → request.Reply) (all : Bool) :
    Except DriveError (List String × List (Except DriveError OpenShare)) :=
  eachOf (reply (.listShares all)) none (session.shareBy reply)

/-- The shares that loaded, in listing order. -/
def loadedOf (results : List (Except DriveError OpenShare)) : List OpenShare :=
  results.filterMap (·.toOption)

/-- The shares that did not load fail with these errors. -/
def errorsOf (results : List (Except DriveError OpenShare)) : List DriveError :=
  results.filterMap fun
    | .error error => some error
    | .ok _ => none

theorem mem_loadedOf {results : List (Except DriveError OpenShare)} {opened : OpenShare} :
    opened ∈ loadedOf results ↔ .ok opened ∈ results := by
  rw [loadedOf, List.mem_filterMap]
  constructor
  · rintro ⟨result, hm, h⟩
    cases result <;> cases h
    exact hm
  · exact fun hm => ⟨_, hm, rfl⟩

theorem mem_errorsOf {results : List (Except DriveError OpenShare)} {error : DriveError} :
    error ∈ errorsOf results ↔ .error error ∈ results := by
  rw [errorsOf, List.mem_filterMap]
  constructor
  · rintro ⟨result, hm, h⟩
    cases result <;> cases h
    exact hm
  · exact fun hm => ⟨_, hm, rfl⟩

/-- What finding a path comes to: one answer, or the error of any share that failed. -/
inductive Resolution where
  | settled (answer : Except DriveError (OpenShare × Link))
  | failed (errors : List DriveError)

def Resolution.Allows : Resolution → Except DriveError (OpenShare × Link) → Prop
  | .settled answer, answer' => answer' = answer
  | .failed errors, answer => ∃ error ∈ errors, answer = .error error

/-- Find the first name among the shares, given the results of their loads in listing order. -/
def pickBy (reply : (request : Request) → request.Reply) (name : String) (rest : List String)
    (all : Bool) (results : List (Except DriveError OpenShare)) : Resolution :=
  match (loadedOf results).find? (·.arena.root.name = name) with
  | some opened => .settled (opened.walkBy reply name rest all)
  | none =>
    match errorsOf results with
    | [] => .settled (.error (.fileNotFound name))
    | errors => .failed errors

/-- What the replies alone tell of finding a path. -/
def resolution (session : Session) (reply : (request : Request) → request.Reply) (path : String)
    (all : Bool) : Resolution :=
  match Path.segments path with
  | .error error => .settled (.error error)
  | .ok [] => .settled (.error (.invalidPath path))
  | .ok (name :: rest) =>
    match session.resultsBy reply all with
    | .error error => .settled (.error error)
    | .ok (_, results) => pickBy reply name rest all results

/-- No share that loaded has the first name, and shares failed with two errors that differ. -/
def Contested (session : Session) (reply : (request : Request) → request.Reply) (path : String)
    (all : Bool) (error error' : DriveError) : Prop :=
  ∃ name rest ids results, Path.segments path = .ok (name :: rest) ∧
    session.resultsBy reply all = .ok (ids, results) ∧
    (∀ opened, .ok opened ∈ results → opened.arena.root.name ≠ name) ∧
    .error error ∈ results ∧ .error error' ∈ results ∧ error ≠ error'

theorem pickBy_failed {name : String} {rest : List String}
    {results : List (Except DriveError OpenShare)} {errors : List DriveError}
    (h : pickBy reply name rest all results = .failed errors) :
    (∀ opened, .ok opened ∈ results → opened.arena.root.name ≠ name) ∧
      errors = errorsOf results := by
  unfold pickBy at h
  split at h
  · cases h
  next hnone =>
  refine ⟨fun opened hm hname => ?_, ?_⟩
  · exact List.find?_eq_none.mp hnone opened (mem_loadedOf.mpr hm) (decide_eq_true hname)
  · split at h
    · cases h
    · cases h
      rfl

/-- Two answers are the same, unless two errors compete. -/
theorem resolution_unique {answer answer' : Except DriveError (OpenShare × Link)}
    (h : (session.resolution reply path all).Allows answer)
    (h' : (session.resolution reply path all).Allows answer') :
    answer = answer' ∨ ∃ error error', session.Contested reply path all error error' ∧
      answer = .error error ∧ answer' = .error error' := by
  cases hr : session.resolution reply path all with
  | settled _ =>
    rw [hr] at h h'
    exact .inl (h.trans h'.symm)
  | failed errors =>
    rw [hr] at h h'
    obtain ⟨error, he, rfl⟩ := h
    obtain ⟨error', he', rfl⟩ := h'
    by_cases hsame : error = error'
    · exact .inl (by rw [hsame])
    refine .inr ⟨error, error', ?_, rfl, rfl⟩
    unfold resolution at hr
    split at hr
    · cases hr
    · cases hr
    next name rest hsegments =>
    split at hr
    · cases hr
    next ids results hresults =>
    obtain ⟨hnone, rfl⟩ := pickBy_failed hr
    exact ⟨name, rest, ids, results, hsegments, hresults, hnone, mem_errorsOf.mp he,
      mem_errorsOf.mp he', hsame⟩

end Session

/-! ## Every order -/

/-- Go on once the shares are there. -/
def Session.pick (service : Service τ) (name : String) (rest : List String) (all : Bool) :
    Except DriveError (List OpenShare × List (String × DriveError)) →
      Activity τ (Except DriveError (OpenShare × Link))
  | .error error => .done (.error error)
  | .ok (shares, failures) =>
    match shares.find? (·.arena.root.name = name) with
    | some opened => walkShare service opened name rest all
    | none =>
      match failures with
      | [] => .done (.error (.fileNotFound name))
      | (_, first) :: _ => .done (.error first)

/-- The shares of a listing in order, and its failures. -/
def Gathered.parts {α : Type} (g : Gathered α) : List α × List (String × DriveError) :=
  (g.inRequestOrder, g.failures)

theorem Session.resolveNames_eq [Crowded τ] (service : Service τ) (session : Session)
    (name : String) (rest : List String) (all : Bool) (patience : Nat) :
    session.resolveNames service name rest all patience =
      ((session.listShares service none all patience).map fun listing =>
        listing.map Gathered.parts).bind (pick service name rest all) :=
  rfl

variable {service : Service τ} {J : τ → Prop} {crashes : Prop}

/-- Where the listing answers and the rest goes on from its answer, the names are found. -/
theorem Session.settles_resolveNames [Crowded τ] {name : String} {rest : List String}
    {post : Except DriveError (OpenShare × Link) → Prop}
    (h : Activity.Settles J crashes (fun listing =>
        (pick service name rest all (listing.map Gathered.parts)).Meets (.standing J) crashes
          (fun answer _ => post answer) ())
      fun patience => session.listShares service none all patience) :
    Activity.Settles J crashes post fun patience =>
      session.resolveNames service name rest all patience :=
  .bind (.map (h.mono id fun _ hp => hp.settles))

theorem Session.shortens_resolveNames [Crowded τ] (service : Service τ) (session : Session)
    (name : String) (rest : List String) (all : Bool) {patience patience' : Nat}
    (h : patience ≤ patience') :
    (session.resolveNames service name rest all patience).Shortens
      (session.resolveNames service name rest all patience') := by
  have hlist : (session.listShares service none all patience).Shortens
      (session.listShares service none all patience') := by
    refine .bind (.refl _) fun listed => ?_
    obtain ⟨metadata, spent⟩ := listed
    cases metadata with
    | error error => exact .refl _
    | ok metadata => exact Fetch.shortens_run _ _ _ _ h
  exact .bind (.bind hlist fun _ => .refl _) fun _ => .refl _

/-- Under the timeout of the session the answer is what it is anyway, or that the time is up. -/
theorem Session.settles_bounded {α : Type} {p : Nat → Activity τ (Except DriveError α)}
    {post : Except DriveError α → Prop} (h : Activity.Settles J False post p)
    (hm : ∀ patience, (p patience).Meets (.standing J) True (fun answer _ => post answer) ())
    (hmono : ∀ {patience patience'}, patience ≤ patience' → (p patience).Shortens (p patience'))
    (hn : ∀ span, session.timeout = some span → post (.error (.timedOut span))) :
    Activity.Settles J False post fun patience => session.bounded (p patience) := by
  unfold Session.bounded
  split
  · exact h
  · next span hspan => exact (h.mono id fun _ _ => trivial).before hm hmono (hn span hspan)

theorem meets_walkShare_fixed (hf : service.Gives J crashes (.fixed reply)) {opened : OpenShare}
    (h : opened.Loaded session) (name : String) (rest : List String) (all : Bool) :
    (Session.walkShare service opened name rest all).Meets (.standing J) crashes
      (fun r _ => r = opened.walkBy reply name rest all) () := by
  have hroot : opened.arena.rootLink ∈ (Use.start opened.arena.root).links := by
    rw [h.arena_eq]
    exact List.mem_cons_self
  have hasks : ∀ request, (Use.terms opened.share fun _ => True).asks request →
      request.readsShares = true := by
    intro request ha
    cases request with
    | getLink | listChildren => rfl
    | _ => cases ha
  have hwalk : (Link.walk opened.share all [] opened.arena.rootLink rest).run.Meets
      (Use.discipline opened.share fun _ => True) (Use.terms opened.share fun _ => True)
      (fun r v => Use.HandsOut (r.map ([·])) v) (.start opened.arena.root) := Use.meets_walk hroot
  have hw := hwalk.holding_fixed ⟨h.arena_eq.symm, Use.start_proper h.isRoot⟩ hf hasks
    fun request _ => Use.replies_any opened.share request (reply request)
  refine .map (hw.mono id fun result _ _ hr => ?_)
  obtain ⟨answer, arena⟩ := result
  cases answer with
  | ok link => simp only [OpenShare.walkBy, ← hr]
  | error error => cases error <;> simp only [OpenShare.walkBy, ← hr]

theorem Session.results_eq {ids : List String} {results : List (Except DriveError OpenShare)}
    (h : session.resultsBy reply all = .ok (ids, results)) :
    results = ids.map (session.shareBy reply) := by
  unfold resultsBy eachOf at h
  generalize (reply (.listShares all) : Except ApiError (List ShareMetadata)) = listed at h
  cases listed with
  | error error => cases h
  | ok metadata =>
    cases h
    rfl

/-- The failures of a listing are the errors of the results, in some order. -/
theorem Gathered.Tells.errors {ids : List String} {results : List (Except DriveError OpenShare)}
    {g : ShareListing} (h : g.Tells ids results) (hlength : ids.length = results.length) :
    (g.failures.map (·.2)).Perm (Session.errorsOf results) := by
  refine (h.failures.map _).trans (.of_eq ?_)
  have hresults : results = (ids.zip results).map (·.2) :=
    (List.map_snd_zip (Nat.le_of_eq hlength.symm)).symm
  conv_rhs => rw [hresults]
  rw [failuresOf, Session.errorsOf, List.map_filterMap, List.filterMap_map]
  congr 1
  funext entry
  obtain ⟨id, result⟩ := entry
  cases result <;> rfl

/-- Whichever order a listing came in, the share that is picked is the first in listing order, and
the error that is answered is one of the errors of the results. -/
theorem meets_pick_tells (hf : service.Gives J crashes (.fixed reply)) (name : String)
    (rest : List String) {ids : List String} {results : List (Except DriveError OpenShare)}
    {listing : ShareListing} (h : listing.Tells ids results) (hlength : ids.length = results.length)
    (hloaded : ∀ opened, .ok opened ∈ results → opened.Loaded session) :
    (Session.pick service name rest all (.ok listing.parts)).Meets (.standing J) crashes
      (fun answer _ => (Session.pickBy reply name rest all results).Allows answer) () := by
  have herrors := h.errors hlength
  have hvalues : listing.inRequestOrder = Session.loadedOf results := h.values
  simp only [Gathered.parts, Session.pick, Session.pickBy, hvalues]
  cases hfind : (Session.loadedOf results).find? (·.arena.root.name = name) with
  | some opened =>
    have hm := Session.mem_loadedOf.mp (List.mem_of_find?_eq_some hfind)
    exact meets_walkShare_fixed hf (hloaded opened hm) name rest all
  | none =>
    cases hfailures : listing.failures with
    | nil =>
      rw [hfailures] at herrors
      rw [List.nil_perm.mp herrors]
      rfl
    | cons failure failures =>
      have hm : failure.2 ∈ Session.errorsOf results :=
        herrors.mem_iff.mp (List.mem_map_of_mem (hfailures ▸ List.mem_cons_self))
      cases hall : Session.errorsOf results with
      | nil => rw [hall] at hm; cases hm
      | cons error errors => exact ⟨failure.2, hall ▸ hm, rfl⟩

/-- Whatever listing the loads lead to, the rest comes to an answer that the replies allow. -/
theorem meets_pick (hf : service.Gives J False (.fixed reply)) {name : String} {rest : List String}
    (hp : Path.segments path = .ok (name :: rest)) {result : Except DriveError ShareListing}
    (h : Agrees (session.resultsBy reply all) result) :
    (Session.pick service name rest all (result.map Gathered.parts)).Meets (.standing J) False
      (fun answer _ => (session.resolution reply path all).Allows answer) () := by
  unfold Session.resolution
  simp only [hp]
  cases hr : session.resultsBy reply all with
  | error error =>
    rw [hr] at h
    cases result with
    | ok listing => exact h.elim
    | error error' => exact congrArg Except.error (Eq.symm h)
  | ok each =>
    rw [hr] at h
    cases result with
    | error error => exact h.elim
    | ok listing =>
      obtain ⟨ids, results⟩ := each
      obtain rfl := Session.results_eq hr
      have hloaded : ∀ opened, .ok opened ∈ ids.map (session.shareBy reply) →
          opened.Loaded session := by
        intro opened hm
        obtain ⟨id, -, hid⟩ := List.mem_map.mp hm
        exact Session.loaded_of_shareBy hid
      exact meets_pick_tells hf name rest h (List.length_map _).symm hloaded

section

variable [Crowded τ] {server : τ}

/-- A path that has no names is refused at once. -/
theorem Session.resolve_refused (service : Service τ) (session : Session)
    (reply : (request : Request) → request.Reply) (all : Bool)
    (h : ∀ name rest, Path.segments path ≠ .ok (name :: rest)) :
    ∃ answer, (∀ patience, session.resolve service path all patience = .done answer) ∧
      (session.resolution reply path all).Allows answer := by
  unfold Session.resolve Session.resolution
  cases hsegments : Path.segments path with
  | error error => exact ⟨_, fun _ => rfl, rfl⟩
  | ok segments =>
    cases segments with
    | nil => exact ⟨_, fun _ => rfl, rfl⟩
    | cons name rest => exact absurd hsegments (h name rest)

/-- What a path is found to lead to, the replies allow. -/
theorem meets_resolve_allows (hf : service.Gives J False (.fixed reply)) (hs : J server)
    (hcrowd : ∀ crowd server, J server → J (Crowded.setCrowd crowd server))
    (hp : session.lister.policy = .bestEffort) (hd : session.lister.deadline = none)
    (ht : session.timeout = none) (path : String) (all : Bool) :
    (session.resolve service path all).Meets (.standing J) True
      (fun answer _ => (session.resolution reply path all).Allows answer) () := by
  by_cases hnames : ∃ name rest, Path.segments path = .ok (name :: rest)
  · obtain ⟨name, rest, hsegments⟩ := hnames
    unfold Session.resolve
    simp only [hsegments, Session.bounded, ht, Session.resolveNames_eq]
    have hm : (service (.listShares all)).Meets (.standing J) False
        (fun r _ => r = reply (.listShares all)) () := hf (.listShares all) rfl
    refine .bind (.map ?_)
    exact (meets_listSharesWith_agrees hp hd hs hcrowd hm (meets_share_fixed session hf) none).mono
      id fun result _ _ h => (meets_pick hf hsegments h).mono False.elim fun _ _ _ h => h
  · push Not at hnames
    obtain ⟨answer, hdone, hallows⟩ := session.resolve_refused service reply all hnames
    rw [hdone]
    exact hallows

/-- And with enough patience there is an answer. -/
theorem settles_resolve_allows (hf : service.Gives J False (.fixed reply)) (hs : J server)
    (hcrowd : ∀ crowd server, J server → J (Crowded.setCrowd crowd server))
    (hp : session.lister.policy = .bestEffort) (hd : session.lister.deadline = none)
    (ht : session.timeout = none) (path : String) (all : Bool) :
    Activity.Settles J False (session.resolution reply path all).Allows fun patience =>
      session.resolve service path all patience := by
  by_cases hnames : ∃ name rest, Path.segments path = .ok (name :: rest)
  · obtain ⟨name, rest, hsegments⟩ := hnames
    unfold Session.resolve
    simp only [hsegments, Session.bounded, ht]
    have hl := meets_share_fixed session hf
    have hm : (service (.listShares all)).Meets (.standing J) False
        (fun r _ => r = reply (.listShares all)) () := hf (.listShares all) rfl
    have hlisting := (settles_listSharesWith hs hcrowd hm hl none).answers fun _ =>
      meets_listSharesWith_agrees hp hd hs hcrowd hm hl none
    exact Session.settles_resolveNames (hlisting.mono id fun _ h => meets_pick hf hsegments h)
  · push Not at hnames
    obtain ⟨answer, hdone, hallows⟩ := session.resolve_refused service reply all hnames
    simp only [hdone]
    exact Activity.Meets.settles hallows

end

/-- When the replies are fixed, neither the order of the moves nor the delays can change what
finding a path answers, unless no share that loaded has the first name and shares failed with
errors that differ; then the answer is one of these errors. With enough patience there is an
answer. -/
theorem resolve_any_order [Crowded τ] {server : τ} (hf : service.Gives J False (.fixed reply))
    (hs : J server) (hcrowd : ∀ crowd server, J server → J (Crowded.setCrowd crowd server))
    (hp : session.lister.policy = .bestEffort) (hd : session.lister.deadline = none)
    (ht : session.timeout = none) (path : String) (all : Bool) :
    (∀ metadata name rest, reply (.listShares all) = .ok metadata →
      Path.segments path = .ok (name :: rest) →
      Fetch.Ends (session.share service) J session.lister (Session.wantedIds none metadata)
        fun listing => (Session.pick service name rest all (listing.map Gathered.parts)).Meets
          (.standing J) False
          (fun answer _ => (session.resolution reply path all).Allows answer) ()) ∧
    (session.resolve service path all).Meets (.standing J) True
      (fun answer _ => (session.resolution reply path all).Allows answer) () ∧
    (Activity.Settles J False (session.resolution reply path all).Allows fun patience =>
      session.resolve service path all patience) ∧
    ∀ answer answer', (session.resolution reply path all).Allows answer →
      (session.resolution reply path all).Allows answer' →
      answer = answer' ∨ ∃ error error', session.Contested reply path all error error' ∧
        answer = .error error ∧ answer' = .error error' := by
  have hl := meets_share_fixed session hf
  refine ⟨fun metadata name rest hm hsegments => ?_, ?_, ?_, fun _ _ => Session.resolution_unique⟩
  · exact Fetch.ends_of_bestEffort hl hs hp fun result h =>
      meets_pick hf hsegments (agrees_of_mayAnswer hl hp none hm h)
  · exact meets_resolve_allows hf hs hcrowd hp hd ht path all
  · exact settles_resolve_allows hf hs hcrowd hp hd ht path all

/-! ## Two errors that compete -/

/-- When no share loads, the first failure is the answer. -/
theorem Session.run_resolve_failed [Crowded τ] {turn : Nat → τ → τ} {left : Nat} {server : τ}
    {name id : String} {rest : List String} {error : DriveError}
    {failures : List (String × DriveError)} {workers : Nat}
    (ht : session.timeout = none) (hp : Path.segments path = .ok (name :: rest))
    (hl : ((session.listShares service none all).run turn left server).1 =
      some (.ok ⟨[], (id, error) :: failures, workers⟩)) :
    ((session.resolve service path all).run turn left server).1 = some (.error error) := by
  rcases hrun : (session.listShares service none all).run turn left server with ⟨result, left', s'⟩
  rw [hrun] at hl
  cases hl
  unfold Session.resolve
  simp only [hp, Session.bounded, ht, Session.resolveNames_eq, Activity.map, Activity.run_bind,
    hrun]
  simp [Activity.run, Except.map, Gathered.parts, Gathered.inRequestOrder, pick]

end

namespace Contest

def account : Account := .built "alice" "secret" none none
  [.volume, .share "volume-2" "alice@example.com" "One",
    .share "volume-2" "alice@example.com" "Two"]

def session : Session := account.sessionOf 0 account.server.issueSession.1

/-- The drive once the session is open. -/
def server : Server := { account.server.issueSession.2 with current := some "uid-1" }

/-- Each of the two shares fails with an error of its own, after a delay. -/
def faults (first second : Nat) : List Fault :=
  [⟨"get_share", some "share-3", some first, some (.fail .unauthorized)⟩,
    ⟨"get_share", some "share-5", some second, some (.fail (.notFound "gone"))⟩]

def world (first second : Nat) : World where
  bench := ⟨{ account with server }, [], faults first second, []⟩

theorem faulted_world (first second : Nat) :
    World.Faulted server (faults first second) (world first second) :=
  ⟨⟨rfl, rfl, rfl, rfl⟩, rfl, rfl⟩

theorem gives (first second : Nat) :
    (World.service false).Gives (World.Faulted server (faults first second)) False
      (.fixed (Bench.replyUnder (faults first second) server)) := by
  refine World.gives_replyUnder server fun fault hm => ?_
  rcases List.mem_cons.mp hm with rfl | hm
  · exact nofun
  · rw [List.mem_singleton.mp hm]
    exact nofun

/-- The delays are not in the replies. -/
theorem replyUnder_faults :
    Bench.replyUnder (faults 20 10) server = Bench.replyUnder (faults 10 20) server := by
  have hfaults : faults 20 10 = (faults 10 20).map fun fault =>
    { fault with delay := fault.delay.map (30 - ·) } := by rfl
  rw [hfaults, Bench.replyUnder_delay]

theorem resolution_eq :
    session.resolution (Bench.replyUnder (faults 10 20) server) "x" false =
      .failed [.api .unauthorized, .api (.notFound "gone")] := by
  rfl

/-- One of the two errors. -/
def Fails (answer : Except DriveError (OpenShare × Link)) : Prop :=
  answer = .error (.api .unauthorized) ∨ answer = .error (.api (.notFound "gone"))

theorem fails_of_allows {answer : Except DriveError (OpenShare × Link)}
    (h : (session.resolution (Bench.replyUnder (faults 10 20) server) "x" false).Allows answer) :
    Fails answer := by
  rw [resolution_eq] at h
  obtain ⟨error, hm, rfl⟩ := h
  rcases List.mem_cons.mp hm with rfl | hm
  · exact .inl rfl
  · rw [List.mem_singleton.mp hm]
    exact .inr rfl

end Contest

/-- On a drive of two shares that fail differently, the answer is one of the two errors, in whatever
order they come. -/
theorem resolve_any_order_contest :
    (Fetch.Ends (Contest.session.share (World.service false))
      (World.Faulted Contest.server (Contest.faults 10 20)) Contest.session.lister
      ["share-3", "share-5"] fun listing =>
        (Session.pick (World.service false) "x" [] false (listing.map Gathered.parts)).Meets
          (.standing (World.Faulted Contest.server (Contest.faults 10 20))) False
          (fun answer _ => Contest.Fails answer) ()) ∧
    Activity.Settles (World.Faulted Contest.server (Contest.faults 10 20)) False Contest.Fails
      fun patience => Contest.session.resolve (World.service false) "x" false patience := by
  have hd : Contest.session.lister.deadline = none := rfl
  have ht : Contest.session.timeout = none := rfl
  have hp : Path.segments "x" = .ok ["x"] := by rfl
  obtain ⟨hends, -, hsettles, -⟩ := resolve_any_order (Contest.gives 10 20)
    (Contest.faulted_world 10 20) (fun _ _ h => h) rfl hd ht "x" false
  exact ⟨(hends _ _ _ rfl hp).mono fun _ h => h.mono id fun _ _ _ => Contest.fails_of_allows,
    hsettles.mono id fun _ => Contest.fails_of_allows⟩

/-- With the same replies and other delays the answer is another: the share that is held up less
decides. -/
theorem first_failure_decides :
    Bench.replyUnder (Contest.faults 20 10) Contest.server =
      Bench.replyUnder (Contest.faults 10 20) Contest.server ∧
    ((Contest.session.resolve (World.service false) "x" false).run World.turn 128
      (Contest.world 10 20)).1 = some (.error (.api .unauthorized)) ∧
    ((Contest.session.resolve (World.service false) "x" false).run World.turn 128
      (Contest.world 20 10)).1 = some (.error (.api (.notFound "gone"))) := by
  have hp : Path.segments "x" = .ok ["x"] := by rfl
  refine ⟨Contest.replyUnder_faults, ?_, ?_⟩
  · exact Session.run_resolve_failed rfl hp (by rfl)
  · exact Session.run_resolve_failed rfl hp (by rfl)

end SealedDrive
