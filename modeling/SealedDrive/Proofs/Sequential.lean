import SealedDrive.Proofs.Asked
import SealedDrive.Proofs.Pool

/-!
A pool does what loading one by one does. When the answer of a load does not depend on the others,
a best-effort listing in which no load crashes collects, in some order, what the loads of the
request answer; putting the values in order undoes that order, and the failures are those of the
loads that fail.
-/

namespace SealedDrive

variable {σ α : Type}

namespace Gathered

/-- The ids whose loads failed, and why, when they were loaded with these results. -/
def failuresOf (ids : List String) (results : List (Except DriveError α)) :
    List (String × DriveError) :=
  (ids.zip results).filterMap fun
    | (id, .error error) => some (id, error)
    | (_, .ok _) => none

/-- A listing has the values that loading one by one results in, and, in some order, the
failures. -/
structure Tells (ids : List String) (results : List (Except DriveError α)) (g : Gathered α) :
    Prop where
  values : g.inRequestOrder = results.filterMap (·.toOption)
  failures : g.failures.Perm (failuresOf ids results)

variable {answer : String → Except DriveError α} {ids : List String} {workers : Nat}
  {results entries : List (Job × Except DriveError α)}

theorem values_ofResults (workers : Nat) (results : List (Job × Except DriveError α)) :
    (ofResults workers results).loaded.map (·.2) =
      (results.map (·.2)).filterMap (·.toOption) := by
  rw [ofResults, List.map_filterMap, List.filterMap_map]
  congr 1
  funext entry
  obtain ⟨job, result⟩ := entry
  cases result <;> rfl

/-- When the results are in the order of the requests, so are the failures. -/
theorem failures_ofResults (workers : Nat) (h : entries.map (·.1) = Fetch.jobsOf ids) :
    (ofResults workers entries).failures = failuresOf ids (entries.map (·.2)) := by
  have hids : ids = entries.map (·.1.id) := by
    rw [← Fetch.ids_jobsOf ids, ← h, List.map_map]
    rfl
  rw [failuresOf, hids, List.zip_map', List.filterMap_map]
  dsimp only [ofResults]
  congr 1
  funext entry
  obtain ⟨job, result⟩ := entry
  cases result <;> rfl

theorem loaded_sublist (workers : Nat) (results : List (Job × Except DriveError α)) :
    ((ofResults workers results).loaded.map (·.1)).Sublist (results.map (·.1.position)) := by
  induction results with
  | nil => exact .slnil
  | cons entry rest ih =>
    obtain ⟨job, result⟩ := entry
    cases result with
    | ok value => exact ih.cons_cons _
    | error error => exact ih.cons _

/-- The values of results in the order of the requests are in order already. -/
theorem pairwise_ofResults (workers : Nat) (h : entries.map (·.1) = Fetch.jobsOf ids) :
    ((ofResults workers entries).loaded.map (·.1)).Pairwise (· < ·) := by
  have hpositions : entries.map (·.1.position) = List.range ids.length := by
    rw [← Fetch.positions_jobsOf, ← h, List.map_map]
    rfl
  refine List.Pairwise.sublist (loaded_sublist workers _) ?_
  rw [hpositions]
  exact List.pairwise_lt_range

/-- Putting the values in order undoes any order in which they came in. -/
theorem inRequestOrder_eq {g : Gathered α} {entries : List (Nat × α)}
    (h : g.loaded.Perm entries) (hpositions : (entries.map (·.1)).Pairwise (· < ·)) :
    g.inRequestOrder = entries.map (·.2) := by
  have hperm := (List.mergeSort_perm g.loaded fun a b => a.1 ≤ b.1).trans h
  have hsorted : (g.loaded.mergeSort fun a b => a.1 ≤ b.1).Pairwise fun a b => a.1 ≤ b.1 := by
    refine (List.pairwise_mergeSort ?_ ?_ _).imp of_decide_eq_true
    · intro a b c
      simpa using Nat.le_trans
    · intro a b
      simpa using Nat.le_total a.1 b.1
  have hentries : entries.Pairwise fun a b => a.1 ≤ b.1 :=
    (List.pairwise_map.mp hpositions).imp Nat.le_of_lt
  have hnodup : (entries.map (·.1)).Nodup := hpositions.imp Nat.ne_of_lt
  -- two entries at one position are one entry, so the sorted list is unique
  refine congrArg _ (hperm.eq_of_pairwise (fun a b ha hb hab hba => ?_) hsorted hentries)
  exact List.inj_on_of_nodup_map hnodup (hperm.mem_iff.mp ha) hb (Nat.le_antisymm hab hba)

/-- In whatever order the results come in, the listing tells of them. -/
theorem tells_ofResults (h : results.Perm entries) (hj : entries.map (·.1) = Fetch.jobsOf ids) :
    (ofResults workers results).Tells ids (entries.map (·.2)) where
  values := by
    have hloaded : (ofResults workers results).loaded.Perm (ofResults workers entries).loaded :=
      h.filterMap _
    rw [inRequestOrder_eq hloaded (pairwise_ofResults workers hj), values_ofResults]
  failures := by
    rw [← failures_ofResults workers hj]
    exact h.filterMap _

end Gathered

namespace Fetch

variable {load : String → Activity σ (Except DriveError α)} {J : σ → Prop} {crashes : Prop}
  {P : String → Except DriveError α → Prop} {config : ListerConfig} {ids : List String}
  {f : Fetch σ α} {log : List Job}

/-! ## What is missing -/

/-- What loading an id comes to: an answer of its load, or else the id is lost with its worker. -/
def OrLost (crashes : Prop) (P : String → Except DriveError α → Prop) (id : String)
    (result : Except DriveError α) : Prop :=
  P id result ∨ crashes ∧ ∃ panicked, result = .error (.workerPanicked panicked)

theorem Keeps.panicked_eq_zero (hf : f.Keeps J crashes P) (hc : ¬crashes) : f.panicked = 0 := by
  refine List.countP_eq_zero.mpr fun worker hm hp => ?_
  cases worker with
  | panicked => exact hc (hf.workers _ hm)
  | _ => cases hp

/-- Nothing is missing at the end, unless loads crash. -/
theorem Going.missed_eq_nil (hf : f.Going J crashes P config ids log) (hr : f.results = [])
    (he : f.ended = true) (hc : ¬crashes) : f.missed = [] := by
  have hpanicked := hf.keeps.panicked_eq_zero hc
  by_cases hn : ids = []
  · subst hn
    exact List.eq_nil_iff_forall_not_mem.mpr fun job hm => List.not_mem_nil (hf.missed hm)
  · have hlength := List.length_pos_iff.mpr hn
    have hlt : f.panicked < f.workers.length := by
      rw [hpanicked, hf.attended.count, workersFor]
      omega
    exact List.length_eq_zero_iff.mp ((hf.missed_length hr he hlt).trans hpanicked)

/-- What counts as the result of an id that is missing at the end. -/
def missedResults (f : Fetch σ α) : List (Job × Except DriveError α) :=
  f.missed.map fun job => (job, .error (.workerPanicked f.panicked))

/-- What was collected and what is missing can be put in the order of the requests. -/
theorem Going.inOrder (hf : f.Going J crashes P config ids log)
    {collected : List (Job × Except DriveError α)} {lost : List Job}
    (ht : f.Tallied P log collected lost) :
    ∃ entries, (collected ++ f.missedResults).Perm entries ∧ entries.map (·.1) = jobsOf ids := by
  have hjobs := (hf.collected ht).2
  have hseen : ((collected ++ f.missedResults).map (·.1)).map (·.position) =
      f.seen ++ f.missed.map (·.position) := by
    simp only [missedResults, ht.seen, List.map_append, List.map_map]
    rfl
  have hpositions := hf.seen_missed
  rw [← hseen] at hpositions
  have hperm : ((collected ++ f.missedResults).map (·.1)).Perm (jobsOf ids) := by
    have hnodup := (hpositions.nodup_iff.mpr List.nodup_range).of_map
    refine (List.subperm_of_subset hnodup fun job hm => ?_).perm_of_length_le ?_
    · rw [List.map_append] at hm
      rcases List.mem_append.mp hm with hm | hm
      · obtain ⟨entry, hentry, rfl⟩ := List.mem_map.mp hm
        exact hjobs entry hentry
      · rw [missedResults, List.map_map] at hm
        obtain ⟨job, hmissed, rfl⟩ := List.mem_map.mp hm
        exact hf.missed hmissed
    · have hlength := hpositions.length_eq
      rw [List.length_map, List.length_range] at hlength
      rw [hlength, jobsOf, List.length_map, List.length_zipIdx]
  obtain ⟨entries, hentries, hwhole⟩ := List.perm_comp_forall₂ hperm.symm
    (v := collected ++ f.missedResults) (r := fun job entry => entry.1 = job)
    (List.forall₂_map_left_iff.mpr (List.forall₂_same.mpr fun _ _ => rfl))
  exact ⟨entries, hwhole.symm,
    (List.forall₂_eq_eq_eq ▸ List.forall₂_map_left_iff.mpr hentries.flip)⟩

/-- The answer tells of one result for each id. -/
theorem Going.tells (hf : f.Going J crashes P config ids log) (hr : f.results = [])
    (he : f.ended = true) :
    ∃ g results, f.finish = .ok g ∧ List.Forall₂ (OrLost crashes P) ids results ∧
      g.Tells ids results := by
  obtain ⟨collected, lost, ht⟩ := hf.tallied
  obtain ⟨entries, hwhole, hinOrder⟩ := hf.inOrder ht
  refine ⟨_, entries.map (·.2), finish_of_bestEffort hf.attended.policy, ?_, ?_⟩
  · rw [← ids_jobsOf ids, ← hinOrder, List.map_map, List.forall₂_map_left_iff,
      List.forall₂_map_right_iff, List.forall₂_same]
    intro entry hm
    rcases List.mem_append.mp (hwhole.mem_iff.mpr hm) with hm | hm
    · exact .inl (ht.collected entry hm)
    · obtain ⟨job, hmissed, rfl⟩ := List.mem_map.mp hm
      refine .inr ⟨?_, _, rfl⟩
      by_contra hc
      rw [hf.missed_eq_nil hr he hc] at hmissed
      cases hmissed
  · have hgathered : Gathered.ofResults f.workers.length (collected ++ f.missedResults) =
        { f.gathered with
          failures := f.gathered.failures ++
            f.missed.map fun job => (job.id, .workerPanicked f.panicked) } := by
      simp [missedResults, ht.gathered, Gathered.ofResults, List.filterMap_map]
    exact hgathered ▸ Gathered.tells_ofResults hwhole hinOrder

/-- So does every answer that the caller may get. -/
theorem MayAnswer.tells {result : Except DriveError (Gathered α)}
    (hl : ∀ id, Loads J crashes P id (load id)) (hp : config.policy = .bestEffort)
    (h : MayAnswer load J config ids result) :
    ∃ g results, result = .ok g ∧ List.Forall₂ (OrLost crashes P) ids results ∧
      g.Tells ids results := by
  obtain ⟨log, f, hr, ho⟩ := h
  rcases hr.settled hl hp with hf | ⟨-, -, f', hf, hresults, he, -, ho'⟩
  · rw [hf.attended.outcome] at ho
    cases ho
  · obtain ⟨g, results, hg, hresults, ht⟩ := hf.tells hresults he
    rw [ho, hg] at ho'
    cases ho'
    exact ⟨g, results, rfl, hresults, ht⟩

/-- Without crashes, and when each load answers the same always, there is one result. -/
theorem eq_of_orLost {answer : String → Except DriveError α} {ids : List String}
    {results : List (Except DriveError α)}
    (h : List.Forall₂ (OrLost False fun id result => result = answer id) ids results) :
    results = ids.map answer := by
  induction h with
  | nil => rfl
  | cons hr _ ih =>
    rw [List.map_cons, ← ih, hr.resolve_right fun hc => hc.1]

end Fetch

/-! ## One by one -/

variable {τ : Type}

namespace Session

/-- Load each of the given shares, one after the other. -/
def shareEach (service : Service τ) (session : Session) :
    List String → Activity τ (List (Except DriveError OpenShare))
  | [] => .done []
  | id :: rest => (session.share service id).bind fun result =>
    (session.shareEach service rest).map (result :: ·)

/-- Ask for the metadata of all shares, then load those that are wanted one by one. -/
def listEach (service : Service τ) (session : Session) (volumeId : Option String) (all : Bool) :
    Activity τ (Except DriveError (List String × List (Except DriveError OpenShare))) :=
  (listMetadata service all).bind fun
    | .error error => .done (.error error)
    | .ok metadata => (session.shareEach service (wantedIds volumeId metadata)).map fun results =>
      .ok (wantedIds volumeId metadata, results)

end Session

/-- The answers of a listing and of loading one by one agree. -/
def Agrees (each : Except DriveError (List String × List (Except DriveError OpenShare)))
    (answer : Except DriveError ShareListing) : Prop :=
  match each, answer with
  | .ok (ids, results), .ok listing => listing.Tells ids results
  | .error error, .error error' => error = error'
  | _, _ => False

section

variable {service : Service τ} {session : Session} {J : τ → Prop} {all : Bool}
  {answer : String → Except DriveError OpenShare} {listed : Except ApiError (List ShareMetadata)}

theorem meets_shareEach (hl : ∀ id, Loads J False (fun id result => result = answer id) id
    (session.share service id)) (ids : List String) :
    (session.shareEach service ids).Meets (.standing J) False
      (fun results _ => results = ids.map answer) () := by
  induction ids with
  | nil => exact rfl
  | cons shareId rest ih =>
    refine .bind ((hl shareId).mono id fun result _ _ hr => ?_)
    refine .map (ih.mono id fun results _ _ hrs => ?_)
    rw [hr, hrs]
    rfl

/-- What loading the wanted shares one by one answers, when the metadata is replied like this. -/
def eachOf (listed : Except ApiError (List ShareMetadata)) (volumeId : Option String)
    (answer : String → Except DriveError OpenShare) :
    Except DriveError (List String × List (Except DriveError OpenShare)) :=
  (listed.mapError .api).map fun metadata =>
    (Session.wantedIds volumeId metadata, (Session.wantedIds volumeId metadata).map answer)

theorem meets_listMetadata {crashes : Prop} (hm : (service (.listShares all)).Meets (.standing J)
    crashes (fun reply _ => reply = listed) ()) :
    (Session.listMetadata service all).Meets (.standing J) crashes
      (fun metadata _ => metadata = listed.mapError .api) () :=
  .map (hm.mono id fun _ _ _ h => congrArg (Except.mapError DriveError.api) h)

theorem meets_listEach
    (hm : (service (.listShares all)).Meets (.standing J) False (fun reply _ => reply = listed) ())
    (hl : ∀ id, Loads J False (fun id result => result = answer id) id (session.share service id))
    (volumeId : Option String) :
    (session.listEach service volumeId all).Meets (.standing J) False
      (fun each _ => each = eachOf listed volumeId answer) () := by
  refine .bind ((meets_listMetadata hm).mono id fun metadata _ _ h => ?_)
  subst h
  cases listed with
  | error error => rfl
  | ok metadata =>
    refine .map ((meets_shareEach hl _).mono id fun results _ _ hr => ?_)
    rw [hr]
    rfl

/-- What the caller of a listing may get agrees with loading one by one. -/
theorem agrees_of_mayAnswer {config : ListerConfig} {metadata : List ShareMetadata}
    {result : Except DriveError ShareListing}
    (hl : ∀ id, Loads J False (fun id result => result = answer id) id (session.share service id))
    (hp : config.policy = .bestEffort) (volumeId : Option String) (hm : listed = .ok metadata)
    (h : Fetch.MayAnswer (session.share service) J config (Session.wantedIds volumeId metadata)
      result) : Agrees (eachOf listed volumeId answer) result := by
  obtain ⟨g, results, rfl, hresults, ht⟩ := h.tells hl hp
  rw [hm]
  rw [Fetch.eq_of_orLost hresults] at ht
  exact ht

/-- With enough patience a listing that is not cancelled answers. -/
theorem settles_listSharesWith [Crowded τ] {config : ListerConfig} {crashes crashes' : Prop}
    {P : String → Except DriveError OpenShare → Prop} {server : τ} (hs : J server)
    (hcrowd : ∀ crowd server, J server → J (Crowded.setCrowd crowd server))
    (hm : (service (.listShares all)).Meets (.standing J) crashes
      (fun reply _ => reply = listed) ())
    (hl : ∀ id, Loads J crashes' P id (session.share service id)) (volumeId : Option String) :
    Activity.Settles J crashes (fun _ => True) fun patience =>
      session.listSharesWith service config none volumeId all patience := by
  have hmetadata := (meets_listMetadata hm).timed 0
  refine .bind ((hmetadata.mono id fun listed' _ _ _ => ?_).settles)
  obtain ⟨metadata, spent⟩ := listed'
  cases metadata with
  | error error => exact Activity.Meets.settles trivial
  | ok metadata =>
    refine (Fetch.settles_run fun _ => ?_).mono False.elim fun _ h => h
    exact (Fetch.meets_mayAnswer_or_timedOut hl hcrowd hs).mono id fun _ _ _ _ => trivial

theorem meets_listSharesWith_agrees [Crowded τ] {config : ListerConfig} {server : τ}
    (hp : config.policy = .bestEffort) (hd : config.deadline = none) (hs : J server)
    (hcrowd : ∀ crowd server, J server → J (Crowded.setCrowd crowd server))
    (hm : (service (.listShares all)).Meets (.standing J) False (fun reply _ => reply = listed) ())
    (hl : ∀ id, Loads J False (fun id result => result = answer id) id (session.share service id))
    (volumeId : Option String) {patience : Nat} :
    (session.listSharesWith service config none volumeId all patience).Meets (.standing J) True
      (fun result _ => Agrees (eachOf listed volumeId answer) result) () := by
  refine .bind (((meets_listMetadata hm).timed 0).mono False.elim fun metadata _ _ h => ?_)
  obtain ⟨metadata, spent⟩ := metadata
  have h : metadata = listed.mapError .api := h
  subst h
  cases hlisted : listed with
  | error error => rfl
  | ok metadata =>
    exact (Fetch.meets_mayAnswer hl hcrowd hs hd).mono id fun result _ _ hr =>
      hlisted ▸ agrees_of_mayAnswer hl hp volumeId hlisted hr

/-- A best-effort listing of which no load crashes and whose loads do not depend on each other
answers in every order of the moves, and as a program, what loading the shares one by one does; with
enough patience the program does answer. -/
theorem listing_agrees [Crowded τ] {config : ListerConfig} (volumeId : Option String) {server : τ}
    (hp : config.policy = .bestEffort) (hd : config.deadline = none) (hs : J server)
    (hcrowd : ∀ crowd server, J server → J (Crowded.setCrowd crowd server))
    (hm : (service (.listShares all)).Meets (.standing J) False (fun reply _ => reply = listed) ())
    (hl : ∀ id, Loads J False (fun id result => result = answer id) id
      (session.share service id)) :
    (session.listEach service volumeId all).Meets (.standing J) False
      (fun each _ => each = eachOf listed volumeId answer) () ∧
    (∀ metadata, listed = .ok metadata →
      Fetch.Ends (session.share service) J config (Session.wantedIds volumeId metadata)
        (Agrees (eachOf listed volumeId answer))) ∧
    (session.listSharesWith service config none volumeId all).Meets (.standing J) True
      (fun result _ => Agrees (eachOf listed volumeId answer) result) () ∧
    Activity.Settles J False (Agrees (eachOf listed volumeId answer)) fun patience =>
      session.listSharesWith service config none volumeId all patience :=
  ⟨meets_listEach hm hl volumeId,
    fun _ hlisted => Fetch.ends_of_bestEffort hl hs hp fun _ h =>
      agrees_of_mayAnswer hl hp volumeId hlisted h,
    meets_listSharesWith_agrees hp hd hs hcrowd hm hl volumeId,
    (settles_listSharesWith hs hcrowd hm hl volumeId).answers fun _ =>
      meets_listSharesWith_agrees hp hd hs hcrowd hm hl volumeId⟩

end

namespace Partly

/-- A server with three shares of which the first cannot be loaded. -/
def reply : (request : Request) → request.Reply
  | .listShares _ => .ok (["share-2", "share-3", "share-5"].map fun shareId =>
      { Ring.share.record.metadata with shareId })
  | .getShare shareId => if shareId = "share-2" then .error .unauthorized else .ok Ring.share.record
  | .getLink shareId _ =>
    .ok (Ring.sealed "link-4" none (if shareId = "share-3" then "Root" else "Later"))
  | _ => .error .unauthorized

def service : Service Unit := fun request => .done (reply request)

theorem gives : service.Gives (fun _ => True) False (.fixed reply) := fun _ _ => rfl

/-- The shares that load, with these roots. -/
structure Opens (first second : OpenShare) : Prop where
  loads_first : Ring.share.session.shareBy reply "share-3" = .ok first
  loads_second : Ring.share.session.shareBy reply "share-5" = .ok second
  first_name : first.arena.root.name = "Root"
  second_name : second.arena.root.name = "Later"

theorem exists_opens : ∃ first second, Opens first second := by
  have hfit : Plan.FitName "Root" ∧ Plan.FitName "Later" := by
    simp only [Plan.FitName, Aead.Fits]
    decide
  obtain ⟨root, hr⟩ := Ring.exists_opens "link-4" none hfit.1 none
  obtain ⟨later, hl⟩ := Ring.exists_opens "link-4" none hfit.2 none
  exact ⟨⟨Ring.share, .ofRoot root⟩, ⟨Ring.share, .ofRoot later⟩, Ring.shareBy_eq hr rfl rfl,
    Ring.shareBy_eq hl rfl rfl, hr.name_eq, hl.name_eq⟩

variable {first second : OpenShare}

/-- What loading the shares one by one results in. -/
theorem Opens.results (h : Opens first second) :
    ["share-2", "share-3", "share-5"].map (Ring.share.session.shareBy reply) =
      [.error (.api .unauthorized), .ok first, .ok second] := by
  rw [List.map_cons, List.map_cons, List.map_singleton, h.loads_first, h.loads_second]
  rfl

/-- The two shares in the order of the request, and the failure of the third. -/
def Lists (first second : OpenShare) (answer : Except DriveError ShareListing) : Prop :=
  ∃ listing, answer = .ok listing ∧ listing.inRequestOrder = [first, second] ∧
    listing.failures = [("share-2", .api .unauthorized)]

theorem Opens.lists (h : Opens first second) {answer : Except DriveError ShareListing}
    (ha : Agrees (eachOf (reply (.listShares false)) none (Ring.share.session.shareBy reply))
      answer) : Lists first second answer := by
  have heach : eachOf (reply (.listShares false)) none (Ring.share.session.shareBy reply) =
      .ok (["share-2", "share-3", "share-5"],
        [.error (.api .unauthorized), .ok first, .ok second]) := by
    rw [← h.results]
    rfl
  rw [heach] at ha
  cases answer with
  | error error => exact ha.elim
  | ok listing => exact ⟨listing, rfl, ha.values, List.perm_singleton.mp ha.failures⟩

end Partly

/-- In whatever order three shares load and one of them fails, the listing has the others in the
order of the request and that failure; so has the program's, with enough patience. -/
theorem listing_agrees_partly : ∃ first second : OpenShare,
    first.arena.root.name = "Root" ∧ second.arena.root.name = "Later" ∧
    Fetch.Ends (Ring.share.session.share Partly.service) (fun _ => True) {}
      ["share-2", "share-3", "share-5"] (Partly.Lists first second) ∧
    (Activity.Settles (fun _ => True) False (Partly.Lists first second) fun patience =>
      Ring.share.session.listSharesWith Partly.service {} none none false patience) := by
  obtain ⟨first, second, h⟩ := Partly.exists_opens
  have hpolicy : ListerConfig.policy {} = .bestEffort := rfl
  have hm : (Partly.service (.listShares false)).Meets (.standing fun _ => True) False
      (fun reply _ => reply = Partly.reply (.listShares false)) () :=
    Partly.gives (.listShares false) rfl
  obtain ⟨-, hends, -, hsettles⟩ := @listing_agrees Unit Partly.service Ring.share.session
    (fun _ => True) false _ _ _ {} none () hpolicy rfl trivial (fun _ _ h => h) hm
    (meets_share_fixed Ring.share.session Partly.gives)
  exact ⟨first, second, h.first_name, h.second_name, (hends _ rfl).mono fun _ => h.lists,
    hsettles.mono id fun _ => h.lists⟩

end SealedDrive
