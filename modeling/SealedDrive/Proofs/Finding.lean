import SealedDrive.Proofs.Schedules
import SealedDrive.Proofs.Segments
import SealedDrive.Proofs.Shown
import SealedDrive.Proofs.Strict

/-!
Finding a path among the shares of an account. Of the shares that load, the first in listing order
whose root has the first name of the path is the one, whatever became of the others. When no root
has the name, it is known to be missing only if every share loaded; otherwise a share that failed
may have it, and its error is the answer. A listing that the first failure ends finds nothing once a
share fails.
-/

namespace SealedDrive

section

variable {τ : Type} {reply : (request : Request) → request.Reply} {session : Session}
  {crashes : Prop} {name : String} {rest : List String} {all : Bool}

namespace Session

/-! ## What is found -/

/-- What loading a share comes to: what the replies make of it, or else it is lost with its
worker. -/
def ComesTo (session : Session) (reply : (request : Request) → request.Reply) (crashes : Prop) :
    String → Except DriveError OpenShare → Prop :=
  Fetch.OrLost crashes fun id result => result = session.shareBy reply id

/-- Finding names among shares, given what loading each of them comes to in listing order. -/
structure Finds (policy : ListPolicy) (reply : (request : Request) → request.Reply) (name : String)
    (rest : List String) (all : Bool) (results : List (Except DriveError OpenShare))
    (answer : Except DriveError (OpenShare × Link)) : Prop where
  /-- The first share of that name is walked, whatever other shares failed. -/
  found : policy = .bestEffort ∨ errorsOf results = [] → ∀ opened,
    (loadedOf results).find? (·.arena.root.name = name) = some opened →
    answer = opened.walkBy reply name rest all
  /-- No share has the name, and none failed. -/
  missing : errorsOf results = [] → (∀ opened ∈ loadedOf results, opened.arena.root.name ≠ name) →
    answer = .error (.fileNotFound name)
  /-- No share that loaded has the name. -/
  failed : errorsOf results ≠ [] → (∀ opened ∈ loadedOf results, opened.arena.root.name ≠ name) →
    ∃ error ∈ errorsOf results, answer = .error error ∧ ∀ path, error ≠ .fileNotFound path
  /-- The first failure ends it. -/
  ended : policy = .failFast → errorsOf results ≠ [] →
    ∃ error ∈ errorsOf results, answer = .error error ∧ ∀ path, error ≠ .fileNotFound path

/-! ## Errors of loads -/

theorem isOfLoad_of_shareBy {shareId : String} {error : DriveError}
    (h : session.shareBy reply shareId = .error error) : error.isOfLoad = true := by
  have hl : (Share.load session shareId : ExceptT DriveError (Dialogue Unit) OpenShare).run.Meets
      (.standing fun _ => True) .any (fun r _ => ∀ error, r = .error error →
        error.isOfLoad = true) () := by
    refine (Share.meets_load trivial fun _ => trivial).mono fun answer _ _ ho error he => ?_
    subst he
    exact ho
  obtain ⟨_, -, -, hpost⟩ := hl.answerBy () trivial fun _ _ => trivial
  exact hpost error h

theorem ComesTo.loaded {shareId : String} {opened : OpenShare}
    (h : session.ComesTo reply crashes shareId (.ok opened)) : opened.Loaded session := by
  rcases h with h | ⟨-, _, h⟩
  · exact loaded_of_shareBy h.symm
  · cases h

/-- A share that cannot be loaded is not one that is not there. -/
theorem ComesTo.ne_fileNotFound {shareId : String} {error : DriveError}
    (h : session.ComesTo reply crashes shareId (.error error)) (path : String) :
    error ≠ .fileNotFound path := by
  rintro rfl
  rcases h with h | ⟨-, _, h⟩
  · have hl := isOfLoad_of_shareBy h.symm
    cases hl
  · cases h

theorem ne_fileNotFound_of_mem {ids : List String} {results : List (Except DriveError OpenShare)}
    (h : List.Forall₂ (session.ComesTo reply crashes) ids results) {error : DriveError}
    (hm : error ∈ errorsOf results) (path : String) : error ≠ .fileNotFound path := by
  obtain ⟨id, -, hc⟩ := exists_of_forall₂_right h (mem_errorsOf.mp hm)
  exact hc.ne_fileNotFound path

/-! ## Picking the share -/

/-- What picking the share by name allows is what is found, unless a failure has to end it. -/
theorem finds_of_allows {policy : ListPolicy} {results : List (Except DriveError OpenShare)}
    {answer : Except DriveError (OpenShare × Link)}
    (hended : policy = .failFast → errorsOf results = [])
    (herrors : ∀ error ∈ errorsOf results, ∀ path, error ≠ .fileNotFound path)
    (h : (pickBy reply name rest all results).Allows answer) :
    Finds policy reply name rest all results answer := by
  have hnone : (∀ opened ∈ loadedOf results, opened.arena.root.name ≠ name) →
      (loadedOf results).find? (·.arena.root.name = name) = none := by
    intro hall
    exact List.find?_eq_none.mpr fun opened hm => by simpa using hall opened hm
  unfold pickBy at h
  refine ⟨fun _ opened hfind => ?_, fun hnil hall => ?_, fun hne hall => ?_,
    fun hp hne => absurd (hended hp) hne⟩
  · rw [hfind] at h
    exact h
  · rw [hnone hall, hnil] at h
    exact h
  · rw [hnone hall] at h
    cases he : errorsOf results with
    | nil => exact absurd he hne
    | cons error errors =>
      rw [he] at h
      obtain ⟨error', hm, ha⟩ := h
      exact ⟨error', hm, ha, herrors error' (he ▸ hm)⟩

/-- With a failure that ended the listing, it is the answer. -/
theorem finds_of_ended {results : List (Except DriveError OpenShare)} {error : DriveError}
    (hm : error ∈ errorsOf results) (herror : ∀ path, error ≠ .fileNotFound path) :
    Finds .failFast reply name rest all results (.error error) where
  found h := by
    rcases h with h | h
    · cases h
    · rw [h] at hm
      cases hm
  missing h := by
    rw [h] at hm
    cases hm
  failed _ _ := ⟨error, hm, rfl, herror⟩
  ended _ _ := ⟨error, hm, rfl, herror⟩

/-- One of the shares fails like this, the others come to what the replies make of them. -/
theorem exists_results_of_failed {ids : List String} {shareId : String} {error : DriveError}
    (hid : shareId ∈ ids) (h : session.ComesTo reply crashes shareId (.error error)) :
    ∃ results, List.Forall₂ (session.ComesTo reply crashes) ids results ∧
      error ∈ errorsOf results := by
  let result : String → Except DriveError OpenShare := fun id =>
    if id = shareId then .error error else session.shareBy reply id
  refine ⟨ids.map result, ?_, mem_errorsOf.mpr (List.mem_map.mpr ⟨shareId, hid, if_pos rfl⟩)⟩
  refine List.forall₂_map_right_iff.mpr (List.forall₂_same.mpr fun id _ => ?_)
  by_cases hsame : id = shareId
  · subst hsame
    simpa only [result, if_true] using h
  · simp only [result, if_neg hsame]
    exact .inl rfl

end Session

variable {service : Service τ} {J : τ → Prop}

open Session in
/-- From every answer of the listing the names are found. -/
theorem meets_pick_told (hf : service.Gives J crashes (.fixed reply)) {policy : ListPolicy}
    {ids : List String} {listing : Except DriveError ShareListing}
    (h : Fetch.Told policy (session.ComesTo reply crashes) ids listing) :
    (Session.pick service name rest all (listing.map Gathered.parts)).Meets (.standing J) crashes
      (fun answer _ => ∃ results, List.Forall₂ (session.ComesTo reply crashes) ids results ∧
        Finds policy reply name rest all results answer) () := by
  cases h with
  | @whole g results hresults ht hstrict =>
    have hlength := hresults.length_eq
    have hloaded : ∀ opened, .ok opened ∈ results → opened.Loaded session := fun opened hm => by
      obtain ⟨id, -, hc⟩ := exists_of_forall₂_right hresults hm
      exact hc.loaded
    refine (meets_pick_tells hf name rest ht hlength hloaded).mono id fun answer _ _ ha =>
      ⟨results, hresults, finds_of_allows (fun hp => ?_)
        (fun _ hm => ne_fileNotFound_of_mem hresults hm) ha⟩
    have herrors := ht.errors hlength
    rw [hstrict hp] at herrors
    exact List.nil_perm.mp herrors
  | failed hp hid hq =>
    subst hp
    obtain ⟨results, hresults, hm⟩ := exists_results_of_failed hid hq
    exact ⟨results, hresults, finds_of_ended hm hq.ne_fileNotFound⟩

/-- What a listing that is not cancelled answers, unless its time is up. -/
theorem meets_listShares_told_or_timedOut [Crowded τ] {server : τ}
    (hf : service.Gives J crashes (.fixed reply)) (hs : J server)
    (hcrowd : ∀ crowd server, J server → J (Crowded.setCrowd crowd server))
    {metadata : List ShareMetadata} (hm : reply (.listShares all) = .ok metadata)
    {patience : Nat} :
    (session.listShares service none all patience).Meets (.standing J) True
      (fun listing _ => Fetch.Told session.lister.policy (session.ComesTo reply crashes)
          (metadata.map (·.shareId)) listing ∨ TimedOut session.lister.deadline listing) () := by
  have hl := meets_share_fixed session hf
  have hwanted : Session.wantedIds none metadata = metadata.map (·.shareId) := by
    simp [Session.wantedIds]
  have hmetadata := meets_listMetadata (hf (.listShares all) rfl)
  refine .bind ((hmetadata.timed 0).mono (fun _ => trivial) fun listed _ _ h => ?_)
  obtain ⟨listed, spent⟩ := listed
  have h : listed = .ok metadata := by
    have h : listed = (reply (.listShares all)).mapError .api := h
    rw [h, hm]
    rfl
  subst h
  exact hwanted ▸ (Fetch.meets_mayAnswer_or_timedOut hl hcrowd hs).mono id fun listing _ _ ha =>
    ha.imp_left fun ha => ha.told hl

/-- What a listing that is neither cancelled nor out of time answers. -/
theorem meets_listShares_told [Crowded τ] {server : τ} (hf : service.Gives J crashes (.fixed reply))
    (hs : J server) (hcrowd : ∀ crowd server, J server → J (Crowded.setCrowd crowd server))
    (hd : session.lister.deadline = none) {metadata : List ShareMetadata}
    (hm : reply (.listShares all) = .ok metadata) {patience : Nat} :
    (session.listShares service none all patience).Meets (.standing J) True
      (fun listing _ => Fetch.Told session.lister.policy (session.ComesTo reply crashes)
        (metadata.map (·.shareId)) listing) () :=
  (meets_listShares_told_or_timedOut hf hs hcrowd hm).mono id fun _ _ _ h =>
    h.resolve_right (hd ▸ not_timedOut_none)

/-- With enough patience it answers. -/
theorem settles_listShares [Crowded τ] (session : Session) {server : τ}
    (hf : service.Gives J crashes (.fixed reply)) (hs : J server)
    (hcrowd : ∀ crowd server, J server → J (Crowded.setCrowd crowd server)) :
    Activity.Settles J crashes (fun _ => True) fun patience =>
      session.listShares service none all patience :=
  settles_listSharesWith hs hcrowd (hf (.listShares all) rfl) (meets_share_fixed session hf) none

/-- When the replies are fixed, a path that has no names or an empty one is refused, and for any
other path, in whatever order the shares load and however long they take, the answer is what is
found among them. With enough patience there is an answer, unless the server crashes. -/
theorem resolve_finds [Crowded τ] {server : τ} (hf : service.Gives J crashes (.fixed reply))
    (hs : J server) (hcrowd : ∀ crowd server, J server → J (Crowded.setCrowd crowd server))
    (hd : session.lister.deadline = none) (ht : session.timeout = none) (path : String)
    (all : Bool) :
    ((∀ name rest, Path.segments path ≠ .ok (name :: rest)) →
      session.resolve service path all = .done (.error (.invalidPath path))) ∧
    ∀ name rest metadata, Path.segments path = .ok (name :: rest) →
      reply (.listShares all) = .ok metadata →
      (Fetch.Ends (session.share service) J session.lister (metadata.map (·.shareId))
        fun listing => (Session.pick service name rest all (listing.map Gathered.parts)).Meets
          (.standing J) crashes (fun answer _ => ∃ results,
            List.Forall₂ (session.ComesTo reply crashes) (metadata.map (·.shareId)) results ∧
            Session.Finds session.lister.policy reply name rest all results answer) ()) ∧
      (session.resolve service path all).Meets (.standing J) True (fun answer _ => ∃ results,
        List.Forall₂ (session.ComesTo reply crashes) (metadata.map (·.shareId)) results ∧
        Session.Finds session.lister.policy reply name rest all results answer) () ∧
      Activity.Settles J crashes (fun answer => ∃ results,
          List.Forall₂ (session.ComesTo reply crashes) (metadata.map (·.shareId)) results ∧
          Session.Finds session.lister.policy reply name rest all results answer)
        fun patience => session.resolve service path all patience := by
  refine ⟨fun hnone => ?_, fun name rest metadata hsegments hm => ⟨?_, ?_, ?_⟩⟩
  · unfold Session.resolve
    cases hsegments : Path.segments path with
    | error error => rw [Path.eq_of_segments_error hsegments]
    | ok names =>
      cases names with
      | nil => rfl
      | cons name rest => exact absurd hsegments (hnone name rest)
  · exact Fetch.ends_of_loads (meets_share_fixed session hf) hs fun listing h =>
      meets_pick_told hf h
  · unfold Session.resolve
    simp only [hsegments, Session.bounded, ht, Session.resolveNames_eq]
    refine .bind (.map ((meets_listShares_told hf hs hcrowd hd hm).mono id fun listing _ _ h => ?_))
    exact (meets_pick_told hf h).mono (fun _ => trivial) fun _ _ _ h => h
  · unfold Session.resolve
    simp only [hsegments, Session.bounded, ht]
    have hlisting := (settles_listShares session hf hs hcrowd).answers fun _ =>
      meets_listShares_told hf hs hcrowd hd hm
    exact Session.settles_resolveNames (hlisting.mono id fun _ h => meets_pick_told hf h)

end

namespace Partly

variable {first second : OpenShare} {answer : Except DriveError (OpenShare × Link)}

/-- What is found under a name in the shares of the server. -/
def Found (name : String) (answer : Except DriveError (OpenShare × Link)) : Prop :=
  ∃ results, List.Forall₂ (Ring.share.session.ComesTo reply False)
      ["share-2", "share-3", "share-5"] results ∧
    Session.Finds .bestEffort reply name [] false results answer

theorem Opens.found (h : Opens first second) (ha : Found "Root" answer) :
    answer = .ok (first, first.arena.rootLink) := by
  obtain ⟨results, hresults, hfound⟩ := ha
  rw [Fetch.eq_of_orLost hresults, h.results] at hfound
  refine hfound.found (.inl rfl) first ?_
  simp [Session.loadedOf, Except.toOption, h.first_name]

theorem Opens.failed (h : Opens first second) (ha : Found "Else" answer) :
    answer = .error (.api .unauthorized) := by
  obtain ⟨results, hresults, hfound⟩ := ha
  rw [Fetch.eq_of_orLost hresults, h.results] at hfound
  have hother : ∀ opened ∈ Session.loadedOf
      [.error (.api .unauthorized), .ok first, .ok second],
      opened.arena.root.name ≠ "Else" := by
    simp [Session.loadedOf, Except.toOption, h.first_name, h.second_name]
  obtain ⟨error, hm, herror, -⟩ := hfound.failed (List.cons_ne_nil _ _) hother
  rw [herror, List.mem_singleton.mp hm]

end Partly

/-- In whatever order three shares load, one is found under its name although another fails, and
under a name that none has the failure is found; so answers the program with enough patience. -/
theorem resolve_finds_partly : ∃ opened : OpenShare, opened.arena.root.name = "Root" ∧
    (Fetch.Ends (Ring.share.session.share Partly.service) (fun _ => True) Ring.share.session.lister
      ["share-2", "share-3", "share-5"] fun listing =>
        (Session.pick Partly.service "Root" [] false (listing.map Gathered.parts)).Meets
          (.standing fun _ => True) False
          (fun answer _ => answer = .ok (opened, opened.arena.rootLink)) ()) ∧
    (Activity.Settles (fun _ => True) False (· = .ok (opened, opened.arena.rootLink))
      fun patience => Ring.share.session.resolve Partly.service "/Root/" false patience) ∧
    (Activity.Settles (fun _ => True) False (· = .error (.api .unauthorized))
      fun patience => Ring.share.session.resolve Partly.service "Else" false patience) ∧
    Ring.share.session.resolve Partly.service "Root//A" false =
      .done (.error (.invalidPath "Root//A")) := by
  obtain ⟨first, second, h⟩ := Partly.exists_opens
  have hfinds := @resolve_finds Unit Partly.reply Ring.share.session False Partly.service
    (fun _ => True) _ () Partly.gives trivial (fun _ _ h => h) rfl rfl
  have hroot : Path.segments "/Root/" = .ok ["Root"] := by rfl
  have helse : Path.segments "Else" = .ok ["Else"] := by rfl
  obtain ⟨hends, -, hsettles⟩ := (hfinds "/Root/" false).2 _ _ _ hroot rfl
  obtain ⟨-, -, hfails⟩ := (hfinds "Else" false).2 _ _ _ helse rfl
  refine ⟨first, h.first_name, ?_, ?_, ?_, ?_⟩
  · exact hends.mono fun listing hpick => hpick.mono id fun answer _ _ ha => h.found ha
  · exact hsettles.mono id fun answer ha => h.found ha
  · exact hfails.mono id fun answer ha => h.failed ha
  · have hsegments : Path.segments "Root//A" = .error (.invalidPath "Root//A") := by rfl
    refine (hfinds "Root//A" false).1 fun name rest h => ?_
    rw [hsegments] at h
    cases h

end SealedDrive
