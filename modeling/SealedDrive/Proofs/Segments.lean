import Mathlib.Data.List.Basic
import SealedDrive.Drive.Path

/-!
The names of a path. A name is not empty and holds no slash, and names that are joined come apart
as they were. Slashes may be added at both ends and nowhere else, so a path spells one list of names
or is refused.
-/

namespace SealedDrive

/-- Cutting at the slashes is cutting at a letter like any other. -/
theorem Text.splitSlash_eq_splitOn (chars : List Char) :
    splitSlash chars = chars.splitOn '/' := by
  induction chars with
  | nil => rfl
  | cons c rest ih =>
    unfold List.splitOn at ih ⊢
    rw [splitSlash, ih, List.splitOnP_cons_eq_if_modifyHead]
    by_cases hc : c = '/'
    · rw [if_pos hc, if_pos (beq_iff_eq.mpr hc)]
    · rw [if_neg hc, if_neg (mt beq_iff_eq.mp hc)]
      obtain ⟨first, more, hsplit⟩ :=
        List.exists_cons_of_ne_nil (List.splitOnP_ne_nil (· == '/') rest)
      rw [hsplit]
      rfl

namespace Path

/-- What a link may be called so that a path can name it. -/
structure IsName (name : String) : Prop where
  ne_empty : name ≠ ""
  noSlash : '/' ∉ name.toList

theorem IsName.toList_ne_nil {name : String} (h : IsName name) : name.toList ≠ [] :=
  fun hnil => h.ne_empty (String.toList_eq_nil_iff.mp hnil)

theorem join_toList (names : List String) :
    (join names).toList = ['/'].intercalate (names.map String.toList) :=
  String.toList_intercalate

theorem join_cons {first : String} {names : List String} (h : names ≠ []) :
    join (first :: names) = first ++ "/" ++ join names := by
  obtain ⟨next, rest, rfl⟩ := List.exists_cons_of_ne_nil h
  exact String.intercalate_cons_cons

theorem join_append_singleton {names : List String} (h : names ≠ []) (last : String) :
    join (names ++ [last]) = join names ++ "/" ++ last := by
  rw [join, join, String.intercalate_append_of_ne_nil h (by simp), String.intercalate_singleton]

theorem join_singleton (name : String) : join [name] = name := String.intercalate_singleton

/-! ## Slashes at the ends -/

theorem dropSlashes_eq_self {chars : List Char} (h : chars.head? ≠ some '/') :
    chars.dropWhile (· = '/') = chars := by
  cases chars with
  | nil => rfl
  | cons c rest =>
    refine List.dropWhile_cons_of_neg fun hc => h ?_
    rw [List.head?_cons, of_decide_eq_true hc]

theorem trim_eq_self {chars : List Char} (hhead : chars.head? ≠ some '/')
    (hlast : chars.getLast? ≠ some '/') : trim chars = chars := by
  rw [trim, dropSlashes_eq_self hhead, dropSlashes_eq_self, List.reverse_reverse]
  rwa [List.head?_reverse]

/-- Names that are joined begin and end with letters of names. -/
theorem join_ends {names : List String} (hne : names ≠ []) (h : ∀ name ∈ names, IsName name) :
    (join names).toList ≠ [] ∧ (join names).toList.head? ≠ some '/' ∧
      (join names).toList.getLast? ≠ some '/' := by
  induction names with
  | nil => exact absurd rfl hne
  | cons first rest ih =>
    obtain ⟨hfirst, hrest⟩ := List.forall_mem_cons.mp h
    have hhead : first.toList.head? ≠ some '/' :=
      fun hc => hfirst.noSlash (List.mem_of_mem_head? hc)
    by_cases hnil : rest = []
    · rw [hnil, join_singleton]
      exact ⟨hfirst.toList_ne_nil, hhead, fun hc => hfirst.noSlash (List.mem_of_getLast? hc)⟩
    · obtain ⟨hne, -, hlast⟩ := ih hnil hrest
      rw [join_cons hnil, String.toList_append, List.getLast?_append_of_ne_nil _ hne,
        String.toList_append, List.append_assoc, List.head?_append_of_ne_nil _ hfirst.toList_ne_nil]
      exact ⟨List.append_ne_nil_of_left_ne_nil hfirst.toList_ne_nil _, hhead, hlast⟩

/-! ## Coming apart -/

/-- Names that are joined come apart again. -/
theorem segments_join {names : List String} (h : ∀ name ∈ names, IsName name) :
    segments (join names) = .ok names := by
  by_cases hnil : names = []
  · rw [hnil]
    rfl
  obtain ⟨hne, hhead, hlast⟩ := join_ends hnil h
  have hsplit : Text.splitSlash (join names).toList = names.map String.toList := by
    rw [Text.splitSlash_eq_splitOn, join_toList]
    refine List.splitOn_intercalate '/' ?_ (by simpa using hnil)
    intro chars hchars
    obtain ⟨name, hname, rfl⟩ := List.mem_map.mp hchars
    exact (h name hname).noSlash
  have hfull : ¬ (names.map String.toList).any (·.isEmpty) = true := by
    simp only [List.any_map, List.any_eq_true, Function.comp, List.isEmpty_iff]
    rintro ⟨name, hname, he⟩
    exact (h name hname).toList_ne_nil he
  unfold segments
  simp only [trim_eq_self hhead hlast, hsplit]
  rw [if_neg (by simpa using hne), if_neg hfull, List.map_map]
  simp only [Function.comp_def, String.ofList_toList, List.map_id']

/-- A name with a slash in it would not come back. -/
example : segments (join ["Papers/2024", "draft"]) = .ok ["Papers", "2024", "draft"] := by rfl

/-! ## Every path -/

/-- Names with single slashes between them, and any number of slashes at both ends. -/
structure Spells (path : String) (names : List String) : Prop where
  isName : ∀ name ∈ names, IsName name
  slashes : ∃ before after, path.toList =
    List.replicate before '/' ++ (join names).toList ++ List.replicate after '/'

theorem dropSlashes_append (before : Nat) (chars : List Char) :
    (List.replicate before '/' ++ chars).dropWhile (· = '/') = chars.dropWhile (· = '/') :=
  List.dropWhile_append_of_pos fun _ h => decide_eq_true (List.eq_of_mem_replicate h)

theorem exists_dropSlashes (chars : List Char) :
    ∃ count, chars = List.replicate count '/' ++ chars.dropWhile (· = '/') := by
  have hslashes : ∀ c ∈ chars.takeWhile (· = '/'), c = '/' :=
    fun c h => of_decide_eq_true (List.all_eq_true.mp List.all_takeWhile c h)
  refine ⟨(chars.takeWhile (· = '/')).length, ?_⟩
  rw [← List.eq_replicate_of_mem hslashes, List.takeWhile_append_dropWhile]

/-- Only slashes at the ends are taken off. -/
theorem exists_trim (chars : List Char) : ∃ before after,
    chars = List.replicate before '/' ++ trim chars ++ List.replicate after '/' := by
  obtain ⟨before, hbefore⟩ := exists_dropSlashes chars
  obtain ⟨after, hafter⟩ := exists_dropSlashes (chars.dropWhile (· = '/')).reverse
  have hrest : chars.dropWhile (· = '/') = trim chars ++ List.replicate after '/' := by
    have h := congrArg List.reverse hafter
    rwa [List.reverse_reverse, List.reverse_append, List.reverse_replicate] at h
  exact ⟨before, after, by rw [List.append_assoc, ← hrest, ← hbefore]⟩

/-- And all of them are, up to letters that neither begin nor end with one. -/
theorem trim_padded {chars : List Char} (hhead : chars.head? ≠ some '/')
    (hlast : chars.getLast? ≠ some '/') (before after : Nat) :
    trim (List.replicate before '/' ++ chars ++ List.replicate after '/') = chars := by
  rw [trim, List.append_assoc, dropSlashes_append]
  cases chars with
  | nil => simp
  | cons c rest =>
    have hkept : (c :: rest ++ List.replicate after '/').dropWhile (· = '/') =
        c :: rest ++ List.replicate after '/' := dropSlashes_eq_self hhead
    rw [hkept, List.reverse_append, List.reverse_replicate, dropSlashes_append,
      dropSlashes_eq_self (by rwa [List.head?_reverse]), List.reverse_reverse]

theorem Spells.trim_eq {path : String} {names : List String} (h : Spells path names) :
    trim path.toList = (join names).toList := by
  obtain ⟨before, after, hpath⟩ := h.slashes
  rw [hpath]
  by_cases hnil : names = []
  · have hempty : (join names).toList = [] := by rw [hnil]; rfl
    rw [hempty]
    exact trim_padded (by simp) (by simp) before after
  · obtain ⟨-, hhead, hlast⟩ := join_ends hnil h.isName
    exact trim_padded hhead hlast before after

theorem spells_join {names : List String} (h : ∀ name ∈ names, IsName name) :
    Spells (join names) names :=
  ⟨h, 0, 0, by simp⟩

/-- A path that spells names is cut as the joined names are. -/
theorem segments_of_spells {path : String} {names : List String} (h : Spells path names) :
    segments path = .ok names := by
  have hjoined := segments_join h.isName
  have htrim := h.trim_eq.trans (spells_join h.isName).trim_eq.symm
  unfold segments at hjoined ⊢
  dsimp only at hjoined ⊢
  rw [htrim]
  split at hjoined
  · next hempty =>
    rw [if_pos hempty]
    exact hjoined
  next hempty =>
  split at hjoined
  · cases hjoined
  next hfull =>
  rw [if_neg hempty, if_neg hfull]
  exact hjoined

theorem slash_notMem_splitSlash {chars part : List Char} (h : part ∈ Text.splitSlash chars) :
    '/' ∉ part := by
  induction chars generalizing part with
  | nil =>
    rw [List.mem_singleton.mp h]
    exact List.not_mem_nil
  | cons c rest ih =>
    rw [Text.splitSlash] at h
    split at h
    · rcases List.mem_cons.mp h with rfl | h
      · exact List.not_mem_nil
      · exact ih h
    next hc =>
    cases hsplit : Text.splitSlash rest with
    | nil =>
      rw [hsplit] at h
      rw [List.mem_singleton.mp h, List.mem_singleton]
      exact Ne.symm hc
    | cons first more =>
      rw [hsplit] at h ih
      rcases List.mem_cons.mp h with rfl | h
      · rw [List.mem_cons, not_or]
        exact ⟨Ne.symm hc, ih List.mem_cons_self⟩
      · exact ih (List.mem_cons_of_mem _ h)

/-- Whatever a path is cut into, it spells. -/
theorem spells_of_segments {path : String} {names : List String} (h : segments path = .ok names) :
    Spells path names := by
  obtain ⟨before, after, hpath⟩ := exists_trim path.toList
  unfold segments at h
  dsimp only at h
  split at h
  · next hempty =>
    cases h
    rw [List.isEmpty_iff.mp hempty] at hpath
    exact ⟨nofun, before, after, hpath⟩
  split at h
  · cases h
  next hfull =>
  cases h
  refine ⟨?_, before, after, ?_⟩
  · intro name hname
    obtain ⟨part, hpart, rfl⟩ := List.mem_map.mp hname
    refine ⟨fun he => hfull ?_, ?_⟩
    · have hnil : part = [] := by simpa using congrArg String.toList he
      exact List.any_eq_true.mpr ⟨part, hpart, by rw [hnil]; rfl⟩
    · rw [String.toList_ofList]
      exact slash_notMem_splitSlash hpart
  · have hjoined : (join ((Text.splitSlash (trim path.toList)).map String.ofList)).toList =
        trim path.toList := by
      rw [join_toList, List.map_map, Text.splitSlash_eq_splitOn]
      simp only [Function.comp_def, String.toList_ofList, List.map_id', List.intercalate_splitOn]
    rw [hjoined]
    exact hpath

theorem eq_of_segments_error {path : String} {error : DriveError}
    (h : segments path = .error error) : error = .invalidPath path := by
  unfold segments at h
  dsimp only at h
  split at h
  · cases h
  split at h
  · cases h
    rfl
  · cases h

/-- A path is cut into the names that it spells, of which there is one list at most; a path that
spells none is refused as it was given. -/
theorem segments_eq_spelled (path : String) :
    (∀ names, segments path = .ok names ↔ Spells path names) ∧
    (∀ names names', Spells path names → Spells path names' → names = names') ∧
    ∀ error, segments path = .error error ↔
      error = .invalidPath path ∧ ∀ names, ¬Spells path names := by
  refine ⟨fun names => ⟨spells_of_segments, segments_of_spells⟩, fun names names' h h' => ?_,
    fun error => ⟨fun h => ⟨eq_of_segments_error h, fun names hnames => ?_⟩, fun h => ?_⟩⟩
  · have hsame := (segments_of_spells h).symm.trans (segments_of_spells h')
    exact Except.ok.inj hsame
  · rw [segments_of_spells hnames] at h
    cases h
  · obtain ⟨rfl, hnone⟩ := h
    cases hsegments : segments path with
    | ok names => exact absurd (spells_of_segments hsegments) (hnone names)
    | error error => rw [eq_of_segments_error hsegments]

/-- Slashes at the ends do not count, whatever the letters; one too many inside does. -/
theorem segments_eq_spelled_papers :
    Spells "//Papers/día/" ["Papers", "día"] ∧
    (∀ names, Spells "//Papers/día/" names → ["Papers", "día"] = names) ∧
    ∀ names, ¬Spells "/Papers//día" names := by
  obtain ⟨hcut, hunique, -⟩ := segments_eq_spelled "//Papers/día/"
  obtain ⟨-, -, hrefused⟩ := segments_eq_spelled "/Papers//día"
  have hspells : Spells "//Papers/día/" ["Papers", "día"] := (hcut _).mp rfl
  exact ⟨hspells, fun names => hunique _ names hspells, ((hrefused _).mp rfl).2⟩

end Path
end SealedDrive
