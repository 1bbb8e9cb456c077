import SealedDrive.Config.File
import SealedDrive.Proofs.Keeping
import SealedDrive.Proofs.Sheets

/-!
Settings that were saved are loaded again, whatever their texts hold, and a setting that is left out
of the file has its default. Only numbers have bounds: what no TOML integer can hold is not saved,
and the file that was there is kept.
-/

namespace SealedDrive

namespace Toml

/-! ## Looking up -/

/-- What is found under a name when some names are left out. -/
theorem lookup_leftOf {α β : Type} (gone : String → Bool) (f : String → α → β)
    (entries : List (String × α)) (name : String) :
    ((leftOf gone entries).map fun entry => (entry.1, f entry.1 entry.2)).lookup name =
      if gone name then none else (entries.lookup name).map (f name) := by
  rw [lookup_map_value, leftOf, lookup_filter_key fun name => !gone name]
  cases gone name <;> rfl

theorem lookup_plainOf (gone : String → Bool) (entries : Entries) (name : String) :
    (plainOf (leftOf gone entries)).lookup name =
      if gone name then none else (entries.lookup name).map Scalar.toToml :=
  lookup_leftOf gone (fun _ => Scalar.toToml) entries name

/-- The values of a sheet without what is left out are found under their names. -/
theorem Sheet.lookup_without (sheet : Sheet) (gone : List String → Bool) (name : String) :
    (sheet.without gone).toTable.lookup name =
      if gone [name] then none
      else ((sheet.entries.lookup name).map Scalar.toToml).or
        ((sheet.sections.lookup name).map fun entries =>
          .table (plainOf (leftOf (fun entry => gone [name, entry]) entries))) := by
  have hentries := lookup_plainOf (fun name => gone [name]) sheet.entries name
  have hsections := lookup_leftOf (fun name => gone [name])
    (fun part entries => Toml.table (plainOf (leftOf (fun entry => gone [part, entry]) entries)))
    sheet.sections name
  have htable : (sheet.without gone).toTable =
      plainOf (leftOf (fun name => gone [name]) sheet.entries) ++
        (sheet.without gone).sections.map fun part => (part.1, .table (plainOf part.2)) := rfl
  rw [htable, List.lookup_append, hentries, without, List.map_map]
  refine (congrArg (Option.or _) hsections).trans ?_
  cases gone [name] <;> rfl

end Toml

/-! ## Settings left out -/

/-- The settings of a listing, with some of them at their defaults. -/
def ListerConfig.without (gone : String → Bool) (config : ListerConfig) : ListerConfig :=
  let default : ListerConfig := {}
  { maxWorkers := if gone "max_workers" then default.maxWorkers else config.maxWorkers
    policy := if gone "policy" then default.policy else config.policy
    deadlineSecs := if gone "deadline_secs" then default.deadlineSecs else config.deadlineSecs }

/-- The settings, with those at some paths at their defaults. -/
def DriveConfig.without (gone : List String → Bool) (config : DriveConfig) : DriveConfig :=
  let default : DriveConfig := {}
  { account := if gone ["account"] then default.account else config.account
    sessionFile := if gone ["session_file"] then default.sessionFile else config.sessionFile
    timeoutSecs := if gone ["timeout_secs"] then default.timeoutSecs else config.timeoutSecs
    lister := if gone ["lister"] then default.lister
      else config.lister.without fun name => gone ["lister", name] }

namespace Toml

/-- A setting that is left out has its default. -/
theorem setting?_left {α : Type} {read? : Toml → Option α} {default value : α} {found : Option Toml}
    (h : setting? read? default found = some value) (gone : Bool) :
    setting? read? default (if gone then none else found) =
      some (if gone then default else value) := by
  cases gone with
  | true => rfl
  | false => exact h

theorem optional?_left {α : Type} {read? : Toml → Option α} {value : Option α} {found : Option Toml}
    (h : optional? read? found = some value) (gone : Bool) :
    optional? read? (if gone then none else found) = some (if gone then none else value) :=
  setting?_left h gone

theorem ofCount?_toNat (n : UInt64) : ofCount? (.integer n.toNat) = some n := by
  simp [ofCount?]

end Toml

theorem ListPolicy.ofName?_name (policy : ListPolicy) : ofName? policy.name = some policy := by
  cases policy <;> rfl

/-- The entries of a listing that are left read as its settings, with defaults for the others. -/
theorem ListerConfig.ofToml?_entries (config : ListerConfig) (gone : String → Bool) :
    ofToml? (.table (Toml.plainOf (Toml.leftOf gone config.entries))) =
      some (config.without gone) := by
  have hworkers : Toml.setting? Toml.ofCount? 10
      ((config.entries.lookup "max_workers").map Toml.Scalar.toToml) = some config.maxWorkers :=
    Toml.ofCount?_toNat config.maxWorkers
  have hpolicy : Toml.setting? ListPolicy.ofToml? .bestEffort
      ((config.entries.lookup "policy").map Toml.Scalar.toToml) = some config.policy :=
    config.policy.ofName?_name
  have hdeadline : Toml.optional? Toml.ofCount?
      ((config.entries.lookup "deadline_secs").map Toml.Scalar.toToml) =
        some config.deadlineSecs := by
    cases h : config.deadlineSecs with
    | none => simp [entries, h, lookup_entry, Toml.optional?, Toml.setting?]
    | some secs =>
      simp [entries, h, lookup_entry, Toml.optional?, Toml.setting?, Toml.Scalar.toToml,
        Toml.ofCount?_toNat]
  simp only [ofToml?, Toml.lookup_plainOf, ofFields?, Toml.setting?_left hworkers,
    Toml.setting?_left hpolicy, Toml.optional?_left hdeadline]
  rfl

namespace DriveConfig

/-- The entries of a document that are left read as its settings, with defaults for the others. -/
theorem ofEntries?_without (config : DriveConfig) (gone : List String → Bool) :
    ofEntries? (config.sheet.without gone).toTable = some (config.without gone) := by
  have hlookup (name : String) := config.sheet.lookup_without gone name
  have hsections (name : String) : config.sheet.sections.lookup name =
      if name = "lister" then some config.lister.entries else none := by
    simp [sheet, lookup_entry]
  have haccount : Toml.setting? Toml.ofText? "default"
      ((config.sheet.entries.lookup "account").map Toml.Scalar.toToml) = some config.account := rfl
  have hsession : Toml.optional? Toml.ofText?
      ((config.sheet.entries.lookup "session_file").map Toml.Scalar.toToml) =
        some config.sessionFile := by
    cases h : config.sessionFile <;>
      simp [sheet, h, lookup_entry, Toml.optional?, Toml.setting?, Toml.Scalar.toToml, Toml.ofText?]
  have htimeout : Toml.setting? Toml.ofCount? 60
      ((config.sheet.entries.lookup "timeout_secs").map Toml.Scalar.toToml) =
        some config.timeoutSecs := by
    cases h : config.sessionFile <;>
      simp [sheet, h, lookup_entry, Toml.setting?, Toml.Scalar.toToml, Toml.ofCount?_toNat]
  have hlister : Toml.setting? ListerConfig.ofToml? {} (some (.table (Toml.plainOf
      (Toml.leftOf (fun entry => gone ["lister", entry]) config.lister.entries)))) =
        some (config.lister.without fun entry => gone ["lister", entry]) :=
    config.lister.ofToml?_entries _
  have hnone : config.sheet.entries.lookup "lister" = none := by
    cases h : config.sessionFile <;> simp [sheet, h, lookup_entry]
  simp only [ofEntries?, hlookup, hsections, hnone, String.reduceEq, if_true, if_false,
    Option.map_none, Option.map_some, Option.or_none, Option.none_or, Toml.setting?_left haccount,
    Toml.optional?_left hsession, Toml.setting?_left htimeout, Toml.setting?_left hlister]
  rfl

theorem without_nothing (config : DriveConfig) : config.without (fun _ => false) = config := rfl

/-! ## Documents -/

/-- The numbers that a document can hold. -/
structure IsWithinRange (config : DriveConfig) : Prop where
  timeout : config.timeoutSecs.toNat ≤ 2 ^ 63 - 1
  workers : config.lister.maxWorkers.toNat ≤ 2 ^ 63 - 1
  deadline : ∀ secs ∈ config.lister.deadlineSecs, secs.toNat ≤ 2 ^ 63 - 1

theorem isInRange_toNat (n : UInt64) : Toml.isInRange n.toNat = true ↔ n.toNat ≤ 2 ^ 63 - 1 := by
  rw [Toml.isInRange, Bool.and_eq_true_iff, decide_eq_true_iff, decide_eq_true_iff, Toml.lowest,
    Toml.highest]
  omega

theorem isWritable_sheet (config : DriveConfig) :
    config.sheet.isWritable = true ↔ config.IsWithinRange := by
  have hsheet : config.sheet.isWritable = true ↔
      Toml.isInRange config.timeoutSecs.toNat = true ∧
        Toml.isInRange config.lister.maxWorkers.toNat = true ∧
          ∀ secs ∈ config.lister.deadlineSecs, Toml.isInRange secs.toNat = true := by
    cases hfile : config.sessionFile <;> cases hsecs : config.lister.deadlineSecs <;>
      simp [sheet, ListerConfig.entries, Toml.Sheet.isWritable, Toml.Scalar.isWritable, hfile,
        hsecs]
  rw [hsheet]
  simp only [isInRange_toNat]
  exact ⟨fun h => ⟨h.1, h.2.1, h.2.2⟩, fun h => ⟨h.timeout, h.workers, h.deadline⟩⟩

instance (config : DriveConfig) : Decidable config.IsWithinRange :=
  decidable_of_iff _ config.isWritable_sheet

/-- The names of the settings of a listing. -/
theorem names_lister (config : ListerConfig) :
    (config.entries.map Prod.fst).Sublist ["max_workers", "policy", "deadline_secs"] := by
  cases h : config.deadlineSecs <;> simp [ListerConfig.entries, h]

/-- The names of the settings outside it. -/
theorem names_sheet (config : DriveConfig) :
    (config.sheet.entries.map Prod.fst).Sublist ["account", "session_file", "timeout_secs"] := by
  cases h : config.sessionFile <;> simp [sheet, h]

theorem isPlain_sheet (config : DriveConfig) : config.sheet.IsPlain where
  names := by
    have hall : ["account", "session_file", "timeout_secs", "lister"].Nodup := by decide
    exact hall.sublist (config.names_sheet.append (List.Sublist.refl ["lister"]))
  inside part hpart := by
    obtain rfl := List.mem_singleton.1 hpart
    have hall : ["max_workers", "policy", "deadline_secs"].Nodup := by decide
    exact hall.sublist (names_lister config.lister)
  bare entry hentry := by
    have hall : ∀ name ∈ ["account", "session_file", "timeout_secs"], Toml.IsBareName name := by
      decide
    exact hall entry.1 (config.names_sheet.subset (List.mem_map_of_mem hentry))
  bare_section part hpart := by
    obtain rfl := List.mem_singleton.1 hpart
    exact (by decide : Toml.IsBareName "lister")
  bare_inside part hpart entry hentry := by
    obtain rfl := List.mem_singleton.1 hpart
    have hall : ∀ name ∈ ["max_workers", "policy", "deadline_secs"], Toml.IsBareName name := by
      decide
    exact hall entry.1 ((names_lister config.lister).subset (List.mem_map_of_mem hentry))

/-- The document that is written has a piece for each setting that is there. -/
theorem toToml?_eq_some_iff {config : DriveConfig} {document : String} :
    config.toToml? = some document ↔
      config.IsWithinRange ∧ config.sheet.textWithout (fun _ => false) = document := by
  rw [← config.isWritable_sheet, toToml?, Toml.Sheet.text?,
    ← Toml.Sheet.textWithout_nothing (show config.sheet.entries ≠ [] by simp [sheet])]
  split
  · next h => simp [h]
  · next h => simp [h]

theorem toToml?_eq_none {config : DriveConfig} (h : ¬config.IsWithinRange) :
    config.toToml? = none :=
  Option.eq_none_iff_forall_ne_some.2 fun _ hsome => h (toToml?_eq_some_iff.1 hsome).1

/-- Settings that are left out of the document have their defaults. -/
theorem ofToml?_textWithout {config : DriveConfig} (h : config.IsWithinRange)
    (gone : List String → Bool) :
    ofToml? (config.sheet.textWithout gone) = some (config.without gone) := by
  rw [ofToml?, Toml.Sheet.read?_textWithout config.isPlain_sheet (config.isWritable_sheet.2 h)]
  exact config.ofEntries?_without gone

end DriveConfig

/-! ## Files -/

/-- The folders on the way to a path can be made, and no folder stands where it leads. -/
def Disk.HasRoom (disk : Disk) (path : DiskPath) : Prop :=
  ∃ middle place, disk.makeFolder path.parent = (.ok (), middle) ∧
    middle.find path = .ok place ∧ middle.entryAt? place ≠ some .folder

namespace DriveConfig

variable {config : DriveConfig} {disk disk' : Disk} {path : DiskPath}

theorem load_of_read {document : String} (hread : disk.read path = .ok (Bytes.ofText document))
    (hdocument : ofToml? document = some config) : load disk path = .ok config := by
  simp only [load, hread, Bytes.text?_ofText, hdocument]

/-- What has been saved was made into a document and written where there was room. -/
theorem save_eq_ok :
    config.save path disk = (.ok (), disk') ↔
      ∃ document middle, config.toToml? = some document ∧
        disk.makeFolder path.parent = (.ok (), middle) ∧
        middle.write path (Bytes.ofText document) = (.ok (), disk') := by
  unfold save
  rcases disk.makeFolder path.parent with ⟨_ | ⟨⟩, middle⟩
  · simp
  cases config.toToml? with
  | none => simp
  | some document =>
    rcases hwrite : middle.write path (Bytes.ofText document) with ⟨_ | ⟨⟩, after⟩ <;>
      simp [hwrite, Except.mapError]

/-- Saving ends well exactly where there is room, for settings within range. -/
theorem save_ok_iff :
    (∃ disk', config.save path disk = (.ok (), disk')) ↔
      config.IsWithinRange ∧ disk.HasRoom path := by
  constructor
  · rintro ⟨disk', hsave⟩
    obtain ⟨document, middle, hdocument, hmake, hwrite⟩ := save_eq_ok.1 hsave
    obtain ⟨place, hfind, hplace, -⟩ := Disk.write_eq_ok.1 hwrite
    exact ⟨(toToml?_eq_some_iff.1 hdocument).1, middle, place, hmake, hfind, hplace⟩
  · rintro ⟨hrange, middle, place, hmake, hfind, hplace⟩
    have hdocument := toToml?_eq_some_iff.2 ⟨hrange, rfl⟩
    exact ⟨_, save_eq_ok.2
      ⟨_, middle, hdocument, hmake, Disk.write_eq_ok.2 ⟨place, hfind, hplace, rfl⟩⟩⟩

/-- What has been saved is loaded again. -/
theorem load_save (h : config.save path disk = (.ok (), disk')) : load disk' path = .ok config := by
  obtain ⟨document, middle, hdocument, -, hwrite⟩ := save_eq_ok.1 h
  obtain ⟨hrange, rfl⟩ := toToml?_eq_some_iff.1 hdocument
  have hread := ofToml?_textWithout hrange fun _ => false
  rw [without_nothing] at hread
  exact load_of_read (Disk.read_write hwrite) hread

theorem save_out_of_range {middle : Disk} (hrange : ¬config.IsWithinRange)
    (hmake : disk.makeFolder path.parent = (.ok (), middle)) :
    config.save path disk = (.error .unwritable, middle) := by
  simp only [save, hmake, toToml?_eq_none hrange]

/-- Settings within range are saved wherever there is room, and loaded again as they were. Settings
out of range are not saved, and a file where they should go stays as it is. What is left out of the
document of settings within range has its default, and nothing else changes. -/
theorem save_then_load (config : DriveConfig) (disk : Disk) (path : DiskPath)
    (gone : List String → Bool) :
    (config.IsWithinRange →
      (disk.HasRoom path →
        ∃ disk', config.save path disk = (.ok (), disk') ∧ load disk' path = .ok config) ∧
      config.toToml? = some (config.sheet.textWithout fun _ => false) ∧
      ofToml? (config.sheet.textWithout gone) = some (config.without gone)) ∧
    (¬config.IsWithinRange →
      (∀ middle, disk.makeFolder path.parent = (.ok (), middle) →
        config.save path disk = (.error .unwritable, middle)) ∧
      ∀ bytes, disk.read path = .ok bytes →
        config.save path disk = (.error .unwritable, disk)) := by
  constructor
  · intro hrange
    refine ⟨fun hroom => ?_, toToml?_eq_some_iff.2 ⟨hrange, rfl⟩, ofToml?_textWithout hrange gone⟩
    obtain ⟨disk', hsave⟩ := save_ok_iff.2 ⟨hrange, hroom⟩
    exact ⟨disk', hsave, load_save hsave⟩
  · intro hrange
    refine ⟨fun middle hmake => save_out_of_range hrange hmake, fun bytes hread => ?_⟩
    exact save_out_of_range hrange (Disk.isFolder_parent hread).makeFolder

/-- Texts with quotes of both kinds, backslashes, line breaks and a control character. -/
def awkward : DriveConfig where
  account := "\"\"\" ''' \\ \r\n\x01"
  sessionFile := some "it's \"here\"\n"
  timeoutSecs := 9223372036854775807
  lister := { policy := .failFast, deadlineSecs := some 0 }

/-- A path through a folder that may be missing. -/
def nested : DiskPath := ⟨DiskPath.home ++ ["new", "config.toml"]⟩

theorem save_then_load_awkward :
    (∃ disk', awkward.save nested {} = (.ok (), disk') ∧ load disk' nested = .ok awkward) ∧
    ofToml? (awkward.sheet.textWithout
        fun path => path = ["account"] || path = ["lister", "policy"]) =
      some { awkward with account := "default", lister := { deadlineSecs := some 0 } } ∧
    save { awkward with timeoutSecs := 9223372036854775808 } nested
        ⟨[(DiskPath.home ++ ["new"], .folder), (nested.pieces, .file [46])]⟩ =
      (.error .unwritable,
        ⟨[(DiskPath.home ++ ["new"], .folder), (nested.pieces, .file [46])]⟩) := by
  have hrange : awkward.IsWithinRange := ⟨by decide, by decide, fun | _, rfl => by decide⟩
  have hlong : ¬IsWithinRange { awkward with timeoutSecs := 9223372036854775808 } :=
    fun h => absurd h.timeout (by decide)
  have hkept := (save_then_load awkward {} nested
    fun path => path = ["account"] || path = ["lister", "policy"]).1 hrange
  exact ⟨hkept.1 ⟨_, _, rfl, rfl, by decide⟩, hkept.2.2,
    ((save_then_load _ _ nested fun _ => false).2 hlong).2 [46] rfl⟩

end DriveConfig
end SealedDrive
