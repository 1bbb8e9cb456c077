import Mathlib.Data.List.Basic
import SealedDrive.Store.Basic

/-!
A file that was written is read back. Writing puts one entry where no folder stands, and a path goes
through folders only, so after it the same path leads to the same place.
-/

namespace SealedDrive

/-! ## Entries by key -/

section

variable {α β : Type} [BEq α] [LawfulBEq α] [DecidableEq α]

theorem lookup_entry (key key' : α) (value : β) (rest : List (α × β)) :
    ((key, value) :: rest).lookup key' = if key' = key then some value else rest.lookup key' := by
  by_cases h : key' = key
  · simp [h]
  · rw [List.lookup_cons, beq_false_of_ne h, if_neg h]

theorem lookup_map_value {γ : Type} (f : α → β → γ) (entries : List (α × β)) (key : α) :
    (entries.map fun entry => (entry.1, f entry.1 entry.2)).lookup key =
      (entries.lookup key).map (f key) := by
  induction entries with
  | nil => rfl
  | cons entry rest ih =>
    obtain ⟨first, value⟩ := entry
    rw [List.map_cons, lookup_entry, lookup_entry, ih]
    split
    · next h => rw [h, Option.map_some]
    · rfl

theorem lookup_filter_key (keeps : α → Bool) (entries : List (α × β)) (key : α) :
    (entries.filter fun entry => keeps entry.1).lookup key =
      if keeps key then entries.lookup key else none := by
  induction entries with
  | nil => exact (ite_self none).symm
  | cons entry rest ih =>
    obtain ⟨first, value⟩ := entry
    by_cases hfirst : keeps first = true
    · rw [List.filter_cons_of_pos (by exact hfirst), lookup_entry, lookup_entry, ih]
      by_cases h : key = first
      · simp only [h, hfirst, if_true]
      · simp only [if_neg h]
    · rw [List.filter_cons_of_neg (by exact hfirst), lookup_entry, ih]
      by_cases h : key = first
      · simp [h, hfirst]
      · simp only [if_neg h]

theorem lookup_filter_ne (entries : List (α × β)) (key key' : α) :
    (entries.filter (·.1 ≠ key)).lookup key' =
      if key' = key then none else entries.lookup key' := by
  refine (lookup_filter_key (fun first => decide (first ≠ key)) entries key').trans ?_
  by_cases h : key' = key <;> simp [h]

end

/-! ## Places -/

namespace Disk

variable {disk disk' : Disk} {place other : Place} {bytes : Bytes}

theorem lookup_replace (entries : List (Place × DiskEntry)) (entry : DiskEntry) :
    (entries.map fun old => if old.1 = place then (place, entry) else old).lookup other =
      if other = place then (entries.lookup place).map fun _ => entry
      else entries.lookup other := by
  induction entries with
  | nil => exact (ite_self none).symm
  | cons first rest ih =>
    obtain ⟨key, old⟩ := first
    rw [List.map_cons, lookup_entry, lookup_entry]
    by_cases hkey : key = place
    · subst hkey
      rw [if_pos rfl, lookup_entry, ih, if_pos rfl]
      by_cases h : other = key
      · simp only [if_pos h, Option.map_some]
      · simp only [if_neg h]
    · rw [if_neg hkey, lookup_entry, ih, if_neg (Ne.symm hkey)]
      by_cases h : other = place
      · have hne : other ≠ key := fun he => hkey (he.symm.trans h)
        simp only [if_pos h, if_neg hne]
      · simp only [if_neg h]

theorem lookup_put (disk : Disk) (place other : Place) (entry : DiskEntry) :
    (disk.put place entry).entries.lookup other =
      if other = place then some entry else disk.entries.lookup other := by
  unfold put
  cases hold : disk.entries.lookup place with
  | some old =>
    rw [if_pos Option.isSome_some]
    exact (lookup_replace disk.entries entry).trans (by rw [hold]; rfl)
  | none =>
    rw [if_neg (by decide), List.lookup_append, lookup_entry, List.lookup_nil]
    by_cases h : other = place
    · rw [if_pos h, if_pos h, h, hold]; rfl
    · rw [if_neg h, if_neg h, Option.or_none]

/-- Where no folder stands something can be put, and it changes nothing else. -/
theorem entryAt?_put (h : disk.entryAt? place ≠ some .folder) (entry : DiskEntry) (other : Place) :
    (disk.put place entry).entryAt? other =
      if other = place then some entry else disk.entryAt? other := by
  have hhome : ¬place.isPrefixOf DiskPath.home := fun hprefix => h (if_pos hprefix)
  unfold entryAt?
  rw [lookup_put]
  by_cases heq : other = place
  · subst heq
    rw [if_neg hhome, if_pos rfl, if_pos rfl]
  · rw [if_neg heq, if_neg heq]

theorem entryAt?_put_folder (h : disk.entryAt? place ≠ some .folder) (entry : DiskEntry)
    (hother : disk.entryAt? other = some .folder) :
    (disk.put place entry).entryAt? other = some .folder := by
  have hne : other ≠ place := fun heq => h (heq ▸ hother)
  rw [entryAt?_put h, if_neg hne, hother]

theorem follow_put (h : disk.entryAt? place ≠ some .folder) (entry : DiskEntry)
    {start goal : Place} {pieces : List String} (hfollow : disk.follow start pieces = .ok goal) :
    (disk.put place entry).follow start pieces = .ok goal := by
  induction pieces generalizing start with
  | nil => exact hfollow
  | cons piece rest ih =>
    unfold follow at hfollow ⊢
    split at hfollow
    · cases hfollow
    · cases hfollow
    · next hfolder =>
      rw [entryAt?_put_folder h entry hfolder]
      split at hfollow
      · exact ih hfollow
      · cases hfollow

theorem find_put (h : disk.entryAt? place ≠ some .folder) (entry : DiskEntry) {path : DiskPath}
    {goal : Place} (hfind : disk.find path = .ok goal) :
    (disk.put place entry).find path = .ok goal := by
  unfold find at hfind ⊢
  split at hfind
  · next husable => rw [if_pos husable]; exact follow_put h entry hfind
  · cases hfind

/-! ## Files -/

/-- Writing puts a file where the path leads, unless a folder stands there. -/
theorem write_eq_ok {path : DiskPath} :
    disk.write path bytes = (.ok (), disk') ↔
      ∃ place, disk.find path = .ok place ∧ disk.entryAt? place ≠ some .folder ∧
        disk.put place (.file bytes) = disk' := by
  unfold write
  constructor
  · intro h
    split at h
    · cases h
    · next place hfind =>
      split at h
      · cases h
      · next hfolder => exact ⟨place, hfind, hfolder, (Prod.ext_iff.1 h).2⟩
  · rintro ⟨place, hfind, hfolder, rfl⟩
    simp only [hfind]

/-- What was written is read. -/
theorem read_write {path : DiskPath} (h : disk.write path bytes = (.ok (), disk')) :
    disk'.read path = .ok bytes := by
  obtain ⟨place, hfind, hfolder, rfl⟩ := write_eq_ok.1 h
  unfold read
  simp only [find_put hfolder _ hfind, entryAt?_put hfolder, if_true]

/-- Where a file was written, another one can be. -/
theorem write_again {path : DiskPath} (h : disk.write path bytes = (.ok (), disk')) (more : Bytes) :
    ∃ disk'', disk'.write path more = (.ok (), disk'') := by
  obtain ⟨place, hfind, hfolder, rfl⟩ := write_eq_ok.1 h
  refine ⟨_, write_eq_ok.2 ⟨place, find_put hfolder _ hfind, ?_, rfl⟩⟩
  rw [entryAt?_put hfolder, if_pos rfl]
  nofun

/-! ## Folders -/

/-- A path leads to a folder; slashes behind its name do not matter. -/
def IsFolder (disk : Disk) (path : DiskPath) : Prop :=
  path.isUsable = true ∧
    ∃ place, disk.follow [] (path.pieces.reverse.dropWhile (· = "")).reverse = .ok place ∧
      disk.entryAt? place = some .folder

theorem IsFolder.put {path : DiskPath} (hpath : disk.IsFolder path)
    (h : disk.entryAt? place ≠ some .folder) (entry : DiskEntry) :
    (disk.put place entry).IsFolder path := by
  obtain ⟨husable, goal, hfollow, hgoal⟩ := hpath
  exact ⟨husable, goal, follow_put h entry hfollow, entryAt?_put_folder h entry hgoal⟩

theorem IsFolder.makeFolder {path : DiskPath} (h : disk.IsFolder path) :
    disk.makeFolder path = (.ok (), disk) := by
  obtain ⟨husable, place, hfollow, hplace⟩ := h
  have hone : disk.makeOne path = .ok disk := by
    simp [makeOne, husable, hfollow, hplace]
  unfold Disk.makeFolder
  cases path.pieces.length with
  | zero => rfl
  | succ depth => rw [makeUpTo, hone]

theorem isFolder_of_makeOne {path : DiskPath} (h : disk.makeOne path = .ok disk') :
    disk'.IsFolder path := by
  unfold makeOne at h
  dsimp only at h
  split at h
  · cases h
  · next husable =>
    split at h
    · cases h
    · next place hfollow =>
      split at h
      · next hplace =>
        cases h
        exact ⟨by simpa using husable, place, hfollow, hplace⟩
      · cases h
      · next hplace =>
        cases h
        have hnone : disk.entryAt? place ≠ some .folder := by simp [hplace]
        refine ⟨by simpa using husable, place, follow_put hnone _ hfollow, ?_⟩
        rw [entryAt?_put hnone, if_pos rfl]

/-- A folder that was made is there; the empty path is taken as it is. -/
theorem makeFolder_cases {path : DiskPath} (h : disk.makeFolder path = (.ok (), disk')) :
    path.pieces = [] ∨ disk'.IsFolder path := by
  unfold makeFolder at h
  cases hlength : path.pieces.length with
  | zero => exact .inl (List.length_eq_zero_iff.1 hlength)
  | succ depth =>
    right
    rw [hlength, makeUpTo] at h
    split at h
    · next hone =>
      cases h
      exact isFolder_of_makeOne hone
    · cases h
    · split at h
      · cases h
      · split at h
        · next hone =>
          cases h
          exact isFolder_of_makeOne hone
        · cases h

end Disk

namespace Store

variable {path : DiskPath} {accounts : Accounts} {disk disk' : Disk}

theorem writeTable_eq_ok :
    writeTable path accounts disk = (.ok (), disk') ↔
      ∃ middle, disk.makeFolder path.parent = (.ok (), middle) ∧
        (path.parent.child DiskPath.draftName).isUsable = true ∧
        middle.write path (Bytes.ofText (tableText accounts)) = (.ok (), disk') := by
  unfold writeTable
  cases hmake : disk.makeFolder path.parent with
  | mk made middle =>
    cases made with
    | error error => simp
    | ok done =>
      by_cases hdraft : (path.parent.child DiskPath.draftName).isUsable = true
      · cases hwrite : middle.write path (Bytes.ofText (tableText accounts)) with
        | mk answer last => cases answer <;> simp [hdraft, hwrite, Except.mapError]
      · simp [hdraft]

/-- A table that was written is the one in the file. -/
theorem read_writeTable (h : writeTable path accounts disk = (.ok (), disk')) :
    disk'.read path = .ok (Bytes.ofText (tableText accounts)) := by
  obtain ⟨middle, -, -, hwrite⟩ := writeTable_eq_ok.1 h
  exact Disk.read_write hwrite

/-- Where a table was written, another one can be. -/
theorem writeTable_again (h : writeTable path accounts disk = (.ok (), disk')) (more : Accounts) :
    ∃ disk'', writeTable path more disk' = (.ok (), disk'') := by
  obtain ⟨middle, hmake, hdraft, hwrite⟩ := writeTable_eq_ok.1 h
  obtain ⟨disk'', hagain⟩ := Disk.write_again hwrite (Bytes.ofText (tableText more))
  have hfolder : disk'.makeFolder path.parent = (.ok (), disk') := by
    rcases Disk.makeFolder_cases hmake with hnil | hfolder
    · unfold Disk.makeFolder
      rw [hnil]
      rfl
    · obtain ⟨place, -, hplace, rfl⟩ := Disk.write_eq_ok.1 hwrite
      exact (hfolder.put hplace _).makeFolder
  exact ⟨disk'', writeTable_eq_ok.2 ⟨disk', hfolder, hdraft, hagain⟩⟩

end Store

end SealedDrive
