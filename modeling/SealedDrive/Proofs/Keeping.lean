import Mathlib.Data.List.Induction
import SealedDrive.Proofs.Stores
import SealedDrive.Server.World

/-!
What saving and deleting do to the places where credentials are kept. When they succeed the entry of
one account is another and all else is as it was; when they fail everything is as it was, but for
folders that were made on the way to a session file that was not there.
-/

namespace SealedDrive

/-! ## Paths -/

namespace DiskPath

variable {front pieces : List String} {piece : String}

theorem withoutTail_of_nowhere (h : leadsNowhere piece = true) :
    withoutTail (front ++ [piece]) = withoutTail front := by
  simp [withoutTail, h]

theorem withoutTail_of_name (h : leadsNowhere piece = false) :
    withoutTail (front ++ [piece]) = front ++ [piece] := by
  simp [withoutTail, h]

theorem withoutTail_prefix (pieces : List String) : withoutTail pieces <+: pieces := by
  have hsuffix := List.reverse_prefix.2 (List.dropWhile_suffix leadsNowhere (l := pieces.reverse))
  rwa [List.reverse_reverse] at hsuffix

/-- No empty piece stands at an end that leads somewhere. -/
theorem dropWhile_withoutTail (pieces : List String) :
    ((withoutTail pieces).reverse.dropWhile (· = "")).reverse = withoutTail pieces := by
  have hdrop (rest : List String) : (rest.dropWhile leadsNowhere).dropWhile (· = "") =
      rest.dropWhile leadsNowhere := by
    induction rest with
    | nil => rfl
    | cons piece rest ih =>
      cases h : leadsNowhere piece with
      | true => rw [List.dropWhile_cons_of_pos h, ih]
      | false =>
        have hne : piece ≠ "" := fun he => by rw [he] at h; cases h
        rw [List.dropWhile_cons_of_neg (by simp [h]),
          List.dropWhile_cons_of_neg (by simpa using hne)]
  unfold withoutTail
  rw [List.reverse_reverse, hdrop]

theorem length_append (front rest : List String) :
    length ⟨front ++ rest⟩ = length ⟨front⟩ + length ⟨rest⟩ := by
  induction front with
  | nil => exact (Nat.zero_add _).symm
  | cons piece front ih =>
    show piece.utf8ByteSize + 1 + length ⟨front ++ rest⟩ =
      piece.utf8ByteSize + 1 + length ⟨front⟩ + length ⟨rest⟩
    omega

/-- The beginning of a path can be used where the path can. -/
theorem isUsable_of_prefix (h : front <+: pieces) (husable : isUsable ⟨pieces⟩ = true) :
    isUsable ⟨front⟩ = true := by
  obtain ⟨rest, rfl⟩ := h
  obtain ⟨hlength, hnames⟩ := Bool.and_eq_true_iff.1 husable
  have hlength := of_decide_eq_true hlength
  rw [length_append] at hlength
  rw [List.all_append] at hnames
  exact Bool.and_eq_true_iff.2
    ⟨decide_eq_true (by omega), (Bool.and_eq_true_iff.1 hnames).1⟩

end DiskPath

namespace Disk

variable {disk disk' disk'' : Disk} {path : DiskPath} {bytes : Bytes} {start goal : Place}
  {front : List String} {piece : String}

theorem follow_append (disk : Disk) (start : Place) (front rest : List String) :
    disk.follow start (front ++ rest) =
      (disk.follow start front).bind fun middle => disk.follow middle rest := by
  induction front generalizing start with
  | nil => rfl
  | cons piece front ih =>
    rw [List.cons_append, follow, follow]
    split
    · rfl
    · rfl
    · split
      · exact ih _
      · rfl

/-- The last step of a way starts at a folder. -/
theorem follow_concat (h : disk.follow start (front ++ [piece]) = .ok goal) :
    ∃ middle, disk.follow start front = .ok middle ∧ disk.entryAt? middle = some .folder ∧
      enter middle piece = .ok goal := by
  rw [follow_append] at h
  cases hfront : disk.follow start front with
  | error error =>
    rw [hfront] at h
    cases h
  | ok middle =>
    rw [hfront] at h
    change disk.follow middle [piece] = .ok goal at h
    unfold follow at h
    split at h
    · cases h
    · cases h
    · next hfolder =>
      refine ⟨middle, rfl, hfolder, ?_⟩
      split at h
      · next henter => rw [henter, ← h]; rfl
      · cases h

theorem enter_of_nowhere (h : DiskPath.leadsNowhere piece = true) (place : Place) :
    enter place piece = .ok place := if_pos h

theorem follow_withoutTail {pieces : List String} (h : disk.follow start pieces = .ok goal) :
    disk.follow start (DiskPath.withoutTail pieces) = .ok goal := by
  induction pieces using List.reverseRecOn with
  | nil => exact h
  | append_singleton front piece ih =>
    cases hpiece : DiskPath.leadsNowhere piece with
    | false => rwa [DiskPath.withoutTail_of_name hpiece]
    | true =>
      obtain ⟨middle, hfront, -, henter⟩ := follow_concat h
      rw [enter_of_nowhere hpiece] at henter
      cases henter
      rw [DiskPath.withoutTail_of_nowhere hpiece]
      exact ih hfront

theorem read_eq_ok :
    disk.read path = .ok bytes ↔
      ∃ place, disk.find path = .ok place ∧ disk.entryAt? place = some (.file bytes) := by
  unfold read
  constructor
  · intro h
    split at h
    · cases h
    · next place hfind =>
      refine ⟨place, hfind, ?_⟩
      split at h
      · next hentry => rw [hentry, Except.ok.inj h]
      · cases h
      · cases h
  · rintro ⟨place, hfind, hentry⟩
    simp only [hfind, hentry]

/-- A file that can be read lies in the folder of its path. -/
theorem isFolder_parent (h : disk.read path = .ok bytes) : disk.IsFolder path.parent := by
  obtain ⟨place, hfind, hentry⟩ := read_eq_ok.1 h
  obtain ⟨pieces⟩ := path
  unfold find at hfind
  split at hfind
  case isFalse => cases hfind
  case isTrue husable =>
    rcases List.eq_nil_or_concat pieces with rfl | ⟨front, piece, rfl⟩
    · cases hfind
      cases hentry
    rw [List.concat_eq_append] at husable hfind ⊢
    obtain ⟨middle, hfront, hfolder, henter⟩ := follow_concat hfind
    have hpiece : DiskPath.leadsNowhere piece = false := by
      refine Bool.eq_false_iff.2 fun hpiece => ?_
      rw [enter_of_nowhere hpiece] at henter
      cases henter
      cases hfolder.symm.trans hentry
    have hparent : DiskPath.parent ⟨front ++ [piece]⟩ = ⟨DiskPath.withoutTail front⟩ := by
      rw [DiskPath.parent, DiskPath.withoutTail_of_name hpiece, List.dropLast_concat]
    have hprefix : DiskPath.withoutTail front <+: front ++ [piece] :=
      (DiskPath.withoutTail_prefix front).trans (List.prefix_append front [piece])
    rw [hparent]
    refine ⟨DiskPath.isUsable_of_prefix hprefix husable, middle, ?_, hfolder⟩
    rw [DiskPath.dropWhile_withoutTail]
    exact follow_withoutTail hfront

/-! ## What changed -/

/-- What stands elsewhere than at these spots is the same, but for folders where nothing stood. -/
def ChangedAt (spots : Place → Prop) (disk disk' : Disk) : Prop :=
  ∀ place, spots place ∨ disk'.entryAt? place = disk.entryAt? place ∨
    disk.entryAt? place = none ∧ disk'.entryAt? place = some .folder

variable {spots : Place → Prop}

theorem ChangedAt.refl (disk : Disk) : disk.ChangedAt spots disk := fun _ => .inr (.inl rfl)

theorem ChangedAt.trans (h : disk.ChangedAt spots disk') (h' : disk'.ChangedAt spots disk'') :
    disk.ChangedAt spots disk'' := by
  intro place
  rcases h place with hspot | hsame | ⟨hnone, hfolder⟩
  · exact .inl hspot
  · rcases h' place with hspot | hsame' | ⟨hnone, hfolder⟩
    · exact .inl hspot
    · exact .inr (.inl (hsame'.trans hsame))
    · exact .inr (.inr ⟨hsame.symm.trans hnone, hfolder⟩)
  · rcases h' place with hspot | hsame' | ⟨hnone', -⟩
    · exact .inl hspot
    · exact .inr (.inr ⟨hnone, hsame'.trans hfolder⟩)
    · cases hfolder.symm.trans hnone'

theorem changedAt_put {place : Place} (h : disk.entryAt? place ≠ some .folder)
    (entry : DiskEntry) : disk.ChangedAt (· = place) (disk.put place entry) := by
  intro other
  rw [entryAt?_put h]
  by_cases hother : other = place
  · exact .inl hother
  · exact .inr (.inl (if_neg hother))

theorem changedAt_makeOne (h : disk.makeOne path = .ok disk') : disk.ChangedAt spots disk' := by
  unfold makeOne at h
  dsimp only at h
  split at h
  · cases h
  · split at h
    · cases h
    · next place _ =>
      split at h
      · cases h
        exact .refl disk
      · cases h
      · next hnone =>
        cases h
        have hplace : disk.entryAt? place ≠ some .folder := by simp [hnone]
        intro other
        rw [entryAt?_put hplace]
        split
        · next hother => exact .inr (.inr ⟨hother ▸ hnone, rfl⟩)
        · exact .inr (.inl rfl)

theorem changedAt_makeUpTo (disk : Disk) (path : DiskPath) (depth : Nat) :
    disk.ChangedAt spots (disk.makeUpTo path depth).2 := by
  induction depth generalizing path with
  | zero => exact .refl disk
  | succ depth ih =>
    unfold makeUpTo
    split
    · next hone => exact changedAt_makeOne hone
    · exact .refl disk
    · have hmade := ih path.parent
      split
      · next heq =>
        rw [heq] at hmade
        exact hmade
      · next heq =>
        rw [heq] at hmade
        split
        · next hone => exact hmade.trans (changedAt_makeOne hone)
        · exact hmade

end Disk

/-! ## Tables -/

namespace Store

variable {path : DiskPath} {accounts : Accounts} {disk disk' : Disk}

/-- A table that was written is at the path, and what stands elsewhere is the same. -/
theorem changedAt_writeTable (h : writeTable path accounts disk = (.ok (), disk')) :
    disk.ChangedAt (fun place => disk'.find path = .ok place) disk' := by
  obtain ⟨middle, hmake, -, hwrite⟩ := writeTable_eq_ok.1 h
  obtain ⟨place, hfind, hplace, rfl⟩ := Disk.write_eq_ok.1 hwrite
  have hmade (spots : Place → Prop) : disk.ChangedAt spots middle := by
    have hmiddle : (disk.makeFolder path.parent).2 = middle := congrArg Prod.snd hmake
    rw [← hmiddle]
    exact Disk.changedAt_makeUpTo disk path.parent _
  refine (hmade _).trans fun other => ?_
  rcases Disk.changedAt_put hplace _ other with rfl | hsame
  · exact .inl (Disk.find_put hplace _ hfind)
  · exact .inr hsame

/-- A table that cannot be written leaves all files as they are. -/
theorem changedAt_of_writeTable_error {error : StoreError}
    (h : writeTable path accounts disk = (.error error, disk')) :
    disk.ChangedAt (fun _ => False) disk' := by
  have hmade : disk.ChangedAt (fun _ => False) (disk.makeFolder path.parent).2 :=
    Disk.changedAt_makeUpTo disk path.parent _
  unfold writeTable at h
  rcases hmake : disk.makeFolder path.parent with ⟨_ | _, middle⟩
  · rw [hmake] at h hmade
    cases h
    exact hmade
  · rw [hmake] at h hmade
    dsimp only at h
    split at h
    · unfold Disk.write at h
      split at h
      · cases h
        exact hmade
      · split at h
        · cases h
          exact hmade
        · cases h
    · cases h
      exact hmade

/-- Where the file is there, not even a folder is made. -/
theorem eq_of_writeTable_error {error : StoreError} {bytes : Bytes}
    (hread : disk.read path = .ok bytes)
    (h : writeTable path accounts disk = (.error error, disk')) : disk' = disk := by
  unfold writeTable at h
  rw [(Disk.isFolder_parent hread).makeFolder] at h
  obtain ⟨place, hfind, hentry⟩ := Disk.read_eq_ok.1 hread
  dsimp only at h
  split at h
  · simp only [Disk.write, hfind, hentry] at h
    cases h
  · cases h
    rfl

end Store

/-! ## Keeping credentials -/

/-- Where a client keeps its credentials. -/
inductive Keeping where
  | memory
  | file (path : DiskPath)

namespace Keeping

def store : Keeping → Store Vault
  | memory => Vault.memoryStore
  | file path => Vault.fileStore path

/-- The table of accounts that is kept. -/
def table : Keeping → Vault → Except StoreError Accounts
  | memory, vault => .ok vault.memory
  | file path, vault => Store.readTable path vault.disk

/-- Whether there is a table, an empty one perhaps; a table in memory always is. -/
def IsThere : Keeping → Vault → Prop
  | memory, _ => True
  | file path, vault => ∃ bytes, vault.disk.read path = .ok bytes

/-- All but the table is as it was, but for folders on the way to a session file. -/
def SameElsewhere : Keeping → (before after : Vault) → Prop
  | memory, before, after => after.disk = before.disk
  | file path, before, after => after.memory = before.memory ∧
    before.disk.ChangedAt (fun place => after.disk.find path = .ok place) after.disk

/-- The entry of one account was replaced, or removed, and nothing else was changed. -/
structure Replaces (keeping : Keeping) (account : String) (entry : Option Credentials)
    (before after : Vault) : Prop where
  table : ∃ old new, keeping.table before = .ok old ∧ keeping.table after = .ok new ∧
    ∀ name, new.find? name = if name = account then entry else old.find? name
  elsewhere : keeping.SameElsewhere before after
  isThere : keeping.IsThere before → keeping.IsThere after

/-- No credentials and no file were changed. Where there was no session file, folders may have been
made on the way to it. -/
structure Spares (keeping : Keeping) (before after : Vault) : Prop where
  memory : after.memory = before.memory
  disk : before.disk.ChangedAt (fun _ => False) after.disk
  same : after = before ∨
    ∃ path, keeping = .file path ∧ before.disk.read path = .error .absent

variable {keeping : Keeping} {account : String} {vault : Vault}

theorem Spares.refl (keeping : Keeping) (vault : Vault) : keeping.Spares vault vault :=
  ⟨rfl, .refl _, .inl rfl⟩

theorem load_eq (keeping : Keeping) (account : String) (vault : Vault) :
    keeping.store.load account vault = (keeping.table vault).map (·.find? account) := by
  cases keeping with
  | memory => rfl
  | file path => rfl

/-- The new entry is loaded. -/
theorem Replaces.load {entry : Option Credentials} {vault' : Vault}
    (h : keeping.Replaces account entry vault vault') :
    keeping.store.load account vault' = .ok entry := by
  obtain ⟨_, new, -, hnew, hfind⟩ := h.table
  rw [load_eq, hnew]
  exact congrArg Except.ok ((hfind account).trans (if_pos rfl))

theorem replaces_memory {entry : Option Credentials} {accounts : Accounts}
    (h : ∀ name, accounts.find? name = if name = account then entry else vault.memory.find? name) :
    memory.Replaces account entry vault { vault with memory := accounts } :=
  ⟨⟨_, _, rfl, rfl, h⟩, rfl, id⟩

/-- A table that is written over another one. -/
theorem replaces_file {path : DiskPath} {entry : Option Credentials} {old new : Accounts}
    {disk : Disk} (hread : Store.readTable path vault.disk = .ok old)
    (hwrite : Store.writeTable path new vault.disk = (.ok (), disk))
    (h : ∀ name, new.find? name = if name = account then entry else old.find? name) :
    (file path).Replaces account entry vault { vault with disk } :=
  ⟨⟨old, new, hread, (Store.holds_writeTable hwrite).readTable, h⟩,
    ⟨rfl, Store.changedAt_writeTable hwrite⟩, fun _ => ⟨_, Store.read_writeTable hwrite⟩⟩

/-- Saving replaces the entry of the account or changes nothing. -/
theorem save_cases (keeping : Keeping) (account : String) (credentials : Credentials)
    (vault : Vault) :
    (∃ vault', keeping.store.save account credentials vault = (.ok (), vault') ∧
      keeping.Replaces account (some credentials) vault vault') ∨
    ∃ error vault', keeping.store.save account credentials vault = (.error error, vault') ∧
      keeping.Spares vault vault' := by
  cases keeping with
  | memory => exact .inl ⟨_, rfl, replaces_memory fun _ => Accounts.find?_insert⟩
  | file path =>
    show (∃ vault', (Vault.fileStore path).save account credentials vault = _ ∧ _) ∨
      ∃ error vault', (Vault.fileStore path).save account credentials vault = _ ∧ _
    simp only [Vault.fileStore, Store.focus, Store.file]
    cases hread : Store.readTable path vault.disk with
    | error error => exact .inr ⟨error, vault, rfl, .refl _ _⟩
    | ok accounts =>
      dsimp only
      rcases hwrite : Store.writeTable path (accounts.insert account credentials) vault.disk with
        ⟨error | _, disk⟩
      · refine .inr ⟨error, { vault with disk }, rfl, rfl,
          Store.changedAt_of_writeTable_error hwrite, ?_⟩
        unfold Store.readTable at hread
        split at hread
        · next hbytes =>
          left
          rw [Store.eq_of_writeTable_error hbytes hwrite]
        · next habsent => exact .inr ⟨path, rfl, habsent⟩
        · cases hread
      · exact .inl ⟨_, rfl, replaces_file hread hwrite fun _ => Accounts.find?_insert⟩

/-- Deleting removes the entry of the account or changes nothing at all: where there is an entry,
there is a file. -/
theorem delete_cases (keeping : Keeping) (account : String) (vault : Vault) :
    (∃ vault', keeping.store.delete account vault = (.ok (), vault') ∧
      keeping.Replaces account none vault vault') ∨
    ∃ error, keeping.store.delete account vault = (.error error, vault) := by
  cases keeping with
  | memory => exact .inl ⟨_, rfl, replaces_memory fun _ => Accounts.find?_erase⟩
  | file path =>
    show (∃ vault', (Vault.fileStore path).delete account vault = _ ∧ _) ∨
      ∃ error, (Vault.fileStore path).delete account vault = _
    simp only [Vault.fileStore, Store.focus, Store.file]
    cases hread : Store.readTable path vault.disk with
    | error error => exact .inr ⟨error, rfl⟩
    | ok accounts =>
      dsimp only
      split
      · next hcontains =>
        rcases hwrite : Store.writeTable path (accounts.erase account) vault.disk with
          ⟨error | _, disk⟩
        · refine .inr ⟨error, ?_⟩
          unfold Store.readTable at hread
          split at hread
          · next hbytes => rw [Store.eq_of_writeTable_error hbytes hwrite]
          · cases hread
            cases hcontains
          · cases hread
        · exact .inl ⟨_, rfl, replaces_file hread hwrite fun _ => Accounts.find?_erase⟩
      · next hcontains =>
        refine .inl ⟨vault, rfl, ⟨accounts, accounts, hread, hread, fun name => ?_⟩,
          ⟨rfl, .refl _⟩, id⟩
        rw [← Accounts.find?_erase, Accounts.erase_of_not_contains (by simpa using hcontains)]

end Keeping

end SealedDrive
