import SealedDrive.Proofs.Keeping

/-!
A store in a file damages nothing that is not its own, whatever octets stand in the file. A file
counts as a table when it is absent, when it is blank, and when it is one object with credentials
under every name; of several entries under one name the last one counts. Every operation refuses
any other file and leaves it as it is. Where there is a table, saving and deleting write the whole
file anew, yet all other entries are read as before.
-/

namespace SealedDrive

/-! ## What a file holds -/

/-- One object with credentials under every name, whatever else stands in them. -/
def Json.IsTable : Json → Prop
  | .object members =>
    ∀ member ∈ members, member.1.isSome ∧ (Credentials.ofObject? 2 member.2).isSome
  | _ => False

/-- The credentials under a name, those of the last member of that name. -/
def Json.credentials? (name : String) : Json → Option Credentials
  | .object members => (members.reverse.lookup (some name)).bind (Credentials.ofObject? 2)
  | _ => none

/-- The value that a file holds, unless it is blank. -/
def Store.valueOf? (bytes : Bytes) : Option Json := (Bytes.text? bytes).bind Json.read?

/-- What a file may hold for its accounts to be known. -/
def Store.IsLegible (bytes : Bytes) : Prop :=
  bytes.all isBlankOctet = true ∨ ∃ value, valueOf? bytes = some value ∧ value.IsTable

/-- The credentials of an account among the octets of a file. -/
def Store.credentialsOf? (name : String) (bytes : Bytes) : Option Credentials :=
  if bytes.all isBlankOctet then none else (valueOf? bytes).bind (Json.credentials? name)

/-- The accounts at a path are known: there is no file yet, or one that can be read and is
legible. -/
def Disk.IsLegible (disk : Disk) (path : DiskPath) : Prop :=
  disk.read path = .error .absent ∨ ∃ bytes, disk.read path = .ok bytes ∧ Store.IsLegible bytes

/-- The credentials of an account in the file at a path. -/
def Disk.credentials? (disk : Disk) (path : DiskPath) (name : String) : Option Credentials :=
  match disk.read path with
  | .ok bytes => Store.credentialsOf? name bytes
  | .error _ => none

/-! ## Reading -/

namespace Accounts

variable {accounts result : Accounts} {members : List (Option String × Json)}

theorem mem_names {name : String} : name ∈ accounts.names ↔ (accounts.find? name).isSome := by
  rw [names, find?, Option.isSome_iff_ne_none, Ne, List.lookup_eq_none_iff]
  simp

theorem exists_addMembers (accounts : Accounts)
    (h : ∀ member ∈ members, member.1.isSome ∧ (Credentials.ofObject? 2 member.2).isSome) :
    ∃ result, addMembers accounts members = some result := by
  induction members generalizing accounts with
  | nil => exact ⟨accounts, rfl⟩
  | cons member rest ih =>
    obtain ⟨name, value⟩ := member
    obtain ⟨hname, hvalue⟩ := h _ List.mem_cons_self
    obtain ⟨name, rfl⟩ := Option.isSome_iff_exists.1 hname
    obtain ⟨credentials, hcredentials⟩ := Option.isSome_iff_exists.1 hvalue
    obtain ⟨result, hresult⟩ := ih (accounts.insert name credentials) fun member hmember =>
      h member (List.mem_cons_of_mem _ hmember)
    exact ⟨result, by simpa [addMembers, hcredentials] using hresult⟩

theorem addMembers_cons {name : Option String} {value : Json}
    (h : addMembers accounts ((name, value) :: members) = some result) :
    ∃ account credentials, name = some account ∧ Credentials.ofObject? 2 value = some credentials ∧
      addMembers (accounts.insert account credentials) members = some result := by
  cases name with
  | none => cases h
  | some account =>
    cases hvalue : Credentials.ofObject? 2 value with
    | none => simp [addMembers, hvalue] at h
    | some credentials =>
      have hrest : addMembers (accounts.insert account credentials) members = some result := by
        simpa [addMembers, hvalue] using h
      exact ⟨account, credentials, rfl, rfl, hrest⟩

theorem legible_of_addMembers (h : addMembers accounts members = some result) :
    ∀ member ∈ members, member.1.isSome ∧ (Credentials.ofObject? 2 member.2).isSome := by
  induction members generalizing accounts with
  | nil => nofun
  | cons member rest ih =>
    obtain ⟨account, credentials, hname, hvalue, hrest⟩ := addMembers_cons h
    intro other hother
    rcases List.mem_cons.1 hother with rfl | hother
    · exact ⟨hname ▸ rfl, hvalue ▸ rfl⟩
    · exact ih hrest other hother

/-- Reading the members one by one, a later one takes the place of an earlier one. -/
theorem find?_addMembers (h : addMembers accounts members = some result) (name : String) :
    result.find? name = match members.reverse.lookup (some name) with
      | some value => Credentials.ofObject? 2 value
      | none => accounts.find? name := by
  induction members generalizing accounts with
  | nil =>
    cases h
    rfl
  | cons member rest ih =>
    obtain ⟨account, credentials, hname, hvalue, hrest⟩ := addMembers_cons h
    rw [ih hrest, List.reverse_cons, List.lookup_append]
    cases rest.reverse.lookup (some name) with
    | some value => rfl
    | none =>
      obtain ⟨key, value⟩ := member
      obtain rfl : key = some account := hname
      rw [Option.none_or, lookup_entry, find?_insert]
      by_cases heq : name = account
      · rw [if_pos heq, if_pos (congrArg some heq)]
        exact hvalue.symm
      · rw [if_neg heq, if_neg fun h => heq (Option.some.inj h)]
        rfl

theorem ofObject?_eq_some {value : Json} (h : Accounts.ofObject? value = some accounts) :
    value.IsTable ∧ ∀ name, accounts.find? name = value.credentials? name := by
  cases value with
  | object members =>
    refine ⟨legible_of_addMembers h, fun name => ?_⟩
    rw [find?_addMembers h, Json.credentials?]
    cases members.reverse.lookup (some name) with
    | some value => rfl
    | none => rfl
  | _ => cases h

/-- A second entry counts instead of the first, and what else stands in it does not matter. -/
example :
    (Json.record [("work", (⟨⟨"uid-1", "a", "b"⟩, "c"⟩ : Credentials).toObject),
      ("work", .record [("uid", .text "uid-2"), ("access_token", .text "a"),
        ("since", .integer 2024), ("refresh_token", .text "b"),
        ("salted_key_pass", .text "c")])]).credentials? "work" =
      some ⟨⟨"uid-2", "a", "b"⟩, "c"⟩ := by decide

theorem exists_ofObject? {value : Json} (h : value.IsTable) :
    ∃ accounts, Accounts.ofObject? value = some accounts := by
  cases value with
  | object members => exact exists_addMembers .empty h
  | _ => exact h.elim

end Accounts

namespace Store

variable {path : DiskPath} {disk disk' : Disk} {bytes : Bytes} {accounts : Accounts}

theorem tableOf_eq_ok (h : tableOf bytes = .ok accounts) :
    IsLegible bytes ∧ ∀ name, accounts.find? name = credentialsOf? name bytes := by
  unfold tableOf at h
  unfold IsLegible credentialsOf?
  split at h
  · next hblank =>
    cases h
    exact ⟨.inl hblank, fun name => (if_pos hblank).symm⟩
  · next hblank =>
    split at h
    · next table hread =>
      cases h
      obtain ⟨value, hvalue, hform⟩ := Option.bind_eq_some_iff.1 hread
      obtain ⟨htable, hfind⟩ := Accounts.ofObject?_eq_some hform
      refine ⟨.inr ⟨value, hvalue, htable⟩, fun name => ?_⟩
      rw [if_neg hblank, show valueOf? bytes = some value from hvalue]
      exact hfind name
    · cases h

theorem exists_tableOf (h : IsLegible bytes) : ∃ accounts, tableOf bytes = .ok accounts := by
  unfold tableOf
  split
  · exact ⟨.empty, rfl⟩
  · next hblank =>
    obtain ⟨value, hvalue, htable⟩ := h.resolve_left hblank
    obtain ⟨accounts, hform⟩ := Accounts.exists_ofObject? htable
    have hread : ((Bytes.text? bytes).bind Json.read?).bind ofJson? = some accounts :=
      Option.bind_eq_some_iff.2 ⟨value, hvalue, hform⟩
    rw [hread]
    exact ⟨accounts, rfl⟩

/-- What the file at a path is read as. -/
theorem readTable_eq_ok (h : readTable path disk = .ok accounts) :
    disk.IsLegible path ∧ ∀ name, accounts.find? name = disk.credentials? path name := by
  unfold readTable at h
  unfold Disk.IsLegible Disk.credentials?
  cases hread : disk.read path with
  | ok bytes =>
    rw [hread] at h
    obtain ⟨hlegible, hfind⟩ := tableOf_eq_ok h
    exact ⟨.inr ⟨bytes, rfl, hlegible⟩, hfind⟩
  | error error =>
    rw [hread] at h
    cases error with
    | absent =>
      cases h
      exact ⟨.inl rfl, fun name => rfl⟩
    | refused => cases h

theorem exists_readTable (h : disk.IsLegible path) :
    ∃ accounts, readTable path disk = .ok accounts := by
  unfold readTable
  rcases h with habsent | ⟨bytes, hread, hlegible⟩
  · rw [habsent]
    exact ⟨.empty, rfl⟩
  · rw [hread]
    exact exists_tableOf hlegible

theorem exists_readTable_error (h : ¬disk.IsLegible path) :
    ∃ error, readTable path disk = .error error := by
  cases hread : readTable path disk with
  | error error => exact ⟨error, rfl⟩
  | ok accounts => exact (h (readTable_eq_ok hread).1).elim

end Store

theorem Disk.read_congr {disk : Disk} {path path' : DiskPath}
    (h : disk.find path' = disk.find path) : disk.read path' = disk.read path := by
  unfold Disk.read
  rw [h]

/-! ## Calls -/

/-- The entry of one account in a file is another one, or gone, and all else is as before. -/
structure Disk.Replaces (path : DiskPath) (account : String) (entry : Option Credentials)
    (before after : Disk) : Prop where
  legible : after.IsLegible path
  entries : ∀ name,
    after.credentials? path name = if name = account then entry else before.credentials? path name
  /-- Every handle finds it so, however the path of the file is written. -/
  loads : ∀ path' name, after.find path' = after.find path →
    StoreHandle.load ⟨Store.file path', name⟩ after =
      .ok (if name = account then entry else before.credentials? path name)
  elsewhere : before.ChangedAt (fun place => after.find path = .ok place) after

namespace Store

variable {path : DiskPath} {disk disk' : Disk} {accounts : Accounts} {names : List String}
  {number : Nat} {account : String}

theorem load_eq (h : disk.IsLegible path) {path' : DiskPath}
    (hpath : disk.find path' = disk.find path) (name : String) :
    StoreHandle.load ⟨file path', name⟩ disk = .ok (disk.credentials? path name) := by
  obtain ⟨accounts, hread⟩ := exists_readTable h
  have hread' : readTable path' disk = .ok accounts := by
    rw [← hread, readTable, readTable, Disk.read_congr hpath]
  rw [← (readTable_eq_ok hread).2 name]
  simp only [StoreHandle.load, file, hread']
  rfl

theorem replaces_writeTable {old new : Accounts} {entry : Option Credentials}
    (hread : readTable path disk = .ok old) (hwrite : writeTable path new disk = (.ok (), disk'))
    (h : ∀ name, new.find? name = if name = account then entry else old.find? name) :
    disk.Replaces path account entry disk' := by
  obtain ⟨hlegible, hnew⟩ := readTable_eq_ok (holds_writeTable hwrite).readTable
  have hentries (name : String) : disk'.credentials? path name =
      if name = account then entry else disk.credentials? path name := by
    rw [← hnew, h, (readTable_eq_ok hread).2]
  refine ⟨hlegible, hentries, fun path' name hpath => ?_, changedAt_writeTable hwrite⟩
  rw [load_eq hlegible hpath, hentries]

/-- What writing a table comes to. When it fails no file is changed, and nothing at all where the
file was there before. -/
inductive Written (path : DiskPath) (account : String) (entry : Option Credentials)
    (shared : SharedStore Disk) : Except StoreError StoreReply × SharedStore Disk → Prop
  | replaced {disk : Disk} : shared.state.Replaces path account entry disk →
    Written path account entry shared (.ok .done, { shared with state := disk })
  | failed {error : StoreError} {disk : Disk} :
    isFileFailure (.error error : Except StoreError StoreReply) = true →
    shared.state.ChangedAt (fun _ => False) disk →
    (shared.state.read path = .error .absent ∨ disk = shared.state) →
    Written path account entry shared (.error error, { shared with state := disk })

theorem written_writeTable {old new : Accounts} {entry : Option Credentials}
    (hread : readTable path disk = .ok old)
    (h : ∀ name, new.find? name = if name = account then entry else old.find? name) :
    Written path account entry ⟨names, disk⟩
      ((writeTable path new disk).1.map fun () => .done,
        ⟨names, (writeTable path new disk).2⟩) := by
  obtain ⟨disk', hwrite⟩ | hfailure := writeTable_cases path new disk
  · rw [hwrite]
    exact .replaced (replaces_writeTable hread hwrite h)
  · rcases hwrite : writeTable path new disk with ⟨error | _, disk'⟩
    · rw [hwrite] at hfailure
      refine .failed ((isFileFailure_map (fun _ => .done) _).trans hfailure)
        (changedAt_of_writeTable_error hwrite) ?_
      rcases (readTable_eq_ok hread).1 with habsent | ⟨bytes, hbytes, -⟩
      · exact .inl habsent
      · exact .inr (eq_of_writeTable_error hbytes hwrite)
    · rw [hwrite] at hfailure
      cases hfailure

/-- A handle on a file whose accounts are known does what its calls are for, and no more. -/
structure Spares (path : DiskPath) (shared : SharedStore Disk) (number : Nat) (account : String) :
    Prop where
  load : shared.callOn (file path) number account .load =
    (.ok (.loaded (shared.state.credentials? path account)), shared)
  list : ∃ names, shared.callOn (file path) number account .list = (.ok (.listed names), shared) ∧
    names.Pairwise (· < ·) ∧ ∀ name, name ∈ names ↔ (shared.state.credentials? path name).isSome
  save : ∀ credentials, Written path account (some credentials) shared
    (shared.callOn (file path) number account (.save credentials))
  delete : (shared.state.credentials? path account).isSome →
    Written path account none shared (shared.callOn (file path) number account .delete)
  /-- Where there is nothing to delete, the file is left alone. -/
  deleteNone : shared.state.credentials? path account = none →
    shared.callOn (file path) number account .delete = (.ok .done, shared)
  switch : ∀ other, (shared.state.credentials? path other).isSome →
    shared.callOn (file path) number account (.switch other) =
      (.ok .done, { shared with accounts := shared.accounts.set number other })
  switchNone : ∀ other, shared.state.credentials? path other = none →
    shared.callOn (file path) number account (.switch other) =
      (.error (.unknownAccount other), shared)

theorem spares (h : disk.IsLegible path) (names : List String) (number : Nat) (account : String) :
    Spares path ⟨names, disk⟩ number account := by
  obtain ⟨accounts, hread⟩ := exists_readTable h
  have hfind := (readTable_eq_ok hread).2
  have hcontains (name : String) :
      accounts.contains name = (disk.credentials? path name).isSome := by
    rw [← hfind]
    rfl
  constructor
  case load =>
    simp only [SharedStore.callOn, load_eq h rfl account]
    rfl
  case list =>
    refine ⟨accounts.names, ?_, ?_, fun name => ?_⟩
    · simp only [SharedStore.callOn, StoreHandle.list, file, hread]
      rfl
    · exact List.pairwise_map.2 accounts.sorted
    · rw [Accounts.mem_names, hfind]
  case save =>
    intro credentials
    simp only [SharedStore.callOn, StoreHandle.save, file, hread]
    exact written_writeTable hread fun name => Accounts.find?_insert
  case delete =>
    intro hentry
    simp only [SharedStore.callOn, StoreHandle.delete, file, hread]
    rw [if_pos ((hcontains account).trans hentry)]
    exact written_writeTable hread fun name => Accounts.find?_erase
  case deleteNone =>
    intro hentry
    simp only [SharedStore.callOn, StoreHandle.delete, file, hread]
    rw [if_neg (by rw [hcontains, hentry]; exact Bool.noConfusion)]
    rfl
  case switch =>
    intro other hentry
    simp only [SharedStore.callOn, StoreHandle.switch, file, hread]
    rw [if_pos ((hcontains other).trans hentry)]
  case switchNone =>
    intro other hentry
    simp only [SharedStore.callOn, StoreHandle.switch, file, hread]
    rw [if_neg (by rw [hcontains, hentry]; exact Bool.noConfusion)]

/-- A file that is there and whose accounts are not known is refused by every call and stays. -/
theorem refused (h : ¬disk.IsLegible path) (names : List String) (number : Nat) (account : String)
    {call : HandleCall} (hcall : call ≠ .clone) :
    ∃ error, SharedStore.callOn (file path) ⟨names, disk⟩ number account call =
      (.error error, ⟨names, disk⟩) := by
  obtain ⟨error, hread⟩ := exists_readTable_error h
  refine ⟨error, ?_⟩
  cases call with
  | load => simp only [SharedStore.callOn, StoreHandle.load, file, hread]; rfl
  | save credentials => simp only [SharedStore.callOn, StoreHandle.save, file, hread]; rfl
  | delete => simp only [SharedStore.callOn, StoreHandle.delete, file, hread]; rfl
  | list => simp only [SharedStore.callOn, StoreHandle.list, file, hread]; rfl
  | switch other => simp only [SharedStore.callOn, StoreHandle.switch, file, hread]
  | clone => exact (hcall rfl).elim

/-- Whatever octets stand in the file, no call damages what is not its own: a file that cannot be
read or understood is refused and left as it is, and otherwise at most one entry is replaced. -/
theorem file_damages_nothing (path : DiskPath) (shared : SharedStore Disk) (number : Nat)
    (account : String) :
    (¬shared.state.IsLegible path → ∀ call, call ≠ .clone →
      ∃ error, shared.callOn (file path) number account call = (.error error, shared)) ∧
    (shared.state.IsLegible path → Spares path shared number account) :=
  ⟨fun h _ => refused h shared.accounts number account,
    fun h => spares h shared.accounts number account⟩

end Store
end SealedDrive
