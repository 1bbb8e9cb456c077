import SealedDrive.Proofs.Tables

/-!
A store in a file answers as one in memory does. Any number of handles use one store; whatever they
do, and as long as nothing fails on the way to the file, every answer is that of the table in
memory, and the file, once it is there, is the text of that table.

Every operation on the file begins by reading it, so all that a step has to keep is `Holds`: what
is read is the table in memory. The two stores differ in `delete`, which leaves the file alone when
there is nothing to forget.
-/

namespace SealedDrive

/-! ## Stores in use -/

/-- What is done with one handle. -/
inductive HandleCall where
  | load
  | save (credentials : Credentials)
  | delete
  | list
  | switch (account : String)
  /-- A second handle with the same current account. -/
  | clone

/-- What is done with a store: something with the handle of a number, or opening one more. -/
inductive StoreCall where
  | on (number : Nat) (call : HandleCall)
  | openHandle (account : String)

inductive StoreReply where
  | done
  | loaded (credentials : Option Credentials)
  | listed (accounts : List String)

/-- A store in use: the current account of each handle, and the state that the handles share. -/
structure SharedStore (σ : Type) where
  accounts : List String
  state : σ

namespace SharedStore

variable {σ : Type}

def callOn (store : Store σ) (shared : SharedStore σ) (number : Nat) (account : String)
    (call : HandleCall) : Except StoreError StoreReply × SharedStore σ :=
  let handle : StoreHandle σ := ⟨store, account⟩
  match call with
  | .load => ((handle.load shared.state).map .loaded, shared)
  | .save credentials =>
    let (answer, state) := handle.save credentials shared.state
    (answer.map fun () => .done, { shared with state })
  | .delete =>
    let (answer, state) := handle.delete shared.state
    (answer.map fun () => .done, { shared with state })
  | .list => ((handle.list shared.state).map .listed, shared)
  | .switch account =>
    match handle.switch account shared.state with
    | .ok handle =>
      (.ok .done, { shared with accounts := shared.accounts.set number handle.account })
    | .error error => (.error error, shared)
  | .clone => (.ok .done, { shared with accounts := shared.accounts ++ [handle.account] })

/-- Make one call. A number that no handle has does nothing. -/
def call (store : Store σ) (shared : SharedStore σ) :
    StoreCall → Except StoreError StoreReply × SharedStore σ
  | .openHandle account => (.ok .done, { shared with accounts := shared.accounts ++ [account] })
  | .on number call =>
    match shared.accounts[number]? with
    | some account => shared.callOn store number account call
    | none => (.ok .done, shared)

/-- Make calls one after the other: what each of them answers and leaves behind. -/
def run (store : Store σ) (shared : SharedStore σ) :
    List StoreCall → List (Except StoreError StoreReply × SharedStore σ)
  | [] => []
  | first :: rest => shared.call store first :: run store (shared.call store first).2 rest

end SharedStore

namespace Store

/-- What fails on the way to a file, whatever stands in it. -/
def isFileFailure {α : Type} : Except StoreError α → Bool
  | .error .io => true
  | .error .unreplaced => true
  | _ => false

/-- The file at a path is the text of a table and reads back as it; as long as there is no file,
the table is empty. -/
def Holds (path : DiskPath) (disk : Disk) (accounts : Accounts) : Prop :=
  match disk.read path with
  | .ok bytes => bytes = Bytes.ofText (tableText accounts) ∧ tableOf bytes = .ok accounts
  | .error .absent => accounts = .empty
  | .error .refused => False

variable {path : DiskPath} {disk disk' : Disk} {accounts : Accounts}

theorem Holds.readTable (h : Holds path disk accounts) : readTable path disk = .ok accounts := by
  unfold Holds at h
  unfold Store.readTable
  cases hread : disk.read path with
  | ok bytes =>
    rw [hread] at h
    exact h.2
  | error error =>
    rw [hread] at h
    cases error with
    | absent => exact congrArg Except.ok h.symm
    | refused => exact h.elim

theorem holds_writeTable (h : writeTable path accounts disk = (.ok (), disk')) :
    Holds path disk' accounts := by
  unfold Holds
  rw [read_writeTable h]
  exact ⟨rfl, tableOf_tableText accounts⟩

/-- Writing a table only fails on the way to the file. -/
theorem writeTable_cases (path : DiskPath) (accounts : Accounts) (disk : Disk) :
    (∃ disk', writeTable path accounts disk = (.ok (), disk')) ∨
      isFileFailure (writeTable path accounts disk).1 = true := by
  unfold writeTable
  split
  · exact .inr rfl
  · split
    · next middle _ _ =>
      cases hwrite : middle.write path (Bytes.ofText (tableText accounts)) with
      | mk answer last =>
        cases answer with
        | ok done => exact .inl ⟨last, rfl⟩
        | error error => exact .inr rfl
    · exact .inr rfl

/-- What a call answers and leaves behind agrees with what it does in memory. -/
structure Agrees (path : DiskPath) (onDisk : Except StoreError StoreReply × SharedStore Disk)
    (inMemory : Except StoreError StoreReply × SharedStore Accounts) : Prop where
  answer : onDisk.1 = inMemory.1
  accounts : onDisk.2.accounts = inMemory.2.accounts
  holds : Holds path onDisk.2.state inMemory.2.state

/-- A table that is written in answer to a call. -/
theorem agrees_writeTable (names : List String) (table : Accounts)
    (hfile : isFileFailure (writeTable path table disk).1 = false) :
    Agrees path
      ((writeTable path table disk).1.map fun () => .done, ⟨names, (writeTable path table disk).2⟩)
      (.ok .done, ⟨names, table⟩) := by
  obtain ⟨disk', hwrite⟩ | hfailure := writeTable_cases path table disk
  · rw [hwrite]
    exact ⟨rfl, rfl, holds_writeTable hwrite⟩
  · rw [hfile] at hfailure
    cases hfailure

theorem isFileFailure_map {α β : Type} (f : α → β) (answer : Except StoreError α) :
    isFileFailure (answer.map f) = isFileFailure answer := by
  cases answer with
  | ok a => rfl
  | error error => cases error <;> rfl

theorem agrees_callOn (h : Holds path disk accounts) (names : List String) (number : Nat)
    (account : String) (call : HandleCall)
    (hfile : isFileFailure (SharedStore.callOn (file path) ⟨names, disk⟩ number account call).1 =
      false) :
    Agrees path (SharedStore.callOn (file path) ⟨names, disk⟩ number account call)
      (SharedStore.callOn memory ⟨names, accounts⟩ number account call) := by
  have hread := h.readTable
  cases call with
  | load =>
    refine ⟨?_, rfl, h⟩
    simp only [SharedStore.callOn, StoreHandle.load, file, memory, hread]
    rfl
  | save credentials =>
    simp only [SharedStore.callOn, StoreHandle.save, file, memory, hread] at hfile ⊢
    exact agrees_writeTable names _ ((isFileFailure_map _ _).symm.trans hfile)
  | delete =>
    simp only [SharedStore.callOn, StoreHandle.delete, file, memory, hread] at hfile ⊢
    -- Only an account that is there is forgotten in the file, in memory whatever name it is.
    cases hcontains : accounts.contains account with
    | true =>
      rw [hcontains] at hfile
      exact agrees_writeTable names _ ((isFileFailure_map _ _).symm.trans hfile)
    | false =>
      rw [Accounts.erase_of_not_contains hcontains]
      exact ⟨rfl, rfl, h⟩
  | list =>
    refine ⟨?_, rfl, h⟩
    simp only [SharedStore.callOn, StoreHandle.list, file, memory, hread]
    rfl
  | switch other =>
    simp only [SharedStore.callOn, StoreHandle.switch, file, memory, hread]
    cases accounts.contains other with
    | true => exact ⟨rfl, rfl, h⟩
    | false => exact ⟨rfl, rfl, h⟩
  | clone => exact ⟨rfl, rfl, h⟩

theorem agrees_call (h : Holds path disk accounts) (names : List String) (call : StoreCall)
    (hfile : isFileFailure (SharedStore.call (file path) ⟨names, disk⟩ call).1 = false) :
    Agrees path (SharedStore.call (file path) ⟨names, disk⟩ call)
      (SharedStore.call memory ⟨names, accounts⟩ call) := by
  cases call with
  | openHandle account => exact ⟨rfl, rfl, h⟩
  | on number call =>
    unfold SharedStore.call at hfile ⊢
    dsimp only at hfile ⊢
    split
    · next account haccount =>
      rw [haccount] at hfile
      exact agrees_callOn h names number account call hfile
    · exact ⟨rfl, rfl, h⟩

theorem agrees_run {onDisk : SharedStore Disk} {inMemory : SharedStore Accounts}
    (hnames : onDisk.accounts = inMemory.accounts)
    (hholds : Holds path onDisk.state inMemory.state) {calls : List StoreCall}
    (hfile : ∀ after ∈ onDisk.run (file path) calls, isFileFailure after.1 = false) :
    List.Forall₂ (Agrees path) (onDisk.run (file path) calls) (inMemory.run memory calls) := by
  induction calls generalizing onDisk inMemory with
  | nil => exact .nil
  | cons first rest ih =>
    obtain ⟨names, disk⟩ := onDisk
    obtain ⟨_, accounts⟩ := inMemory
    obtain rfl := hnames
    have hfirst := agrees_call hholds names first (hfile _ List.mem_cons_self)
    exact .cons hfirst (ih hfirst.accounts hfirst.holds fun after hafter =>
      hfile after (List.mem_cons_of_mem _ hafter))

/-! ## Files that can be written -/

/-- Any table can be written. -/
def CanWrite (path : DiskPath) (disk : Disk) : Prop :=
  ∀ table, ∃ disk', writeTable path table disk = (.ok (), disk')

/-- Whether a table can be written does not depend on the table. -/
theorem canWrite_of_writeTable (h : writeTable path accounts disk = (.ok (), disk')) :
    CanWrite path disk := by
  intro table
  obtain ⟨middle, hmake, hdraft, hwrite⟩ := writeTable_eq_ok.1 h
  obtain ⟨place, hfind, hplace, -⟩ := Disk.write_eq_ok.1 hwrite
  exact ⟨_, writeTable_eq_ok.2
    ⟨middle, hmake, hdraft, Disk.write_eq_ok.2 ⟨place, hfind, hplace, rfl⟩⟩⟩

theorem CanWrite.answer (h : CanWrite path disk) (table : Accounts) :
    isFileFailure (writeTable path table disk).1 = false := by
  obtain ⟨disk', hwrite⟩ := h table
  rw [hwrite]
  rfl

theorem CanWrite.again (h : CanWrite path disk) (table : Accounts) :
    CanWrite path (writeTable path table disk).2 := by
  intro more
  obtain ⟨disk', hwrite⟩ := h table
  rw [hwrite]
  exact writeTable_again hwrite more

theorem CanWrite.callOn (hcan : CanWrite path disk) (h : Holds path disk accounts)
    (names : List String) (number : Nat) (account : String) (call : HandleCall) :
    isFileFailure (SharedStore.callOn (file path) ⟨names, disk⟩ number account call).1 = false ∧
      CanWrite path
        (SharedStore.callOn (file path) ⟨names, disk⟩ number account call).2.state := by
  have hread := h.readTable
  cases call with
  | load =>
    refine ⟨?_, hcan⟩
    simp only [SharedStore.callOn, StoreHandle.load, file, hread]
    rfl
  | save credentials =>
    simp only [SharedStore.callOn, StoreHandle.save, file, hread]
    exact ⟨(isFileFailure_map _ _).trans (hcan.answer _), hcan.again _⟩
  | delete =>
    simp only [SharedStore.callOn, StoreHandle.delete, file, hread]
    split
    · exact ⟨(isFileFailure_map _ _).trans (hcan.answer _), hcan.again _⟩
    · exact ⟨rfl, hcan⟩
  | list =>
    refine ⟨?_, hcan⟩
    simp only [SharedStore.callOn, StoreHandle.list, file, hread]
    rfl
  | switch other =>
    simp only [SharedStore.callOn, StoreHandle.switch, file, hread]
    cases accounts.contains other with
    | true => exact ⟨rfl, hcan⟩
    | false => exact ⟨rfl, hcan⟩
  | clone => exact ⟨rfl, hcan⟩

theorem CanWrite.call (hcan : CanWrite path disk) (h : Holds path disk accounts)
    (names : List String) (call : StoreCall) :
    isFileFailure (SharedStore.call (file path) ⟨names, disk⟩ call).1 = false ∧
      CanWrite path (SharedStore.call (file path) ⟨names, disk⟩ call).2.state := by
  cases call with
  | openHandle account => exact ⟨rfl, hcan⟩
  | on number call =>
    unfold SharedStore.call
    dsimp only
    split
    · next account haccount => exact hcan.callOn h names number account call
    · exact ⟨rfl, hcan⟩

/-- Where a table can be written, nothing ever fails on the way to the file. -/
theorem CanWrite.run {onDisk : SharedStore Disk} (hcan : CanWrite path onDisk.state)
    (h : Holds path onDisk.state accounts) (calls : List StoreCall) :
    ∀ after ∈ onDisk.run (file path) calls, isFileFailure after.1 = false := by
  induction calls generalizing onDisk accounts with
  | nil => nofun
  | cons first rest ih =>
    obtain ⟨hfirst, hagain⟩ := hcan.call h onDisk.accounts first
    have hholds := (agrees_call h onDisk.accounts first hfirst).holds
    intro after hafter
    rcases List.mem_cons.1 hafter with rfl | hafter
    · exact hfirst
    · exact ih hagain hholds after hafter

/-! ## In memory and on disk -/

theorem holds_absent (habsent : disk.read path = .error .absent) : Holds path disk .empty := by
  unfold Holds
  rw [habsent]

/-- From an absent file on, handles on the file answer as handles in memory do, as long as nothing
fails on the way to the file; and what the file holds after each call is the table in memory. -/
theorem file_agrees_with_memory (path : DiskPath) (disk : Disk)
    (habsent : disk.read path = .error .absent) (names : List String) (calls : List StoreCall)
    (hfile : ∀ after ∈ SharedStore.run (file path) ⟨names, disk⟩ calls,
      isFileFailure after.1 = false) :
    List.Forall₂ (Agrees path) (SharedStore.run (file path) ⟨names, disk⟩ calls)
      (SharedStore.run memory ⟨names, .empty⟩ calls) := by
  have hstart : Holds path disk .empty := holds_absent habsent
  exact agrees_run rfl hstart hfile

/-- A file in a folder that is not there yet. -/
def nestedPath : DiskPath := ⟨["tmp", "home-place", "nested", "sessions.json"]⟩

/-- Two accounts, a switch to an account that nobody knows, and one account forgotten through the
clone of another handle. -/
def nestedCalls : List StoreCall :=
  [.on 0 (.save ⟨⟨"uid-1", "access\n", "\"refresh\""⟩, "cGFzcw=="⟩), .openHandle "höme",
    .on 1 (.save ⟨⟨"uid-2", "\u0001", "\\"⟩, ""⟩), .on 0 (.switch "ghost"), .on 0 (.switch "höme"),
    .on 0 .clone, .on 2 .delete, .on 1 .load, .on 1 .delete, .on 2 .list]

theorem nested_fileFailure :
    ∀ after ∈ SharedStore.run (file nestedPath) ⟨["work"], {}⟩ nestedCalls,
      isFileFailure after.1 = false := by
  have hcan : CanWrite nestedPath {} :=
    canWrite_of_writeTable (show writeTable nestedPath .empty {} = (.ok (), _) from
      Prod.ext (by decide) rfl)
  have habsent : Disk.read {} nestedPath = .error .absent := by decide
  exact hcan.run (holds_absent habsent) nestedCalls

theorem file_agrees_with_memory_nested :
    Disk.read {} nestedPath = .error .absent ∧
      (∀ after ∈ SharedStore.run (file nestedPath) ⟨["work"], {}⟩ nestedCalls,
        isFileFailure after.1 = false) ∧
      List.Forall₂ (Agrees nestedPath)
        (SharedStore.run (file nestedPath) ⟨["work"], {}⟩ nestedCalls)
        (SharedStore.run memory ⟨["work"], .empty⟩ nestedCalls) :=
  ⟨by decide, nested_fileFailure,
    file_agrees_with_memory nestedPath {} (by decide) ["work"] nestedCalls nested_fileFailure⟩

end Store

end SealedDrive
