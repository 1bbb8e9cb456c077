import SealedDrive.Json.Reader
import SealedDrive.Json.Writer
import SealedDrive.Error
import SealedDrive.Store.Accounts
import SealedDrive.Store.Disk

/-!
Stores of credentials. A store is used through a handle that names its current account; loading,
saving and deleting act on the entry of that account alone. One kind of store keeps the table of
accounts in memory, the other in a file of JSON.
-/

namespace SealedDrive

/-- What a store does for one account, on the state it keeps its table in. -/
structure Store (σ : Type) where
  load : (account : String) → σ → Except StoreError (Option Credentials)
  save : (account : String) → Credentials → σ → Except StoreError Unit × σ
  delete : (account : String) → σ → Except StoreError Unit × σ
  /-- The accounts that have credentials, sorted. -/
  list : σ → Except StoreError (List String)
  /-- Only an account that has credentials can become the current one. -/
  admits : (account : String) → σ → Except StoreError Unit

namespace Store

variable {σ τ : Type}

/-- A store that keeps its table in a part of a larger state. -/
def focus (get : τ → σ) (set : σ → τ → τ) (store : Store σ) : Store τ where
  load account t := store.load account (get t)
  save account credentials t :=
    let (answer, s) := store.save account credentials (get t)
    (answer, set s t)
  delete account t :=
    let (answer, s) := store.delete account (get t)
    (answer, set s t)
  list t := store.list (get t)
  admits account t := store.admits account (get t)

/-! ## In memory -/

/-- The table itself. -/
def memory : Store Accounts where
  load account accounts := .ok (accounts.find? account)
  save account credentials accounts := (.ok (), accounts.insert account credentials)
  delete account accounts := (.ok (), accounts.erase account)
  list accounts := .ok accounts.names
  admits account accounts :=
    if accounts.contains account then .ok () else .error (.unknownAccount account)

/-! ## In a file -/

/-- The blanks that a file may consist of and still count as empty. -/
def isBlankOctet (octet : UInt8) : Bool :=
  octet = 9 || octet = 10 || octet = 12 || octet = 13 || octet = 32

/-- The table in a file; a file of blanks holds none. -/
def tableOf (bytes : Bytes) : Except StoreError Accounts :=
  if bytes.all isBlankOctet then .ok .empty
  else
    match ((Bytes.text? bytes).bind Json.read?).bind ofJson? with
    | some accounts => .ok accounts
    | none => .error .malformed

/-- The table at a path; an absent file holds none. -/
def readTable (path : DiskPath) (disk : Disk) : Except StoreError Accounts :=
  match disk.read path with
  | .ok bytes => tableOf bytes
  | .error .absent => .ok .empty
  | .error .refused => .error .io

/-- The text of a table. -/
def tableText (accounts : Accounts) : String := (toJson accounts).pretty ++ "\n"

/-- Write the table in place of the old one, and make the folders on the way to it. The new table
is drafted in the same folder. -/
def writeTable (path : DiskPath) (accounts : Accounts) (disk : Disk) :
    Except StoreError Unit × Disk :=
  match disk.makeFolder path.parent with
  | (.error _, disk) => (.error .io, disk)
  | (.ok (), disk) =>
    if (path.parent.child DiskPath.draftName).isUsable then
      let (answer, disk) := disk.write path (Bytes.ofText (tableText accounts))
      (answer.mapError fun _ => .unreplaced, disk)
    else (.error .io, disk)

/-- A file that holds the table. Every operation reads the file anew, and a file that cannot be
read is left as it is. -/
def file (path : DiskPath) : Store Disk where
  load account disk := (readTable path disk).map (·.find? account)
  save account credentials disk :=
    match readTable path disk with
    | .error error => (.error error, disk)
    | .ok accounts => writeTable path (accounts.insert account credentials) disk
  delete account disk :=
    match readTable path disk with
    | .error error => (.error error, disk)
    | .ok accounts =>
      if accounts.contains account then writeTable path (accounts.erase account) disk
      else (.ok (), disk)
  list disk := (readTable path disk).map (·.names)
  admits account disk :=
    match readTable path disk with
    | .error error => .error error
    | .ok accounts =>
      if accounts.contains account then .ok () else .error (.unknownAccount account)

end Store

/-- A store and its current account. -/
structure StoreHandle (σ : Type) where
  store : Store σ
  account : String

namespace StoreHandle

variable {σ : Type}

def load (handle : StoreHandle σ) (s : σ) : Except StoreError (Option Credentials) :=
  handle.store.load handle.account s

def save (handle : StoreHandle σ) (credentials : Credentials) (s : σ) :
    Except StoreError Unit × σ :=
  handle.store.save handle.account credentials s

def delete (handle : StoreHandle σ) (s : σ) : Except StoreError Unit × σ :=
  handle.store.delete handle.account s

def list (handle : StoreHandle σ) (s : σ) : Except StoreError (List String) := handle.store.list s

/-- Make another account the current one. -/
def switch (handle : StoreHandle σ) (account : String) (s : σ) :
    Except StoreError (StoreHandle σ) :=
  match handle.store.admits account s with
  | .ok () => .ok { handle with account }
  | .error error => .error error

end StoreHandle
end SealedDrive
