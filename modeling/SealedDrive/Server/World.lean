import SealedDrive.Crowd
import SealedDrive.Server.Bench
import SealedDrive.Session.Basic
import SealedDrive.Store.Basic

/-!
The drive on its bench together with the places where a client may keep credentials: a table in
memory and a small disk.
-/

namespace SealedDrive

/-- Where credentials may be kept. -/
structure Vault where
  memory : Accounts := .empty
  disk : Disk := {}
  deriving DecidableEq

namespace Vault

def memoryStore : Store Vault := Store.memory.focus memory fun memory vault => { vault with memory }

def fileStore (path : DiskPath) : Store Vault :=
  (Store.file path).focus disk fun disk vault => { vault with disk }

end Vault

structure World where
  bench : Bench
  vault : Vault := {}
  crowd : Crowd := {}

instance : Crowded World where
  crowd := World.crowd
  setCrowd crowd world := { world with crowd }

namespace World

/-- The drive as a service, past the bench when `direct` is set. -/
def service (direct : Bool) : Service World := fun request =>
  ((if direct then Bench.direct else Bench.serve) request).focus bench
    fun bench world => { world with bench }

/-- What the turns of the others during a wait do to the world. -/
def turn (millis : Nat) (world : World) : World :=
  { world with
    bench := world.bench.setServer world.bench.server.turn
    crowd := world.crowd.afterWait millis }

/-- A store in the vault. -/
def keepsIn (store : Store Vault) : Store World :=
  store.focus vault fun vault world => { world with vault }

/-- Change the account on the drive. -/
def onAccount {α : Type} (f : Account → α × Account) : Activity World α :=
  .read fun world =>
    let (answer, account) := f world.bench.account
    .write { world with bench.account := account } (.done answer)

/-- Open a server session without a login, restore it, and unlock it with the account's own key
pass. -/
def freshSession (direct : Bool) (number : Nat) :
    ExceptT SessionError (Activity World) Session := do
  let tokens ← ExceptT.lift (onAccount (·.issueTokens))
  let locked ← ExceptT.mk ((LockedSession.restore tokens).run.carryAlone (service direct))
  let keyPass ← ExceptT.lift (onAccount fun account => (account.keyPass, account))
  ExceptT.mk <| pure <| locked.unlock number keyPass

end World
end SealedDrive
