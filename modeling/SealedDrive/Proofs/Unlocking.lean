import Mathlib.Data.List.Induction
import SealedDrive.Proofs.Built
import SealedDrive.Proofs.Firsts
import SealedDrive.Proofs.Opening

/-!
Unlocking is all or nothing. A session opens when the key pass is the key of a keyring and every key
that is chosen opens, the user's by the key pass and those of the addresses by their own rule; the
first that does not is named. What the session then hands out is settled by the list of addresses:
the last one counts, under its id and under its email, so without duplicates the order does not
matter.
-/

namespace SealedDrive

/-! ## The chosen keys -/

/-- The user key that the key pass opens. -/
def User.IsPrimaryKey (user : User) (key : UserKey) : Prop :=
  Prefers (fun _ => True) (·.primary = true) user.keys key

/-- The key of an address that is opened. -/
def Address.IsChosenKey (address : Address) (key : AddressKey) : Prop :=
  Prefers (·.active = true) (·.primary = true) address.keys key

def Address.IsActive (address : Address) : Prop := ∃ key ∈ address.keys, key.active = true

theorem User.primaryKey?_eq_some_iff {user : User} {key : UserKey} :
    user.primaryKey? = some key ↔ user.IsPrimaryKey key := by
  have h := @prefers_iff _ user.keys key (fun _ => true) (·.primary)
  rw [List.filter_true] at h
  simpa only [User.primaryKey?, User.IsPrimaryKey, eq_self] using h

theorem User.IsPrimaryKey.mem {user : User} {key : UserKey} (h : user.IsPrimaryKey key) :
    key ∈ user.keys := by
  rcases h with h | ⟨-, h⟩ <;> exact h.mem

theorem User.exists_primaryKey? {user : User} (h : user.keys ≠ []) :
    ∃ key, user.primaryKey? = some key := by
  obtain ⟨key, rest, hkeys⟩ := List.exists_cons_of_ne_nil h
  rw [User.primaryKey?, hkeys]
  cases (key :: rest).find? (·.primary) with
  | some flagged => exact ⟨flagged, rfl⟩
  | none => exact ⟨key, rfl⟩

theorem Address.activeKey?_eq_some_iff {address : Address} {key : AddressKey} :
    address.activeKey? = some key ↔ address.IsChosenKey key :=
  prefers_iff

theorem User.IsPrimaryKey.unique {user : User} {key other : UserKey}
    (h : user.IsPrimaryKey key) (h' : user.IsPrimaryKey other) : key = other :=
  Option.some.inj ((primaryKey?_eq_some_iff.mpr h).symm.trans (primaryKey?_eq_some_iff.mpr h'))

theorem Address.IsChosenKey.unique {address : Address} {key other : AddressKey}
    (h : address.IsChosenKey key) (h' : address.IsChosenKey other) : key = other :=
  Option.some.inj ((activeKey?_eq_some_iff.mpr h).symm.trans (activeKey?_eq_some_iff.mpr h'))

theorem Address.not_isChosenKey {address : Address} (h : address.activeKey? = none)
    (key : AddressKey) : ¬address.IsChosenKey key := fun hkey => by
  rw [activeKey?_eq_some_iff.mpr hkey] at h
  cases h

theorem Address.isActive_of_isChosenKey {address : Address} {key : AddressKey}
    (h : address.IsChosenKey key) : address.IsActive := by
  rcases h with h | ⟨-, h⟩
  · exact ⟨key, h.mem, h.holds.1⟩
  · exact ⟨key, h.mem, h.holds⟩

theorem Address.exists_isChosenKey {address : Address} (h : address.IsActive) :
    ∃ key, address.IsChosenKey key := by
  obtain ⟨first, hfirst⟩ := exists_isFirst h
  by_cases hflagged : ∃ key ∈ address.keys, key.active = true ∧ key.primary = true
  · obtain ⟨key, hkey⟩ := exists_isFirst hflagged
    exact ⟨key, .inl hkey⟩
  · push Not at hflagged
    exact ⟨first, .inr ⟨fun key hm hboth => hflagged key hm hboth.1 hboth.2, hfirst⟩⟩

/-! ## Opening them -/

namespace Keyring

/-- The key of an address opens to a keyring: by the user keyring when it has a token, else by the
key pass itself. -/
def OpensKey (passKey user : Keyring) (key : AddressKey) (ring : Keyring) : Prop :=
  match key.token with
  | some token => user.openMessage token user = .ok ring.bytes
  | none => passKey.openMessage key.privateKey passKey = .ok ring.bytes

/-- The key that is chosen for an address does not open to any keyring. -/
def Shuts (passKey user : Keyring) (address : Address) (key : AddressKey) : Prop :=
  address.IsChosenKey key ∧ ∀ ring, ¬OpensKey passKey user key ring

/-- The keyring of a key pass opens everything: the user key to the user keyring, and every address
that has an active key. -/
structure OpensAll (user : User) (addresses : List Address) (passKey ring : Keyring) : Prop where
  primary : ∃ key, user.IsPrimaryKey key ∧
    passKey.openMessage key.privateKey passKey = .ok ring.bytes
  addresses : ∀ address ∈ addresses, ∀ key, address.IsChosenKey key →
    ∃ opened, OpensKey passKey ring key opened

/-- The id of the first key that does not open: of the user, or else of the addresses in order. -/
inductive FirstShut (user : User) (addresses : List Address) (passKey : Keyring) : String → Prop
  | primary {key : UserKey} : user.IsPrimaryKey key →
    (∀ ring : Keyring, passKey.openMessage key.privateKey passKey ≠ .ok ring.bytes) →
    FirstShut user addresses passKey key.id
  | address {primary : UserKey} {ring : Keyring} {address : Address} {key : AddressKey} :
    user.IsPrimaryKey primary → passKey.openMessage primary.privateKey passKey = .ok ring.bytes →
    IsFirst (fun address => ∃ key, Shuts passKey ring address key) addresses address →
    Shuts passKey ring address key → FirstShut user addresses passKey key.id

/-- The keyring of an id: that of the last address with this id that has an active key. -/
def RingOf (passKey user : Keyring) (addresses : List Address) (id : String) (ring : Keyring) :
    Prop :=
  ∃ address key, IsLast (fun address => address.id = id ∧ address.IsActive) addresses address ∧
    address.IsChosenKey key ∧ OpensKey passKey user key ring

variable {user : User} {addresses : List Address} {keyPass : KeyPass} {passKey ring : Keyring}

theorem exists_bytes_iff {bytes : Bytes} :
    (∃ ring : Keyring, bytes = ring.bytes) ↔ bytes.length = keySize := by
  constructor
  · rintro ⟨ring, rfl⟩
    exact length_bytes ring
  · intro h
    exact ⟨⟨⟨bytes.toArray, h⟩⟩, rfl⟩

theorem isEmpty_of_bytes (hbytes : keyPass.bytes = passKey.bytes) : keyPass.isEmpty = false := by
  rw [KeyPass.isEmpty, hbytes, List.isEmpty_eq_false_iff_exists_mem]
  exact List.exists_mem_of_length_pos (by rw [length_bytes]; decide)

theorem openKey_eq_ok_iff {message : String} {verifier opened : Keyring} :
    ring.openKey message verifier = .ok opened ↔
      ring.openMessage message verifier = .ok opened.bytes := by
  rw [openKey, bind_eq_ok_iff]
  simp only [ofBytes_eq_ok_iff]
  constructor
  · rintro ⟨_, h, rfl⟩
    exact h
  · exact fun h => ⟨_, h, rfl⟩

theorem OpensKey.unique {user : Keyring} {key : AddressKey} {other : Keyring}
    (h : OpensKey passKey user key ring) (h' : OpensKey passKey user key other) : ring = other := by
  unfold OpensKey at h h'
  cases htoken : key.token <;> rw [htoken] at h h' <;>
    exact bytes_inj (Except.ok.inj (h.symm.trans h'))

/-- A key of an address opens, or it is the one that is named. -/
theorem unlockAddressKey_cases (passKey user : Keyring) (key : AddressKey) :
    (∃ ring, OpensKey passKey user key ring ∧ unlockAddressKey passKey user key = .ok ring) ∨
      (∀ ring, ¬OpensKey passKey user key ring) ∧
        unlockAddressKey passKey user key = .error (.locked key.id) := by
  unfold unlockAddressKey OpensKey
  cases key.token with
  | some token =>
    simp only [← openKey_eq_ok_iff]
    cases user.openKey token user with
    | ok ring => exact .inl ⟨ring, rfl, rfl⟩
    | error error => exact .inr ⟨nofun, rfl⟩
  | none =>
    simp only [← openKey_eq_ok_iff]
    cases passKey.openKey key.privateKey passKey with
    | ok ring => exact .inl ⟨ring, rfl, rfl⟩
    | error error => exact .inr ⟨nofun, rfl⟩

/-! ### The addresses in order -/

/-- Every chosen key opens, or the first that does not is named. -/
theorem unlockAddresses_cases (passKey user : Keyring) (addresses : List Address)
    (rings : List (String × Keyring)) :
    (∀ address ∈ addresses, ∀ key, address.IsChosenKey key →
        ∃ ring, OpensKey passKey user key ring) ∧
      (∃ unlocked, unlockAddresses passKey user rings addresses = .ok unlocked) ∨
    ∃ address key, IsFirst (fun address => ∃ key, Shuts passKey user address key) addresses
        address ∧ Shuts passKey user address key ∧
      unlockAddresses passKey user rings addresses = .error (.locked key.id) := by
  induction addresses generalizing rings with
  | nil => exact .inl ⟨nofun, rings, rfl⟩
  | cons address rest ih =>
    unfold unlockAddresses
    cases hchosen : address.activeKey? with
    | none =>
      have hnone := Address.not_isChosenKey hchosen
      rcases ih rings with ⟨hall, hok⟩ | ⟨shut, key, hfirst, hshut, herror⟩
      · refine .inl ⟨fun other hm key h => ?_, hok⟩
        rcases List.mem_cons.mp hm with rfl | hm
        · exact absurd h (hnone key)
        · exact hall other hm key h
      · refine .inr ⟨shut, key, .later ?_ hfirst, hshut, herror⟩
        rintro ⟨chosen, h, -⟩
        exact hnone chosen h
    | some key =>
      have hkey := Address.activeKey?_eq_some_iff.mp hchosen
      rcases unlockAddressKey_cases passKey user key with ⟨ring, hopen, hring⟩ | ⟨hshut, herror⟩
      · simp only [hring]
        rcases ih (setEntry address.id ring rings) with
          ⟨hall, hok⟩ | ⟨shut, other, hfirst, hshut, herror⟩
        · refine .inl ⟨fun other hm chosen h => ?_, hok⟩
          rcases List.mem_cons.mp hm with rfl | hm
          · exact ⟨ring, hkey.unique h ▸ hopen⟩
          · exact hall other hm chosen h
        · refine .inr ⟨shut, other, .later ?_ hfirst, hshut, herror⟩
          rintro ⟨chosen, h, hnone⟩
          exact hnone ring (hkey.unique h ▸ hopen)
      · refine .inr ⟨address, key, .here ⟨key, hkey, hshut⟩, ⟨hkey, hshut⟩, ?_⟩
        simp only [herror]
        rfl

theorem ringOf_concat {user : Keyring} {before : List Address} {address : Address} {id : String}
    {opened : Keyring} :
    RingOf passKey user (before ++ [address]) id opened ↔
      (address.id = id ∧ address.IsActive) ∧
          (∃ key, address.IsChosenKey key ∧ OpensKey passKey user key opened) ∨
        ¬(address.id = id ∧ address.IsActive) ∧ RingOf passKey user before id opened := by
  simp only [RingOf, isLast_concat]
  constructor
  · rintro ⟨_, key, ⟨hlast, rfl⟩ | ⟨hn, hlast⟩, hopens⟩
    · exact .inl ⟨hlast, key, hopens⟩
    · exact .inr ⟨hn, _, key, hlast, hopens⟩
  · rintro (⟨hlast, key, hopens⟩ | ⟨hn, _, key, hlast, hopens⟩)
    · exact ⟨_, key, .inl ⟨hlast, rfl⟩, hopens⟩
    · exact ⟨_, key, .inr ⟨hn, hlast⟩, hopens⟩

/-- The last address of an id settles its keyring. -/
theorem lookup_unlockAddresses {passKey user : Keyring} {addresses : List Address}
    {rings : List (String × Keyring)}
    (h : unlockAddresses passKey user [] addresses = .ok rings) (id : String) (opened : Keyring) :
    rings.lookup id = some opened ↔ RingOf passKey user addresses id opened := by
  induction addresses using List.reverseRecOn generalizing rings with
  | nil =>
    cases h
    exact ⟨nofun, fun ⟨_, _, hlast, _⟩ => absurd hlast.mem List.not_mem_nil⟩
  | append_singleton before address ih =>
    rw [Account.unlockAddresses_append, bind_eq_ok_iff] at h
    obtain ⟨found, hbefore, hlast⟩ := h
    have hfound := ih hbefore
    rw [ringOf_concat]
    unfold unlockAddresses at hlast
    cases hchosen : address.activeKey? with
    | none =>
      have hinactive : ¬address.IsActive := fun hactive => by
        obtain ⟨key, hkey⟩ := Address.exists_isChosenKey hactive
        exact Address.not_isChosenKey hchosen key hkey
      rw [hchosen] at hlast
      cases hlast
      simp only [hfound, hinactive, and_false, false_and, not_false_eq_true, true_and, false_or]
    | some key =>
      have hkey := Address.activeKey?_eq_some_iff.mp hchosen
      have hactive := Address.isActive_of_isChosenKey hkey
      rcases unlockAddressKey_cases passKey user key with ⟨ring, hopen, hring⟩ | ⟨-, herror⟩
      · simp only [hchosen, hring] at hlast
        cases hlast
        rw [lookup_setEntry]
        by_cases hid : id = address.id
        · have hsole : some ring = some opened ↔
              ∃ key, address.IsChosenKey key ∧ OpensKey passKey user key opened := by
            constructor
            · rintro ⟨⟩
              exact ⟨key, hkey, hopen⟩
            · rintro ⟨other, hother, hopens⟩
              rw [hkey.unique hother] at hopen
              exact congrArg some (hopen.unique hopens)
          simp only [hid, hactive, hsole, if_true, and_self, true_and, not_true_eq_false,
            false_and, or_false]
        · rw [if_neg hid, hfound]
          simp only [Ne.symm hid, false_and, not_false_eq_true, true_and, false_or]
      · simp only [hchosen, herror] at hlast
        cases hlast

/-! ### All or nothing -/

theorem OpensAll.ring_unique {other : Keyring} {more : List Address}
    (h : OpensAll user addresses passKey ring) (h' : OpensAll user more passKey other) :
    ring = other := by
  obtain ⟨primary, hprimary, hopen⟩ := h.primary
  obtain ⟨key, hkey, hopen'⟩ := h'.primary
  rw [hprimary.unique hkey] at hopen
  exact bytes_inj (Except.ok.inj (hopen.symm.trans hopen'))

theorem OpensAll.not_firstShut {id : String} (h : OpensAll user addresses passKey ring) :
    ¬FirstShut user addresses passKey id := by
  obtain ⟨primary, hprimary, hopen⟩ := h.primary
  rintro (⟨hother, hnone⟩ | ⟨hother, hring, hfirst, hshut⟩)
  · rw [hother.unique hprimary] at hnone
    exact hnone ring hopen
  · rw [hother.unique hprimary, hopen] at hring
    obtain rfl := bytes_inj (Except.ok.inj hring)
    obtain ⟨opened, hopens⟩ := h.addresses _ hfirst.mem _ hshut.1
    exact hshut.2 opened hopens

theorem OpensAll.perm {other : List Address} (h : OpensAll user addresses passKey ring)
    (hp : addresses.Perm other) : OpensAll user other passKey ring :=
  ⟨h.primary, fun address hm => h.addresses address (hp.mem_iff.mpr hm)⟩

/-- Without duplicates the order of the addresses does not matter. -/
theorem ringOf_perm {user : Keyring} {other : List Address} {id : String} {opened : Keyring}
    (hp : addresses.Perm other) (hn : (addresses.map (·.id)).Nodup) :
    RingOf passKey user addresses id opened ↔ RingOf passKey user other id opened := by
  have hsettles : ∀ address : Address, address.id = id ∧ address.IsActive → address.id = id :=
    fun _ h => h.1
  simp only [RingOf, isLast_iff_mem hsettles hn,
    isLast_iff_mem hsettles ((hp.map _).nodup_iff.mp hn), hp.mem_iff]

/-- A key pass that is a key, for a user that has one, opens everything or names the first key that
it does not open. -/
theorem unlock_cases (addresses : List Address) (hbytes : keyPass.bytes = passKey.bytes)
    (hkeys : user.keys ≠ []) :
    (∃ unlocked, Keyring.unlock user addresses keyPass = .ok unlocked ∧
      OpensAll user addresses passKey unlocked.user ∧
      unlockAddresses passKey unlocked.user [] addresses = .ok unlocked.addresses) ∨
    ∃ id, FirstShut user addresses passKey id ∧
      Keyring.unlock user addresses keyPass = .error (.locked id) := by
  have hnonempty := isEmpty_of_bytes hbytes
  have hpass : ofKeyPass keyPass = .ok passKey := by
    rw [ofKeyPass, hbytes, ofBytes_bytes]
  obtain ⟨primary, hchosen⟩ := User.exists_primaryKey? hkeys
  have hprimary := User.primaryKey?_eq_some_iff.mp hchosen
  simp only [Keyring.unlock, hnonempty, hpass, bind, Except.bind, hchosen, Bool.false_eq_true,
    if_false]
  cases hopen : passKey.openKey primary.privateKey passKey with
  | error error =>
    refine .inr ⟨primary.id, .primary hprimary fun ring h => ?_, rfl⟩
    rw [openKey_eq_ok_iff.mpr h] at hopen
    cases hopen
  | ok ring =>
    have hring := openKey_eq_ok_iff.mp hopen
    rcases unlockAddresses_cases passKey ring addresses [] with
      ⟨hall, rings, hrings⟩ | ⟨address, key, hfirst, hshut, herror⟩
    · simp only [hrings]
      exact .inl ⟨⟨ring, rings⟩, rfl, ⟨⟨primary, hprimary, hring⟩, hall⟩, hrings⟩
    · refine .inr ⟨key.id, .address hprimary hring hfirst hshut, ?_⟩
      simp only [herror]

/-- Nothing unlocks without a key pass that is a key and a user that has one. -/
theorem exists_of_unlock {unlocked : Unlocked}
    (h : Keyring.unlock user addresses keyPass = .ok unlocked) :
    (∃ passKey : Keyring, keyPass.bytes = passKey.bytes) ∧ user.keys ≠ [] := by
  unfold Keyring.unlock at h
  split at h
  case isTrue => cases h
  rw [bind_eq_ok_iff] at h
  obtain ⟨passKey, hpass, h⟩ := h
  refine ⟨⟨passKey, ofBytes_eq_ok_iff.mp hpass⟩, fun hkeys => ?_⟩
  rw [User.primaryKey?, hkeys] at h
  cases h

end Keyring

/-! ## Sessions -/

open Keyring

namespace Session

/-- The session hands out the keyrings of these addresses: by id that of the last one with an active
key, by email that of the id of the last one. -/
structure HoldsKeyrings (addresses : List Address) (passKey : Keyring) (session : Session) :
    Prop where
  byId : ∀ id ring, session.addressKeyring? id = some ring ↔
    RingOf passKey session.userKeyring addresses id ring
  known : ∀ id, (∃ ring, session.addressKeyring? id = some ring) ↔
    ∃ address ∈ addresses, address.id = id ∧ address.IsActive
  byEmail : ∀ email address, IsLast (·.email = email) addresses address →
    session.addressKeyringFor? email = session.addressKeyring? address.id
  unlisted : ∀ email, (∀ address ∈ addresses, address.email ≠ email) →
    session.addressKeyringFor? email = none

/-- Two sessions hand out the same keyrings. -/
structure SameKeyrings (session other : Session) : Prop where
  user : other.userKeyring = session.userKeyring
  byId : ∀ id, other.addressKeyring? id = session.addressKeyring? id
  byEmail : ∀ email, other.addressKeyringFor? email = session.addressKeyringFor? email
  signer : ∀ email, other.signerKeyring email = session.signerKeyring email

theorem address?_eq_some_iff {session : Session} {email : String} {address : Address} :
    session.address? email = some address ↔ IsLast (·.email = email) session.addresses address := by
  rw [address?, find?_eq_some_iff_isFirst]
  simp only [decide_eq_true_eq]
  rfl

theorem address?_perm {session other : Session} (hp : session.addresses.Perm other.addresses)
    (hn : (session.addresses.map (·.email)).Nodup) (email : String) :
    other.address? email = session.address? email := by
  refine Option.ext fun address => ?_
  rw [address?_eq_some_iff, address?_eq_some_iff, isLast_iff_mem (fun _ h => h) hn,
    isLast_iff_mem (fun _ h => h) ((hp.map _).nodup_iff.mp hn), hp.mem_iff]

end Session

namespace LockedSession

variable {locked : LockedSession} {number : Nat} {keyPass : KeyPass} {session : Session}

/-- Unlocking a session is unlocking its keys. -/
theorem unlock_eq_ok_iff :
    locked.unlock number keyPass = .ok session ↔
      ∃ unlocked, Keyring.unlock locked.user locked.addresses keyPass = .ok unlocked ∧
        session = ⟨number, locked.tokens, locked.user, locked.addresses, unlocked.user,
          unlocked.addresses, locked.lister, locked.timeout⟩ := by
  unfold unlock
  by_cases hempty : keyPass.isEmpty = true
  · simp [hempty, Keyring.unlock]
  · rw [if_neg hempty]
    cases Keyring.unlock locked.user locked.addresses keyPass with
    | error error => exact ⟨nofun, nofun⟩
    | ok unlocked => simp [eq_comm]

theorem unlock_eq_error {error : CryptoError} (hn : keyPass.isEmpty = false)
    (h : Keyring.unlock locked.user locked.addresses keyPass = .error error) :
    locked.unlock number keyPass = .error (.crypto error) := by
  simp [unlock, hn, h]

/-- What an unlocked session was made of, and what it hands out. -/
theorem holdsKeyrings_of_unlock {passKey : Keyring} (hbytes : keyPass.bytes = passKey.bytes)
    (h : locked.unlock number keyPass = .ok session) :
    session.addresses = locked.addresses ∧
      OpensAll locked.user locked.addresses passKey session.userKeyring ∧
      session.HoldsKeyrings locked.addresses passKey := by
  obtain ⟨unlocked, hunlock, rfl⟩ := unlock_eq_ok_iff.mp h
  rcases unlock_cases locked.addresses hbytes (exists_of_unlock hunlock).2 with
    ⟨found, hfound, hopens, hrings⟩ | ⟨_, -, herror⟩
  · cases hunlock.symm.trans hfound
    have hlookup := lookup_unlockAddresses hrings
    refine ⟨rfl, hopens, hlookup, fun id => ?_, fun email address hlast => ?_, fun email hn => ?_⟩
    · constructor
      · rintro ⟨ring, hring⟩
        obtain ⟨address, -, hlast, -⟩ := (hlookup id ring).mp hring
        exact ⟨address, hlast.mem, hlast.holds⟩
      · intro hlisted
        obtain ⟨last, hlast⟩ := exists_isLast hlisted
        obtain ⟨key, hkey⟩ := Address.exists_isChosenKey hlast.holds.2
        obtain ⟨ring, hring⟩ := hopens.addresses last hlast.mem key hkey
        exact ⟨ring, (hlookup id ring).mpr ⟨last, key, hlast, hkey, hring⟩⟩
    · rw [Session.addressKeyringFor?, Session.address?_eq_some_iff.mpr hlast]
      rfl
    · rw [Session.addressKeyringFor?, Option.bind_eq_none_iff]
      intro address haddress
      have hlast := Session.address?_eq_some_iff.mp haddress
      exact absurd hlast.holds (hn address hlast.mem)
  · rw [herror] at hunlock
    cases hunlock

theorem unlock_of_opensAll {passKey ring : Keyring} (hbytes : keyPass.bytes = passKey.bytes)
    (h : OpensAll locked.user locked.addresses passKey ring) :
    ∃ session, locked.unlock number keyPass = .ok session := by
  have hkeys : locked.user.keys ≠ [] := fun hnil => by
    obtain ⟨key, hkey, -⟩ := h.primary
    have hm := hkey.mem
    rw [hnil] at hm
    cases hm
  rcases unlock_cases locked.addresses hbytes hkeys with ⟨unlocked, hunlock, -⟩ | ⟨id, hshut, -⟩
  · exact ⟨_, unlock_eq_ok_iff.mpr ⟨unlocked, hunlock, rfl⟩⟩
  · exact absurd hshut h.not_firstShut

theorem unlock_perm {addresses : List Address} (hp : locked.addresses.Perm addresses)
    (hids : (locked.addresses.map (·.id)).Nodup) (hemails : (locked.addresses.map (·.email)).Nodup)
    (h : locked.unlock number keyPass = .ok session) :
    ∃ other, ({ locked with addresses } : LockedSession).unlock number keyPass = .ok other ∧
      session.SameKeyrings other := by
  obtain ⟨unlocked, hunlock, -⟩ := unlock_eq_ok_iff.mp h
  obtain ⟨⟨passKey, hbytes⟩, -⟩ := exists_of_unlock hunlock
  obtain ⟨hsame, hopens, hholds⟩ := holdsKeyrings_of_unlock hbytes h
  obtain ⟨other, hother⟩ :
      ∃ other, ({ locked with addresses } : LockedSession).unlock number keyPass = .ok other :=
    unlock_of_opensAll hbytes (hopens.perm hp)
  obtain ⟨hsame', hopens', hholds'⟩ := holdsKeyrings_of_unlock hbytes hother
  have huser : other.userKeyring = session.userKeyring := hopens'.ring_unique (hopens.perm hp)
  have hid : ∀ id, other.addressKeyring? id = session.addressKeyring? id := fun id => by
    refine Option.ext fun ring => ?_
    rw [hholds.byId, hholds'.byId, huser, ringOf_perm hp hids]
  have hemail : ∀ email, other.address? email = session.address? email :=
    Session.address?_perm (by rwa [hsame, hsame']) (by rwa [hsame])
  refine ⟨other, hother, huser, hid, fun email => ?_, fun email => ?_⟩
  · simp only [Session.addressKeyringFor?, hemail, hid]
  · simp only [Session.signerKeyring, hemail, hid]

/-- Unlocking is all or nothing, and exact: a session opens just when everything does, and hands out
the keyrings of its addresses; else the first key is named that does not open. The order of the
addresses matters for duplicates only. -/
theorem unlock_exact (locked : LockedSession) (number : Nat) (keyPass : KeyPass) :
    ((∃ session, locked.unlock number keyPass = .ok session) ↔
      ∃ passKey ring : Keyring, keyPass.bytes = passKey.bytes ∧
        OpensAll locked.user locked.addresses passKey ring) ∧
    (∀ session, locked.unlock number keyPass = .ok session →
      ∃ passKey : Keyring, keyPass.bytes = passKey.bytes ∧
        OpensAll locked.user locked.addresses passKey session.userKeyring ∧
        session.HoldsKeyrings locked.addresses passKey) ∧
    (∀ error, locked.unlock number keyPass = .error error →
      keyPass.bytes.length = keySize → locked.user.keys ≠ [] →
      ∃ (passKey : Keyring) (id : String), keyPass.bytes = passKey.bytes ∧
        error = .crypto (.locked id) ∧ FirstShut locked.user locked.addresses passKey id) ∧
    (∀ addresses session, locked.addresses.Perm addresses →
      (locked.addresses.map (·.id)).Nodup → (locked.addresses.map (·.email)).Nodup →
      locked.unlock number keyPass = .ok session →
      ∃ other, ({ locked with addresses } : LockedSession).unlock number keyPass = .ok other ∧
        session.SameKeyrings other) := by
  have hexact : ∀ session, locked.unlock number keyPass = .ok session →
      ∃ passKey : Keyring, keyPass.bytes = passKey.bytes ∧
        OpensAll locked.user locked.addresses passKey session.userKeyring ∧
        session.HoldsKeyrings locked.addresses passKey := fun session h => by
    obtain ⟨unlocked, hunlock, -⟩ := unlock_eq_ok_iff.mp h
    obtain ⟨⟨passKey, hbytes⟩, -⟩ := exists_of_unlock hunlock
    exact ⟨passKey, hbytes, (holdsKeyrings_of_unlock hbytes h).2⟩
  refine ⟨⟨?_, ?_⟩, hexact, fun error herror hsize hkeys => ?_,
    fun addresses session => unlock_perm⟩
  · rintro ⟨session, h⟩
    obtain ⟨passKey, hbytes, hopens, -⟩ := hexact session h
    exact ⟨passKey, session.userKeyring, hbytes, hopens⟩
  · rintro ⟨passKey, ring, hbytes, hopens⟩
    exact unlock_of_opensAll hbytes hopens
  · obtain ⟨passKey, hbytes⟩ := exists_bytes_iff.mpr hsize
    rcases unlock_cases locked.addresses hbytes hkeys with ⟨unlocked, hok, -⟩ | ⟨id, hshut, hlocked⟩
    · rw [unlock_eq_ok_iff.mpr ⟨unlocked, hok, rfl⟩] at herror
      cases herror
    · rw [unlock_eq_error (isEmpty_of_bytes hbytes) hlocked] at herror
      cases herror
      exact ⟨passKey, id, hbytes, rfl, hshut⟩

/-! ### Three addresses -/

/-- The key of an address at work is sealed to the user key; of two, the first is inactive. -/
def workAddress (token : String) : Address :=
  ⟨"work", "dora@work", AddressType.primary, AddressStatus.enabled, 1,
    [⟨"retired", "", none, none, true, false⟩, ⟨"working", "", some token, none, false, true⟩]⟩

/-- The key of this one has no token, so the key pass opens it. -/
def homeAddress : Address :=
  ⟨"home", "dora@home", AddressType.secondary, AddressStatus.enabled, 2,
    [⟨"homely", (filled 1).sealMessage (filled 4).bytes (filled 1), none, none, true, true⟩]⟩

def bareAddress : Address :=
  ⟨"bare", "dora@bare", AddressType.secondary, AddressStatus.disabled, 3, []⟩

/-- A user with two keys, the second flagged, and three addresses. -/
def dora (token : String) : LockedSession where
  tokens := ⟨"uid", "access", "refresh"⟩
  user :=
    { id := "user", name := "dora", displayName := "Dora", email := "dora@home"
      keys := [⟨"old", "", false⟩,
        ⟨"main", (filled 1).sealMessage (filled 2).bytes (filled 1), true⟩]
      usedSpace := 0
      maxSpace := 0 }
  addresses := [workAddress token, homeAddress, bareAddress]

def workToken : String := (filled 2).sealMessage (filled 3).bytes (filled 2)

theorem primary_dora (token : String) : (dora token).user.IsPrimaryKey
    ⟨"main", (filled 1).sealMessage (filled 2).bytes (filled 1), true⟩ :=
  User.primaryKey?_eq_some_iff.mp rfl

theorem chosen_work (token : String) :
    (workAddress token).IsChosenKey ⟨"working", "", some token, none, false, true⟩ :=
  Address.activeKey?_eq_some_iff.mp rfl

theorem opensAll_dora :
    OpensAll (dora workToken).user (dora workToken).addresses (filled 1) (filled 2) := by
  refine ⟨⟨_, primary_dora _, openMessage_sealMessage (fits_bytes _)⟩, ?_⟩
  have hhome : homeAddress.IsChosenKey
      ⟨"homely", (filled 1).sealMessage (filled 4).bytes (filled 1), none, none, true, true⟩ :=
    Address.activeKey?_eq_some_iff.mp rfl
  simp only [dora, List.forall_mem_cons]
  refine ⟨fun key hkey => ⟨filled 3, ?_⟩, fun key hkey => ⟨filled 4, ?_⟩,
    fun key hkey => absurd hkey (Address.not_isChosenKey rfl key), nofun⟩
  · rw [hkey.unique (chosen_work _)]
    exact openMessage_sealMessage (fits_bytes _)
  · rw [hkey.unique hhome]
    exact openMessage_sealMessage (fits_bytes _)

/-- With a token that is no sealed message nothing opens, and the key that is named is its own. -/
theorem shuts_work : Shuts (filled 1) (filled 2) (workAddress "")
    ⟨"working", "", some "", none, false, true⟩ :=
  ⟨chosen_work "", nofun⟩

theorem firstShut_dora {id : String}
    (h : FirstShut (dora "").user (dora "").addresses (filled 1) id) : id = "working" := by
  have hopen : (filled 1).openMessage ((filled 1).sealMessage (filled 2).bytes (filled 1))
      (filled 1) = .ok (filled 2).bytes := openMessage_sealMessage (fits_bytes _)
  rcases h with ⟨hkey, hnone⟩ | ⟨hkey, hring, hfirst, hshut⟩
  · rw [hkey.unique (primary_dora "")] at hnone
    exact absurd hopen (hnone _)
  · rw [hkey.unique (primary_dora ""), hopen] at hring
    obtain rfl := bytes_inj (Except.ok.inj hring)
    obtain rfl := hfirst.unique (.here ⟨_, shuts_work⟩)
    rw [hshut.1.unique (chosen_work "")]

theorem unlock_exact_dora :
    (∃ session, (dora workToken).unlock 0 ⟨(filled 1).bytes⟩ = .ok session ∧
      session.userKeyring = filled 2 ∧ session.addressKeyring? "bare" = none ∧
      session.addressKeyringFor? "dora@home" = session.addressKeyring? "home" ∧
      ∃ other, ({ dora workToken with addresses := (dora workToken).addresses.reverse } :
          LockedSession).unlock 0 ⟨(filled 1).bytes⟩ = .ok other ∧ session.SameKeyrings other) ∧
    (dora "").unlock 0 ⟨(filled 1).bytes⟩ = .error (.crypto (.locked "working")) := by
  constructor
  · obtain ⟨hopens, hexact, -, hperm⟩ := unlock_exact (dora workToken) 0 ⟨(filled 1).bytes⟩
    obtain ⟨session, hsession⟩ := hopens.mpr ⟨filled 1, filled 2, rfl, opensAll_dora⟩
    obtain ⟨passKey, hbytes, hall, hholds⟩ := hexact session hsession
    obtain rfl := bytes_inj hbytes
    refine ⟨session, hsession, hall.ring_unique opensAll_dora, ?_,
      hholds.byEmail _ homeAddress (.later (by decide) (.here rfl)),
      hperm _ session (List.reverse_perm _).symm (by decide) (by decide) hsession⟩
    cases hbare : session.addressKeyring? "bare" with
    | none => rfl
    | some ring =>
      obtain ⟨address, hm, hid, key, hkey, -⟩ := (hholds.known "bare").mp ⟨ring, hbare⟩
      simp only [dora, List.mem_cons, List.not_mem_nil, or_false] at hm
      obtain rfl | rfl | rfl := hm
      · exact absurd hid (by decide)
      · exact absurd hid (by decide)
      · cases hkey
  · obtain ⟨hopens, -, hfails, -⟩ := unlock_exact (dora "") 0 ⟨(filled 1).bytes⟩
    cases hunlock : (dora "").unlock 0 ⟨(filled 1).bytes⟩ with
    | error error =>
      obtain ⟨passKey, id, hbytes, rfl, hshut⟩ :=
        hfails error hunlock (length_bytes _) (by decide)
      obtain rfl := bytes_inj hbytes
      rw [firstShut_dora hshut]
    | ok session =>
      obtain ⟨passKey, ring, hbytes, hall⟩ := hopens.mp ⟨session, hunlock⟩
      obtain rfl := bytes_inj hbytes
      have hnone : OpensAll (dora "").user [] (filled 1) (filled 2) :=
        ⟨⟨_, primary_dora "", openMessage_sealMessage (fits_bytes _)⟩, nofun⟩
      have hring := hall.ring_unique hnone
      obtain ⟨opened, hopened⟩ := hall.addresses _ List.mem_cons_self _ (chosen_work "")
      exact absurd hopened (hring ▸ shuts_work.2 opened)

end LockedSession
end SealedDrive
