import SealedDrive.Drive.Link
import SealedDrive.Proofs.Arena

/-!
What a derived node is made of. A node carries nothing but what its record holds and what its
parent's keyring opened; a record is taken into the tree exactly when all of it opens.
-/

namespace SealedDrive

/-! ## Errors that end a computation -/

theorem bind_eq_ok_iff {ε α β : Type} {x : Except ε α} {f : α → Except ε β} {b : β} :
    (x >>= f) = .ok b ↔ ∃ a, x = .ok a ∧ f a = .ok b := by
  cases x with
  | ok a =>
    constructor
    · intro h
      exact ⟨a, rfl, h⟩
    · rintro ⟨_, ha, h⟩
      cases ha
      exact h
  | error e =>
    constructor
    · intro h
      cases h
    · rintro ⟨_, h, -⟩
      cases h

@[simp]
theorem mapError_eq_ok_iff {ε ε' α : Type} {x : Except ε α} {f : ε → ε'} {a : α} :
    x.mapError f = .ok a ↔ x = .ok a := by
  cases x with
  | ok b =>
    constructor
    · intro h
      cases h
      rfl
    · intro h
      cases h
      rfl
  | error e =>
    constructor
    · intro h
      cases h
    · intro h
      cases h

/-- A computation fails in no other way. -/
def FailsIn {ε α : Type} (E : ε → Prop) (x : Except ε α) : Prop :=
  ∀ error, x = .error error → E error

section

variable {ε α β : Type} {E : ε → Prop}

theorem failsIn_ok (a : α) : FailsIn E (.ok a : Except ε α) := fun _ h => by cases h

theorem failsIn_error {error : ε} (h : E error) : FailsIn E (.error error : Except ε α) :=
  fun _ he => by cases he; exact h

theorem FailsIn.bind {x : Except ε α} {f : α → Except ε β} (hx : FailsIn E x)
    (hf : ∀ a, FailsIn E (f a)) : FailsIn E (x >>= f) := by
  cases x with
  | ok a => exact hf a
  | error error => exact failsIn_error (hx error rfl)

end

/-! ## Nodes -/

/-- Whether a share that does not load may fail like this: a request failed, a key is missing or
does not open, or the replies do not fit. -/
def DriveError.isOfLoad : DriveError → Bool
  | .api _ | .keyNotFound _ | .crypto _ | .unexpectedRoot _ _ _ | .noFileProperties _ => true
  | _ => false

theorem failsIn_crypto {α : Type} (x : Except CryptoError α) :
    FailsIn (·.isOfLoad = true) (x.mapError DriveError.crypto) := by
  cases x with
  | ok a => exact failsIn_ok a
  | error error => exact failsIn_error rfl

theorem Session.signerKeyring_failsIn (session : Session) (email : String) :
    FailsIn (·.isOfLoad = true) (session.signerKeyring email) := by
  unfold Session.signerKeyring
  split
  · exact failsIn_error rfl
  · split
    · exact failsIn_error rfl
    · exact failsIn_ok _

namespace Node

variable {session : Session} {parent : Option Nat} {keyring signer : Keyring}
  {record : LinkRecord} {node : Node}

/-- The content keyring of a link: the node keyring of a folder, and what a file wraps under it. -/
def ContentOf (record : LinkRecord) (nodeKeyring signer content : Keyring) : Prop :=
  match record.linkType with
  | .folder => content = nodeKeyring
  | .file => ∃ properties, record.fileProperties = some properties ∧
      Keyring.derive properties.contentKey nodeKeyring signer = .ok content

/-- All that a node carries was opened by a keyring and checked against the signers that its record
names. -/
structure Verified (session : Session) (keyring : Keyring) (node : Node) : Prop where
  nodeKeyring : ∃ signer, session.signerKeyring node.record.signatureEmail = .ok signer ∧
    Keyring.derive node.record.nodeKey keyring signer = .ok node.nodeKeyring ∧
    ContentOf node.record node.nodeKeyring signer node.contentKeyring
  name : ∃ signer octets, session.signerKeyring node.record.nameSignatureEmail = .ok signer ∧
    keyring.openMessage node.record.name signer = .ok octets ∧
    Bytes.text? octets = some node.name

/-- The size and the time of a link, for a file those of its active revision. -/
def measures (record : LinkRecord) : Int64 × Int64 :=
  match record.linkType, record.fileProperties with
  | .file, some properties =>
    (properties.activeRevision.size, properties.activeRevision.createTime)
  | _, _ => (record.size, record.modifyTime)

theorem contents_eq_ok_iff {nodeKeyring content : Keyring} {size time : Int64} :
    contents record nodeKeyring signer = .ok (content, size, time) ↔
      ContentOf record nodeKeyring signer content ∧ measures record = (size, time) := by
  unfold contents ContentOf measures
  cases record.linkType with
  | folder => simp [eq_comm]
  | file =>
    cases record.fileProperties with
    | none => simp
    | some properties =>
      simp only [bind_eq_ok_iff, mapError_eq_ok_iff, pure, Except.pure, Except.ok.injEq,
        Prod.mk.injEq, Option.some.injEq, exists_eq_left']
      constructor
      · rintro ⟨a, ha, rfl, rfl, rfl⟩
        exact ⟨ha, rfl, rfl⟩
      · rintro ⟨ha, rfl, rfl⟩
        exact ⟨content, ha, rfl, rfl, rfl⟩

theorem contents_failsIn (record : LinkRecord) (nodeKeyring signer : Keyring) :
    FailsIn (·.isOfLoad = true) (contents record nodeKeyring signer) := by
  unfold contents
  split
  · exact failsIn_ok _
  · split
    · exact failsIn_error rfl
    · exact (failsIn_crypto _).bind fun _ => failsIn_ok _

theorem derive_failsIn (session : Session) (parent : Option Nat) (keyring : Keyring)
    (record : LinkRecord) :
    FailsIn (·.isOfLoad = true) (derive session parent keyring record) := by
  refine (session.signerKeyring_failsIn _).bind fun signer => ?_
  refine (failsIn_crypto _).bind fun nodeKeyring => ?_
  refine (session.signerKeyring_failsIn _).bind fun nameSigner => ?_
  refine (failsIn_crypto _).bind fun octets => ?_
  split
  · exact (contents_failsIn _ _ _).bind fun _ => failsIn_ok _
  · exact failsIn_error rfl

/-- Deriving a node succeeds exactly with a verified node of the record. -/
theorem derive_eq_ok_iff :
    derive session parent keyring record = .ok node ↔
      node.parent = parent ∧ node.record = record ∧
        (node.size, node.modifyTime) = measures record ∧ node.Verified session keyring := by
  simp only [derive, bind_eq_ok_iff, mapError_eq_ok_iff]
  constructor
  · rintro ⟨signer, hs, nodeKeyring, hk, nameSigner, hn, octets, ho, h⟩
    cases ht : Bytes.text? octets with
    | none =>
      rw [ht] at h
      obtain ⟨_, he, -⟩ := bind_eq_ok_iff.mp h
      cases he
    | some name =>
      rw [ht] at h
      obtain ⟨_, he, h⟩ := bind_eq_ok_iff.mp h
      cases he
      obtain ⟨⟨content, size, time⟩, hc, h⟩ := bind_eq_ok_iff.mp h
      cases h
      obtain ⟨hc, hm⟩ := contents_eq_ok_iff.mp hc
      exact ⟨rfl, rfl, hm.symm, ⟨signer, hs, hk, hc⟩, ⟨nameSigner, octets, hn, ho, ht⟩⟩
  · rintro ⟨rfl, rfl, hm, ⟨signer, hs, hk, hc⟩, ⟨nameSigner, octets, hn, ho, ht⟩⟩
    refine ⟨signer, hs, _, hk, nameSigner, hn, octets, ho, ?_⟩
    rw [ht]
    refine bind_eq_ok_iff.mpr ⟨_, rfl, bind_eq_ok_iff.mpr
      ⟨(node.contentKeyring, node.size, node.modifyTime), ?_, rfl⟩⟩
    exact contents_eq_ok_iff.mpr ⟨hc, hm.symm⟩

/-- The handle of the parent has no part in the derivation. -/
theorem derive_parent (session : Session) (parent : Option Nat) (keyring : Keyring)
    (record : LinkRecord) :
    derive session parent keyring record =
      (derive session none keyring record).map ({ · with parent }) := by
  simp only [derive]
  cases session.signerKeyring record.signatureEmail with
  | error e => rfl
  | ok signer =>
  cases hk : (Keyring.derive record.nodeKey keyring signer).mapError DriveError.crypto with
  | error e => simp only [hk, bind, Except.bind, Except.map]
  | ok nodeKeyring =>
  cases session.signerKeyring record.nameSignatureEmail with
  | error e => simp only [hk, bind, Except.bind, Except.map]
  | ok nameSigner =>
  cases ho : (keyring.openMessage record.name nameSigner).mapError DriveError.crypto with
  | error e => simp only [hk, ho, bind, Except.bind, Except.map]
  | ok octets =>
  cases ht : Bytes.text? octets with
  | none => simp only [hk, ho, ht, bind, Except.bind, Except.map]
  | some name =>
  cases hc : contents record nodeKeyring signer with
  | error e => simp only [hk, ho, ht, hc, bind, Except.bind, Except.map]
  | ok content =>
    simp only [hk, ho, ht, hc, bind, Except.bind, Except.map, pure, Except.pure]

end Node

/-! ## Taking a record in -/

namespace Share

variable {share : Share} {parent link : Link} {record : LinkRecord} {arena after : Arena}

theorem materialize_ok (h : share.materialize parent record arena = (.ok link, after)) :
    record.parentLinkId = some parent.id ∧
      Node.derive share.session (some parent.handle) parent.node.nodeKeyring record =
        .ok link.node ∧ arena.insert link.node = (link.handle, after) := by
  unfold materialize at h
  split at h
  · cases h
  next hp =>
  split at h
  · cases h
  next node hd =>
  cases h
  exact ⟨Classical.not_not.mp hp, hd, rfl⟩

/-- A record that names its parent and opens is taken in. -/
theorem materialize_of_derive {node : Node} (hp : record.parentLinkId = some parent.id)
    (hd : Node.derive share.session (some parent.handle) parent.node.nodeKeyring record =
      .ok node) :
    share.materialize parent record arena =
      (.ok ⟨(arena.insert node).1, node⟩, (arena.insert node).2) := by
  have hp : record.parentLinkId = some parent.node.id := hp
  unfold materialize
  rw [if_neg (not_not_intro hp), hd]

/-- A record that is refused leaves the tree as it is. -/
theorem materialize_error {error : DriveError}
    (h : share.materialize parent record arena = (.error error, after)) : after = arena := by
  unfold materialize at h
  split at h
  · cases h; rfl
  split at h
  · cases h; rfl
  · cases h

end Share
end SealedDrive
