import SealedDrive.Proofs.Ring
import SealedDrive.Proofs.Served

/-!
Listing a folder, record by record. The server is asked first; after that nothing is waited for, and
the records of its reply are taken in one after the other. The first record that is refused ends the
listing with its own error: what came before it stays in the tree, what comes after it is not looked
at.
-/

namespace SealedDrive

/-! ## Records -/

section

variable {ε ε' α β : Type} {error : ε'}

theorem bind_eq_error_iff {x : Except ε' α} {f : α → Except ε' β} :
    (x >>= f) = .error error ↔ x = .error error ∨ ∃ a, x = .ok a ∧ f a = .error error := by
  cases x with
  | ok a =>
    constructor
    · intro h
      exact .inr ⟨a, rfl, h⟩
    · rintro (h | ⟨_, ha, h⟩)
      · cases h
      · cases ha
        exact h
  | error e =>
    constructor
    · intro h
      cases h
      exact .inl rfl
    · rintro (h | ⟨_, h, -⟩)
      · cases h
        rfl
      · cases h

theorem mapError_eq_error_iff {x : Except ε α} {f : ε → ε'} :
    x.mapError f = .error error ↔ ∃ e, x = .error e ∧ f e = error := by
  cases x with
  | ok a =>
    constructor
    · intro h
      cases h
    · rintro ⟨_, h, -⟩
      cases h
  | error e =>
    constructor
    · intro h
      cases h
      exact ⟨e, rfl, rfl⟩
    · rintro ⟨_, h, he⟩
      cases h
      exact congrArg Except.error he

end

namespace Node

variable {session : Session} {keyring signer nodeKeyring : Keyring} {record : LinkRecord}
  {error : DriveError}

/-- The node key of a record opens with the keyring of the parent. -/
structure KeyOpens (session : Session) (keyring : Keyring) (record : LinkRecord)
    (signer nodeKeyring : Keyring) : Prop where
  signs : session.signerKeyring record.signatureEmail = .ok signer
  opens : Keyring.derive record.nodeKey keyring signer = .ok nodeKeyring

/-- The name of a record opens with the keyring of the parent. -/
structure NameOpens (session : Session) (keyring : Keyring) (record : LinkRecord)
    (signer : Keyring) (octets : Bytes) : Prop where
  signs : session.signerKeyring record.nameSignatureEmail = .ok signer
  opens : keyring.openMessage record.name signer = .ok octets

/-- Why no node comes of a record. Whatever fails first is the error, so each reason includes that
all before it was right. -/
inductive Fails (session : Session) (keyring : Keyring) (record : LinkRecord) : DriveError → Prop
  | signer {error : DriveError} :
    session.signerKeyring record.signatureEmail = .error error →
    Fails session keyring record error
  | nodeKey {signer : Keyring} {error : CryptoError} :
    session.signerKeyring record.signatureEmail = .ok signer →
    Keyring.derive record.nodeKey keyring signer = .error error →
    Fails session keyring record (.crypto error)
  | nameSigner {signer nodeKeyring : Keyring} {error : DriveError} :
    KeyOpens session keyring record signer nodeKeyring →
    session.signerKeyring record.nameSignatureEmail = .error error →
    Fails session keyring record error
  | name {signer nodeKeyring nameSigner : Keyring} {error : CryptoError} :
    KeyOpens session keyring record signer nodeKeyring →
    session.signerKeyring record.nameSignatureEmail = .ok nameSigner →
    keyring.openMessage record.name nameSigner = .error error →
    Fails session keyring record (.crypto error)
  | text {signer nodeKeyring nameSigner : Keyring} {octets : Bytes} :
    KeyOpens session keyring record signer nodeKeyring →
    NameOpens session keyring record nameSigner octets → Bytes.text? octets = none →
    Fails session keyring record
      (.crypto (.decrypt ("name of link " ++ record.linkId ++ " is not utf-8")))
  | properties {signer nodeKeyring nameSigner : Keyring} {octets : Bytes} {name : String} :
    KeyOpens session keyring record signer nodeKeyring →
    NameOpens session keyring record nameSigner octets → Bytes.text? octets = some name →
    record.linkType = .file → record.fileProperties = none →
    Fails session keyring record (.noFileProperties record.linkId)
  | contentKey {signer nodeKeyring nameSigner : Keyring} {octets : Bytes} {name : String}
    {properties : FileProperties} {error : CryptoError} :
    KeyOpens session keyring record signer nodeKeyring →
    NameOpens session keyring record nameSigner octets → Bytes.text? octets = some name →
    record.linkType = .file → record.fileProperties = some properties →
    Keyring.derive properties.contentKey nodeKeyring signer = .error error →
    Fails session keyring record (.crypto error)

theorem contents_eq_error_iff : contents record nodeKeyring signer = .error error ↔
    record.linkType = .file ∧
      ((record.fileProperties = none ∧ error = .noFileProperties record.linkId) ∨
        ∃ properties e, record.fileProperties = some properties ∧
          Keyring.derive properties.contentKey nodeKeyring signer = .error e ∧
          error = .crypto e) := by
  unfold contents
  cases record.linkType with
  | folder => simp
  | file =>
    cases record.fileProperties with
    | none => simp [eq_comm]
    | some properties =>
      cases hc : Keyring.derive properties.contentKey nodeKeyring signer with
      | ok content => simp [hc, Except.mapError, pure, Except.pure, bind, Except.bind]
      | error e => simp [hc, Except.mapError, bind, Except.bind, eq_comm]

/-- Once the key and the name are open, only the content can fail. -/
theorem derive_of_opens {parent : Option Nat} {nameSigner : Keyring} {octets : Bytes}
    {name : String} (hk : KeyOpens session keyring record signer nodeKeyring)
    (hn : NameOpens session keyring record nameSigner octets)
    (ht : Bytes.text? octets = some name) :
    derive session parent keyring record = (do
      let (contentKeyring, size, modifyTime) ← contents record nodeKeyring signer
      return { parent, record, name, size, modifyTime, nodeKeyring, contentKeyring }) := by
  simp [derive, hk.signs, hk.opens, hn.signs, hn.opens, ht, bind, Except.bind, Except.mapError]

/-- Deriving a node fails exactly for one of the reasons there are. -/
theorem derive_eq_error_iff {parent : Option Nat} :
    derive session parent keyring record = .error error ↔ Fails session keyring record error := by
  constructor
  · intro h
    rcases bind_eq_error_iff.mp h with h | ⟨signer, hs, h⟩
    · exact .signer h
    rcases bind_eq_error_iff.mp h with h | ⟨nodeKeyring, hk, h⟩
    · obtain ⟨e, he, rfl⟩ := mapError_eq_error_iff.mp h
      exact .nodeKey hs he
    have hkey : KeyOpens session keyring record signer nodeKeyring :=
      ⟨hs, mapError_eq_ok_iff.mp hk⟩
    rcases bind_eq_error_iff.mp h with h | ⟨nameSigner, hn, h⟩
    · exact .nameSigner hkey h
    rcases bind_eq_error_iff.mp h with h | ⟨octets, ho, h⟩
    · obtain ⟨e, he, rfl⟩ := mapError_eq_error_iff.mp h
      exact .name hkey hn he
    have hname : NameOpens session keyring record nameSigner octets :=
      ⟨hn, mapError_eq_ok_iff.mp ho⟩
    cases ht : Bytes.text? octets with
    | none =>
      simp only [ht] at h
      cases h
      exact .text hkey hname ht
    | some name =>
      simp only [ht] at h
      rcases bind_eq_error_iff.mp h with h | ⟨_, -, h⟩
      · cases h
      rcases bind_eq_error_iff.mp h with h | ⟨_, -, h⟩
      · obtain ⟨hfile, ⟨hp, rfl⟩ | ⟨properties, e, hp, hc, rfl⟩⟩ := contents_eq_error_iff.mp h
        · exact .properties hkey hname ht hfile hp
        · exact .contentKey hkey hname ht hfile hp hc
      · cases h
  · intro h
    cases h with
    | signer h => simp [derive, h, bind, Except.bind]
    | nodeKey hs h => simp [derive, hs, h, bind, Except.bind, Except.mapError]
    | nameSigner hk h => simp [derive, hk.signs, hk.opens, h, bind, Except.bind, Except.mapError]
    | name hk hs h =>
      simp [derive, hk.signs, hk.opens, hs, h, bind, Except.bind, Except.mapError]
    | text hk hn ht =>
      simp [derive, hk.signs, hk.opens, hn.signs, hn.opens, ht, bind, Except.bind, Except.mapError]
    | properties hk hn ht hfile hp =>
      rw [derive_of_opens hk hn ht]
      exact bind_eq_error_iff.mpr (.inl (contents_eq_error_iff.mpr ⟨hfile, .inl ⟨hp, rfl⟩⟩))
    | contentKey hk hn ht hfile hp hc =>
      rw [derive_of_opens hk hn ht]
      exact bind_eq_error_iff.mpr
        (.inl (contents_eq_error_iff.mpr ⟨hfile, .inr ⟨_, _, hp, hc, rfl⟩⟩))

end Node

namespace Share

variable {share : Share} {parent link : Link} {record : LinkRecord} {arena after : Arena}
  {error : DriveError}

/-- A record names the link it is taken in under, and all of it opens there. -/
structure Accepts (share : Share) (parent : Link) (record : LinkRecord) (node : Node) : Prop where
  named : record.parentLinkId = some parent.id
  opens : Node.derive share.session (some parent.handle) parent.node.nodeKeyring record = .ok node

/-- Why a record is not taken in under a link. -/
inductive Refuses (share : Share) (parent : Link) (record : LinkRecord) : DriveError → Prop
  | elsewhere : record.parentLinkId ≠ some parent.id →
    Refuses share parent record (.parentMismatch record.linkId (some parent.id))
  | fails {error : DriveError} : record.parentLinkId = some parent.id →
    Node.Fails share.session parent.node.nodeKeyring record error →
    Refuses share parent record error

theorem materialize_eq_ok_iff : share.materialize parent record arena = (.ok link, after) ↔
    share.Accepts parent record link.node ∧ arena.insert link.node = (link.handle, after) := by
  constructor
  · intro h
    obtain ⟨hn, hd, hi⟩ := materialize_ok h
    exact ⟨⟨hn, hd⟩, hi⟩
  · rintro ⟨ha, hi⟩
    rw [materialize_of_derive ha.named ha.opens, hi]

theorem materialize_eq_error_iff : share.materialize parent record arena = (.error error, after) ↔
    share.Refuses parent record error ∧ after = arena := by
  by_cases hn : record.parentLinkId = some parent.id
  · cases hd : Node.derive share.session (some parent.handle) parent.node.nodeKeyring record with
    | ok node =>
      rw [materialize_of_derive hn hd]
      constructor
      · intro h
        cases h
      · rintro ⟨hno | ⟨-, hf⟩, -⟩
        · exact absurd hn hno
        · rw [Node.derive_eq_error_iff.mpr hf] at hd
          cases hd
    | error e =>
      have hm : share.materialize parent record arena = (.error e, arena) := by
        have hn : record.parentLinkId = some parent.node.id := hn
        unfold materialize
        rw [if_neg (not_not_intro hn), hd]
      rw [hm]
      constructor
      · intro h
        cases h
        exact ⟨.fails hn (Node.derive_eq_error_iff.mp hd), rfl⟩
      · rintro ⟨hno | ⟨-, hf⟩, rfl⟩
        · exact absurd hn hno
        · rw [Node.derive_eq_error_iff.mpr hf] at hd
          cases hd
          rfl
  · have hm : share.materialize parent record arena =
        (.error (.parentMismatch record.linkId (some parent.id)), arena) := if_pos hn
    rw [hm]
    constructor
    · intro h
      cases h
      exact ⟨.elsewhere hn, rfl⟩
    · rintro ⟨hno | ⟨hyes, -⟩, rfl⟩
      · rfl
      · exact absurd hyes hn

end Share

/-! ## Trees -/

namespace Arena

variable {arena between after : Arena} {link : Link} {links : List Link}

/-- Put nodes in one after the other; each of them stands as a link from then on. -/
def insertAll (arena : Arena) : List Node → List Link × Arena
  | [] => ([], arena)
  | node :: rest =>
    let (handle, between) := arena.insert node
    let (links, after) := between.insertAll rest
    (⟨handle, node⟩ :: links, after)

/-- What has become of an arena into which the nodes of some links were put, in their order, and
nothing else was. -/
structure TookIn (arena : Arena) (links : List Link) (after : Arena) : Prop where
  inserted : arena.insertAll (links.map (·.node)) = (links, after)
  size_le : arena.size ≤ after.size
  elsewhere : ∀ {h}, h < arena.size → (∀ link ∈ links, link.handle ≠ h) →
    after.nodeAt h = arena.nodeAt h
  unnamed : ∀ {id}, (∀ link ∈ links, link.id ≠ id) → after.find? id = arena.find? id

theorem tookIn_nil (arena : Arena) : arena.TookIn [] arena :=
  ⟨rfl, Nat.le_refl _, fun _ _ => rfl, fun _ => rfl⟩

theorem tookIn_single (h : arena.insert link.node = (link.handle, after)) :
    arena.TookIn [link] after := by
  have hall : arena.insertAll [link.node] = ([link], after) := by
    simp only [insertAll, h]
  cases hf : arena.find? link.node.id with
  | some k =>
    rw [insert_of_known hf] at h
    obtain ⟨rfl, rfl⟩ := Prod.mk.inj h
    refine ⟨hall, Nat.le_of_eq (size_replace _ _ _).symm, fun hk hne => ?_,
      fun _ => find?_replace ..⟩
    rw [nodeAt_replace _ hk, if_neg (hne link (List.mem_singleton.mpr rfl)).symm]
  | none =>
    rw [insert_of_new hf] at h
    obtain ⟨-, rfl⟩ := Prod.mk.inj h
    refine ⟨hall, by simp [size_eq], fun {k} hk _ => ?_, fun {id} hne => ?_⟩
    · rw [size_eq] at hk
      cases k with
      | zero => rfl
      | succ k =>
        have hk' : k < arena.rest.length := by omega
        simp [nodeAt_succ, List.getElem?_append_left hk']
    · have hne : ¬ id = link.node.id := (hne link (List.mem_singleton.mpr rfl)).symm
      simp [find?, List.lookup_append, lookup_single, hne]

theorem insertAll_cons_eq_iff {nodes : List Node} :
    arena.insertAll (link.node :: nodes) = (link :: links, after) ↔
      ∃ between, arena.insert link.node = (link.handle, between) ∧
        between.insertAll nodes = (links, after) := by
  rcases hi : arena.insert link.node with ⟨handle, between⟩
  rcases hr : between.insertAll nodes with ⟨rest, last⟩
  simp only [insertAll, hi, hr, Prod.mk.injEq, List.cons.injEq]
  constructor
  · rintro ⟨⟨hl, rfl⟩, rfl⟩
    exact ⟨between, ⟨congrArg Link.handle hl, rfl⟩, hr⟩
  · rintro ⟨_, ⟨rfl, rfl⟩, h⟩
    rw [hr] at h
    cases h
    exact ⟨⟨rfl, rfl⟩, rfl⟩

theorem TookIn.cons (h : arena.insert link.node = (link.handle, between))
    (ht : between.TookIn links after) : arena.TookIn (link :: links) after := by
  have hone := tookIn_single h
  refine ⟨?_, Nat.le_trans hone.size_le ht.size_le, fun {k} hk hne => ?_, fun {id} hne => ?_⟩
  · exact insertAll_cons_eq_iff.mpr ⟨between, h, ht.inserted⟩
  · obtain ⟨hlink, hlinks⟩ := List.forall_mem_cons.mp hne
    rw [ht.elsewhere (Nat.lt_of_lt_of_le hk hone.size_le) hlinks,
      hone.elsewhere hk (List.forall_mem_singleton.mpr hlink)]
  · obtain ⟨hlink, hlinks⟩ := List.forall_mem_cons.mp hne
    rw [ht.unnamed hlinks, hone.unnamed (List.forall_mem_singleton.mpr hlink)]

/-- Whatever the nodes are, putting them in changes nothing else. -/
theorem tookIn_iff : arena.TookIn links after ↔
    arena.insertAll (links.map (·.node)) = (links, after) := by
  refine ⟨fun h => h.inserted, fun h => ?_⟩
  induction links generalizing arena with
  | nil =>
    obtain ⟨-, rfl⟩ := Prod.mk.inj h
    exact tookIn_nil arena
  | cons link rest ih =>
    obtain ⟨between, hi, hr⟩ := insertAll_cons_eq_iff.mp h
    exact .cons hi (ih hr)

theorem TookIn.uncons (h : arena.TookIn (link :: links) after) :
    ∃ between, arena.insert link.node = (link.handle, between) ∧ between.TookIn links after := by
  obtain ⟨between, hi, hr⟩ := insertAll_cons_eq_iff.mp h.inserted
  exact ⟨between, hi, tookIn_iff.mpr hr⟩

end Arena

/-! ## Replies -/

namespace Share

variable {share : Share} {parent link : Link} {record : LinkRecord} {records : List LinkRecord}
  {arena between after : Arena} {answer : Except DriveError (List Link)}

/-- How the records of a reply are taken in under a link, and what that answers. -/
inductive TakesIn (share : Share) (parent : Link) (records : List LinkRecord) (arena : Arena) :
    Except DriveError (List Link) → Arena → Prop
  | whole {links : List Link} {after : Arena} :
    List.Forall₂ (fun record link => share.Accepts parent record link.node) records links →
    arena.TookIn links after → TakesIn share parent records arena (.ok links) after
  | upTo {before rest : List LinkRecord} {record : LinkRecord} {links : List Link}
    {error : DriveError} {after : Arena} : records = before ++ record :: rest →
    List.Forall₂ (fun record link => share.Accepts parent record link.node) before links →
    share.Refuses parent record error →
    arena.TookIn links after → TakesIn share parent records arena (.error error) after

theorem TakesIn.cons (ha : share.Accepts parent record link.node)
    (hi : arena.insert link.node = (link.handle, between))
    (h : share.TakesIn parent records between answer after) :
    share.TakesIn parent (record :: records) arena (answer.map (link :: ·)) after := by
  cases h with
  | whole hr ht => exact .whole (.cons ha hr) (ht.cons hi)
  | upTo he hr hno ht => exact .upTo (congrArg (record :: ·) he) (.cons ha hr) hno (ht.cons hi)

theorem takesIn_nil_iff :
    share.TakesIn parent [] arena answer after ↔ answer = .ok [] ∧ after = arena := by
  constructor
  · intro h
    cases h with
    | whole hr ht =>
      cases hr
      exact ⟨rfl, (Prod.mk.inj ht.inserted).2.symm⟩
    | upTo he => simp at he
  · rintro ⟨rfl, rfl⟩
    exact .whole .nil (Arena.tookIn_nil after)

theorem takesIn_refused {error : DriveError} (h : share.Refuses parent record error) :
    share.TakesIn parent (record :: records) arena (.error error) arena :=
  .upTo (List.nil_append _).symm .nil h (Arena.tookIn_nil arena)

/-- The first record is refused, or it is taken in and the others after it. -/
theorem TakesIn.uncons (h : share.TakesIn parent (record :: records) arena answer after) :
    (∃ error, share.materialize parent record arena = (.error error, arena) ∧
      answer = .error error ∧ after = arena) ∨
    ∃ link between answer', share.materialize parent record arena = (.ok link, between) ∧
      share.TakesIn parent records between answer' after ∧ answer = answer'.map (link :: ·) := by
  cases h with
  | whole hr ht =>
    cases hr with
    | cons ha hr =>
      obtain ⟨between, hi, ht⟩ := ht.uncons
      exact .inr ⟨_, between, _, materialize_eq_ok_iff.mpr ⟨ha, hi⟩, .whole hr ht, rfl⟩
  | @upTo before rest _ links error _ he hr hno ht =>
    cases hr with
    | nil =>
      obtain ⟨rfl, rfl⟩ := List.cons.inj he
      have hafter : after = arena := (Prod.mk.inj ht.inserted).2.symm
      exact .inl ⟨error, materialize_eq_error_iff.mpr ⟨hno, rfl⟩, rfl, hafter⟩
    | cons ha hr =>
      obtain ⟨rfl, rfl⟩ := List.cons.inj he
      obtain ⟨between, hi, ht⟩ := ht.uncons
      exact .inr ⟨_, between, _, materialize_eq_ok_iff.mpr ⟨ha, hi⟩, .upTo rfl hr hno ht, rfl⟩

/-- A reply is taken in in one way only. -/
theorem TakesIn.unique {answer' : Except DriveError (List Link)} {after' : Arena}
    (h : share.TakesIn parent records arena answer after)
    (h' : share.TakesIn parent records arena answer' after') : answer = answer' ∧ after = after' := by
  induction records generalizing arena answer answer' with
  | nil =>
    obtain ⟨rfl, rfl⟩ := takesIn_nil_iff.mp h
    obtain ⟨rfl, rfl⟩ := takesIn_nil_iff.mp h'
    exact ⟨rfl, rfl⟩
  | cons record rest ih =>
    rcases h.uncons with ⟨error, hm, rfl, rfl⟩ | ⟨link, between, answer, hm, ht, rfl⟩
    · rcases h'.uncons with ⟨error', hm', rfl, rfl⟩ | ⟨link', between', answer', hm', -, -⟩
      · rw [hm] at hm'
        cases hm'
        exact ⟨rfl, rfl⟩
      · rw [hm] at hm'
        cases hm'
    · rcases h'.uncons with ⟨error', hm', -, -⟩ | ⟨link', between', answer', hm', ht', rfl⟩
      · rw [hm] at hm'
        cases hm'
      · rw [hm] at hm'
        cases hm'
        obtain ⟨rfl, rfl⟩ := ih ht ht'
        exact ⟨rfl, rfl⟩

end Share

/-! ## Turns -/

section

variable {σ τ α β : Type}

/-- An activity that never waits and never asks for its allowance. -/
inductive Activity.Waitless : Activity σ α → Prop
  | done (a : α) : Waitless (.done a)
  | read {next : σ → Activity σ α} : (∀ s, Waitless (next s)) → Waitless (.read next)
  | write {s : σ} {next : Activity σ α} : Waitless next → Waitless (.write s next)

theorem Activity.Waitless.withinFrom {p : Activity σ α} (h : p.Waitless) (watches : Bool)
    (budget : Nat) : p.withinFrom watches budget = p.map some := by
  induction h with
  | done a => rfl
  | read _ ih => exact congrArg Activity.read (funext ih)
  | write _ ih => exact congrArg (Activity.write _) ih

theorem Activity.Waitless.bind {p : Activity σ α} {f : α → Activity σ β} (h : p.Waitless)
    (hf : ∀ a, (f a).Waitless) : (p.bind f).Waitless := by
  induction h with
  | done a => exact hf a
  | read _ ih => exact .read ih
  | write _ ih => exact .write ih

/-- What takes no time may as well be done after the bound. -/
theorem Activity.withinFrom_bind {p : Activity σ α} {f : α → Activity σ β}
    (hf : ∀ a, (f a).Waitless) (watches : Bool) (budget : Nat) :
    (p.bind f).withinFrom watches budget = (p.withinFrom watches budget).bind fun
      | some a => (f a).map some
      | none => .done none := by
  induction p generalizing watches budget with
  | done a => exact (hf a).withinFrom watches budget
  | crash => rfl
  | read next ih => exact congrArg Activity.read (funext fun s => ih s watches budget)
  | write s next ih => exact congrArg (Activity.write s) (ih watches budget)
  | allowance takes next ih =>
    exact congrArg (Activity.allowance takes) (funext fun isLeft => ih isLeft watches budget)
  | wait millis leave next ih =>
    simp only [Activity.bind, Activity.withinFrom]
    split
    · rfl
    · split
      · exact congrArg (Activity.wait millis leave) (ih true (budget - millis))
      · rfl

/-- The bound of a session is over what waits; what takes no time comes after it. -/
theorem Session.bounded_bind {session : Session} {p : Activity σ (Except DriveError α)}
    {f : Except DriveError α → Activity σ (Except DriveError β)}
    (hf : ∀ r, (f r).Waitless) (he : ∀ error, f (.error error) = .done (.error error)) :
    session.bounded (p.bind f) = (session.bounded p).bind f := by
  unfold Session.bounded
  cases session.timeout with
  | none => rfl
  | some span =>
    refine congrArg (Activity.allowance false) (funext fun isLeft => ?_)
    show ((p.bind f).withinFrom isLeft span.millis).bind _ =
      ((p.withinFrom isLeft span.millis).bind _).bind f
    rw [Activity.withinFrom_bind hf, Activity.bind_assoc, Activity.bind_assoc]
    refine congrArg _ (funext fun answer => ?_)
    cases answer with
    | none => exact (he _).symm
    | some r => exact (Activity.bind_assoc _ _ _).trans (Activity.bind_done _)

/-! ### Parts that stay as they are -/

/-- A state that nobody changes. -/
def Discipline.unchanged (σ : Type) : Discipline σ σ where
  describes := (· = ·)
  step := (· = ·)
  refl _ := rfl
  trans := Eq.trans

/-- Whatever is done on the other part leaves this part as it is. -/
theorem Activity.meets_unchanged {s : σ} (p : Activity τ α) :
    (p.focus Prod.snd fun t (s : σ × τ) => (s.1, t)).Meets
      ((Discipline.unchanged σ).beside fun _ => True) True (fun _ _ => True) s :=
  (Activity.Meets.focus_snd (meets_standing_true p)).mono (fun h => h) fun _ _ _ _ => trivial

/-- Beside it an activity runs as it would alone. -/
theorem Activity.run_focus_snd (p : Activity τ α) (turn : Nat → τ → τ) (left : Nat) (s : σ)
    (t : τ) :
    (p.focus Prod.snd fun t (s : σ × τ) => (s.1, t)).run (fun millis s => (s.1, turn millis s.2))
        left (s, t) =
      ((p.run turn left t).1, (p.run turn left t).2.1, (s, (p.run turn left t).2.2)) := by
  induction p generalizing left t with
  | done a => rfl
  | crash => rfl
  | read next ih => exact ih t left t
  | write t' next ih => exact ih left t'
  | allowance takes next ih => exact ih _ _ t
  | wait millis leave next ih => exact ih _ _

theorem Activity.Meets.run_fst {p : Activity (σ × τ) α} {s : σ}
    (h : p.Meets ((Discipline.unchanged σ).beside fun _ => True) True (fun _ _ => True) s)
    {turn : Nat → σ × τ → σ × τ} (ht : ∀ millis s, (turn millis s).1 = s.1) (left : Nat) (t : τ) :
    (p.run turn left (s, t)).2.2.1 = s := by
  have hturn : ∀ millis, ((Discipline.unchanged σ).beside fun _ => True).Allows (turn millis) := by
    intro millis g s hs
    exact ⟨g, rfl, hs.1.trans (ht millis s).symm, trivial⟩
  have hstart : ((Discipline.unchanged σ).beside fun _ => True).describes s (s, t) :=
    ⟨rfl, trivial⟩
  obtain ⟨_, rfl, hd, -⟩ := h.run hturn left hstart
  exact hd.1.symm

end

/-! ## The listing -/

section

variable {τ : Type} {service : Service τ} {share : Share} {link : Link} {all : Bool}

/-- Ask for the records of a folder's children, under the bound of the session. -/
def Link.askChildren (service : Service τ) (share : Share) (link : Link) (all : Bool) :
    Activity (Arena × τ) (Except DriveError (List LinkRecord)) :=
  share.session.bounded
    (((service (.listChildren share.id link.id all)).focus Prod.snd fun t s => (s.1, t)).map
      fun reply => reply.mapError .api)

/-- The first record is taken in, then the rest unless it was refused. -/
theorem Share.carry_adoptAll_cons (record : LinkRecord) (rest : List LinkRecord) :
    ((record :: rest).mapM (share.adopt link)).run.carry service =
      ((share.adopt link record).run.carry service).bind fun
        | .ok first => ((rest.mapM (share.adopt link)).run.carry service).map fun links =>
          links.map (first :: ·)
        | .error error => .done (.error error) := by
  rw [List.mapM_cons]
  refine (Dialogue.carry_bind _ _ _).trans (congrArg _ (funext fun r => ?_))
  cases r with
  | error error => rfl
  | ok first =>
    refine (Dialogue.carry_bind _ _ _).trans (congrArg _ (funext fun r => ?_))
    cases r with
    | error error => rfl
    | ok links => rfl

theorem Share.waitless_adoptAll (records : List LinkRecord) :
    ((records.mapM (share.adopt link)).run.carry service).Waitless := by
  induction records with
  | nil => exact .done _
  | cons record rest ih =>
    rw [carry_adoptAll_cons]
    refine Activity.Waitless.bind (.read fun _ => .read fun _ => .write (.done _)) fun r => ?_
    cases r with
    | error error => exact .done _
    | ok first => exact ih.bind fun _ => .done _

theorem Share.run_adoptAll (records : List LinkRecord) (turn : Nat → Arena × τ → Arena × τ)
    (left : Nat) (arena : Arena) (server : τ) :
    ∃ answer after, share.TakesIn link records arena answer after ∧
      ((records.mapM (share.adopt link)).run.carry service).run turn left (arena, server) =
        (some answer, left, (after, server)) := by
  induction records generalizing arena with
  | nil => exact ⟨.ok [], arena, Share.takesIn_nil_iff.mpr ⟨rfl, rfl⟩, rfl⟩
  | cons record rest ih =>
    have hfirst : ((share.adopt link record).run.carry service).run turn left (arena, server) =
      (some (share.materialize link record arena).1, left,
        ((share.materialize link record arena).2, server)) := rfl
    rw [carry_adoptAll_cons, Activity.run_bind, hfirst]
    cases hm : share.materialize link record arena with
    | mk r between =>
      cases r with
      | error error =>
        obtain ⟨hno, rfl⟩ := materialize_eq_error_iff.mp hm
        exact ⟨.error error, _, Share.takesIn_refused hno, rfl⟩
      | ok first =>
        obtain ⟨ha, hi⟩ := materialize_eq_ok_iff.mp hm
        obtain ⟨answer, after, ht, hr⟩ := ih between
        refine ⟨answer.map (first :: ·), after, ht.cons ha hi, ?_⟩
        show (Activity.map _ _).run turn left (between, server) = _
        rw [Activity.map, Activity.run_bind, hr]
        rfl

/-- Listing a folder is asking for its records, then taking them in. -/
theorem Link.listChildren_eq (hf : link.isFolder = true) :
    Link.listChildren service share link all =
      (link.askChildren service share all).bind fun
        | .ok records => (records.mapM (share.adopt link)).run.carry service
        | .error error => .done (.error error) := by
  unfold Link.askChildren
  rw [← Session.bounded_bind]
  · unfold Link.listChildren
    rw [Link.children_folder hf]
    refine congrArg share.session.bounded (Eq.trans ?_ (Activity.bind_assoc _ _ _).symm)
    refine congrArg (Activity.bind _) (funext fun reply => ?_)
    cases reply with
    | error error => rfl
    | ok records => rfl
  · intro r
    cases r with
    | error error => exact .done _
    | ok records => exact Share.waitless_adoptAll records
  · exact fun _ => rfl

/-- Asking leaves the tree alone, when the others do. -/
theorem Link.run_askChildren_fst {turn : Nat → Arena × τ → Arena × τ}
    (ht : ∀ millis s, (turn millis s).1 = s.1) (left : Nat) (arena : Arena) (server : τ) :
    ((link.askChildren service share all).run turn left (arena, server)).2.2.1 = arena := by
  refine Activity.Meets.run_fst ?_ ht left server
  exact meets_bounded (.map (Activity.meets_unchanged _)) fun _ _ _ _ => trivial

/-- Listing a folder asks for its records, which leaves the tree alone. If that fails or the time is
up, this is the answer. The records of a reply are taken in in order, all of them or up to the first
that is refused, whose error is then the answer. -/
theorem Link.listChildren_takes_in (service : Service τ) (share : Share) {link : Link}
    (hf : link.isFolder = true) (all : Bool) (turn : Nat → Arena × τ → Arena × τ) (left : Nat)
    (arena : Arena) (server : τ) :
    ∃ reply left' arena' server',
      (link.askChildren service share all).run turn left (arena, server) =
        (reply, left', (arena', server')) ∧
      ((∀ millis s, (turn millis s).1 = s.1) → arena' = arena) ∧
      (reply = none → (Link.listChildren service share link all).run turn left (arena, server) =
        (none, left', (arena', server'))) ∧
      (∀ error, reply = some (.error error) →
        (Link.listChildren service share link all).run turn left (arena, server) =
          (some (.error error), left', (arena', server'))) ∧
      ∀ records, reply = some (.ok records) →
        ∃ answer after, share.TakesIn link records arena' answer after ∧
          (Link.listChildren service share link all).run turn left (arena, server) =
            (some answer, left', (after, server')) := by
  rw [Link.listChildren_eq hf, Activity.run_bind]
  rcases ha : (link.askChildren service share all).run turn left (arena, server) with
    ⟨reply, left', arena', server'⟩
  refine ⟨reply, left', arena', server', rfl, fun ht => ?_, ?_, ?_, ?_⟩
  · have hfst : ((link.askChildren service share all).run turn left (arena, server)).2.2.1 =
        arena := Link.run_askChildren_fst ht left arena server
    rw [ha] at hfst
    exact hfst
  · rintro rfl
    rfl
  · rintro error rfl
    rfl
  · rintro records rfl
    exact Share.run_adoptAll records turn left' arena' server'

end

namespace Ring

variable {root folder : Node}

/-- A server that lists, after a folder of the root, one that belongs below that folder. -/
def misplacing : Service Unit
  | .listChildren _ _ _ => .done (.ok [sealed "link-5" (some "link-4") "Papers",
      sealed "link-6" (some "link-5") "Notes"])
  | _ => .done (.error .unauthorized)

/-- The second record is refused, as it does not name the root. -/
theorem takesIn_misplacing (hr : Opens "link-4" none "Root" none root)
    (hf : Opens "link-5" (some "link-4") "Papers" (some 0) folder) :
    share.TakesIn ⟨0, root⟩ [sealed "link-5" (some "link-4") "Papers",
      sealed "link-6" (some "link-5") "Notes"] (.ofRoot root)
      (.error (.parentMismatch "link-6" (some "link-4"))) (arena root folder) := by
  obtain ⟨ha, hi⟩ := Share.materialize_eq_ok_iff.mp (materialize_folder hr hf)
  have hid : Link.id ⟨0, root⟩ = "link-4" := hr.id_eq
  have hno : share.Refuses ⟨0, root⟩ (sealed "link-6" (some "link-5") "Notes")
      (.parentMismatch "link-6" (some (Link.id ⟨0, root⟩))) :=
    .elsewhere (by rw [hid]; decide)
  rw [hid] at hno
  exact .cons ha hi (Share.takesIn_refused hno)

end Ring

/-- A folder of which the second record is refused: the first one stays in the tree. -/
theorem listChildren_takes_in_ring : ∃ root folder,
    Ring.Opens "link-4" none "Root" none root ∧
    Ring.Opens "link-5" (some "link-4") "Papers" (some 0) folder ∧
    (Link.listChildren Ring.misplacing Ring.share ⟨0, root⟩ true).run (fun _ => id)
        Activity.fullAllowance (.ofRoot root, ()) =
      (some (.error (.parentMismatch "link-6" (some "link-4"))), Activity.fullAllowance,
        (Ring.arena root folder, ())) := by
  have hfit : Plan.FitName "Root" ∧ Plan.FitName "Papers" := by
    simp only [Plan.FitName, Aead.Fits]
    decide
  obtain ⟨root, hr⟩ := Ring.exists_opens "link-4" none hfit.1 none
  obtain ⟨folder, hf⟩ := Ring.exists_opens "link-5" (some "link-4") hfit.2 (some 0)
  have hfolder : Link.isFolder ⟨0, root⟩ = true := hr.isFolder
  obtain ⟨reply, left, arena, server, hask, -, -, -, hrecords⟩ := Link.listChildren_takes_in
    Ring.misplacing Ring.share hfolder true (fun _ => id) Activity.fullAllowance (.ofRoot root) ()
  have hreply : (Link.askChildren Ring.misplacing Ring.share ⟨0, root⟩ true).run (fun _ => id)
      Activity.fullAllowance (.ofRoot root, ()) =
    (some (.ok [Ring.sealed "link-5" (some "link-4") "Papers",
      Ring.sealed "link-6" (some "link-5") "Notes"]), Activity.fullAllowance,
      (.ofRoot root, ())) := rfl
  rw [hreply] at hask
  cases hask
  obtain ⟨answer, after, ht, hrun⟩ := hrecords _ rfl
  obtain ⟨rfl, rfl⟩ := ht.unique (Ring.takesIn_misplacing hr hf)
  exact ⟨root, folder, hr, hf, hrun⟩

end SealedDrive
