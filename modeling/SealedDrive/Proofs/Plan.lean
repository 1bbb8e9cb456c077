import Mathlib.Data.List.Nodup
import SealedDrive.Server.Account

/-!
What an account is built to hold, told without any keys. A plan follows the calls of a builder: it
numbers the names that are given out, keeps the emails that were registered, and knows of every link
where it hangs and what it is called.
-/

namespace SealedDrive

/-- A call of whoever builds an account. -/
inductive Build where
  | address (email : String)
  | inactiveAddress (email : String)
  /-- A signer that the account knows nothing about. -/
  | foreignSigner (email : String)
  | volume
  | share (volumeId owner rootName : String)
  | link (shareId parentLinkId : String) (spec : LinkSpec)
  | trash (linkId : String)
  | deleteShare (shareId : String)

namespace Build

def apply (account : Account) : Build → Account
  | address email => (account.addAddress email).2
  | inactiveAddress email => (account.addInactiveAddress email).2
  | foreignSigner email => account.addForeignSigner email
  | volume => account.addVolume.2
  | share volumeId owner rootName => (account.addShare volumeId owner rootName).2
  | link shareId parentLinkId spec => (account.addLink shareId parentLinkId spec).2
  | trash linkId => account.trash linkId
  | deleteShare shareId => account.deleteShare shareId

end Build

/-- A link that was added to a share. -/
structure Entry where
  shareId : String
  linkId : String
  /-- Absent for the root of the share. -/
  parent : Option String
  name : String
  linkType : LinkType
  /-- Zero for a folder. -/
  size : Int64
  state : LinkState

/-- What is known of a link as it is added. -/
def Entry.ofSpec (shareId linkId : String) (parent : Option String) (spec : LinkSpec) : Entry where
  shareId := shareId
  linkId := linkId
  parent := parent
  name := spec.name
  linkType := spec.linkType
  size :=
    match spec.linkType with
    | .folder => 0
    | .file => spec.size
  state := spec.state

structure PlannedShare where
  id : String
  rootId : String
  owner : String

structure Plan where
  named : Nat := 0
  /-- The emails of the addresses in order, and whether the address was added active. -/
  registered : List (String × Bool) := []
  foreign : List String := []
  /-- Emails that own a share or sign something. -/
  used : List String := []
  shares : List PlannedShare := []
  /-- All links, in the order in which they were added. -/
  entries : List Entry := []

namespace Plan

/-- The name with a number. -/
def label (kind : String) (number : Nat) : String := kind ++ "-" ++ toString number

/-- The email belongs to exactly one address, which was added active, and to no stranger. -/
def Owns (plan : Plan) (email : String) : Prop :=
  plan.registered.filter (·.1 = email) = [(email, true)] ∧ email ∉ plan.foreign

/-- The emails that sign a link besides the owner of its share. -/
def signersOf (spec : LinkSpec) : List String := spec.signer.toList ++ spec.nameSigner.toList

/-- A name that the cipher takes whole. -/
def FitName (name : String) : Prop := Aead.Fits (Bytes.ofText name)

/-- What a call asks for: emails sign only while they are owned and are not registered again after
that, and links are put into folders that are there. -/
def Permits (plan : Plan) : Build → Prop
  | .address email | .inactiveAddress email | .foreignSigner email => email ∉ plan.used
  | .share _ owner rootName => plan.Owns owner ∧ FitName rootName
  | .link shareId parentLinkId spec => (∀ email ∈ signersOf spec, plan.Owns email) ∧
    FitName spec.name ∧ ∃ parent ∈ plan.entries, parent.shareId = shareId ∧
      parent.linkId = parentLinkId ∧ parent.linkType = .folder
  | .volume | .trash _ | .deleteShare _ => True

/-- The share that is added next. -/
def nextShare (plan : Plan) (owner : String) : PlannedShare :=
  ⟨label "share" (plan.named + 1), label "link" (plan.named + 2), owner⟩

def nextRoot (plan : Plan) (rootName : String) : Entry :=
  .ofSpec (label "share" (plan.named + 1)) (label "link" (plan.named + 2)) none (.folder rootName)

/-- The link that is added next. -/
def nextLink (plan : Plan) (shareId parentLinkId : String) (spec : LinkSpec) : Entry :=
  .ofSpec shareId (label "link" (plan.named + 1)) (some parentLinkId) spec

/-- What a call adds. -/
def step (plan : Plan) : Build → Plan
  | .address email =>
    { plan with named := plan.named + 1, registered := plan.registered ++ [(email, true)] }
  | .inactiveAddress email =>
    { plan with named := plan.named + 1, registered := plan.registered ++ [(email, false)] }
  | .foreignSigner email => { plan with foreign := email :: plan.foreign }
  | .volume => { plan with named := plan.named + 1 }
  | .share _ owner rootName =>
    { plan with
      named := plan.named + 2
      used := owner :: plan.used
      shares := plan.shares ++ [plan.nextShare owner]
      entries := plan.entries ++ [plan.nextRoot rootName] }
  | .link shareId parentLinkId spec =>
    { plan with
      named := plan.named + 1
      used := signersOf spec ++ plan.used
      entries := plan.entries ++ [plan.nextLink shareId parentLinkId spec] }
  | .trash linkId =>
    { plan with entries := plan.entries.map fun entry =>
        if entry.linkId = linkId then { entry with state := .trashed } else entry }
  | .deleteShare _ => plan

/-- The account of a user before any call: its first address is named after the user. -/
def start (username : String) : Plan :=
  step {} (.address
    (if username.toList.contains '@' then username else username ++ "@example.com"))

/-- What these calls add, one after the other. -/
def built (username : String) (calls : List Build) : Plan := calls.foldl step (start username)

/-- Every call is permitted when its turn comes. -/
def Allows : Plan → List Build → Prop
  | _, [] => True
  | plan, call :: rest => plan.Permits call ∧ (plan.step call).Allows rest

/-- The links under a folder, in the order in which they were added; trashed and deleted ones only
when all are asked for. -/
def children (plan : Plan) (shareId folderId : String) (all : Bool) : List Entry :=
  plan.entries.filter fun entry =>
    entry.shareId = shareId ∧ entry.parent = some folderId ∧ (all || !entry.state.isTrashed)

/-! ## Labels -/

theorem label_inj {kind : String} {m n : Nat} (h : label kind m = label kind n) : m = n := by
  have hd : Nat.toDigits 10 m = Nat.toDigits 10 n := by
    have hl := congrArg String.toList h
    simpa [label, String.toList_append, toString, Nat.repr_eq_ofList_toDigits] using hl
  rw [← Nat.ofDigitChars_toDigits (b := 10) (n := m) (by decide) (by decide), hd,
    Nat.ofDigitChars_toDigits (by decide) (by decide)]

/-- What was given out stays given out. -/
theorem label_mono {kind id : String} {m n : Nat} (h : ∃ k ≤ m, id = label kind k) (hmn : m ≤ n) :
    ∃ k ≤ n, id = label kind k := by
  obtain ⟨k, hk, he⟩ := h
  exact ⟨k, Nat.le_trans hk hmn, he⟩

/-- A later number makes a new name. -/
theorem label_ne {kind id : String} {m n : Nat} (h : ∃ k ≤ m, id = label kind k) (hmn : m < n) :
    id ≠ label kind n := by
  obtain ⟨k, hk, rfl⟩ := h
  intro he
  have := label_inj he
  omega

/-! ## What every plan keeps to -/

structure Sound (plan : Plan) : Prop where
  used : ∀ email ∈ plan.used, plan.Owns email
  owner : ∀ share ∈ plan.shares, share.owner ∈ plan.used
  shareIds : ∀ share ∈ plan.shares, ∃ n ≤ plan.named, share.id = label "share" n
  linkIds : ∀ entry ∈ plan.entries, ∃ n ≤ plan.named, entry.linkId = label "link" n
  nodup : (plan.entries.map (·.linkId)).Nodup
  shareOf : ∀ entry ∈ plan.entries, ∃ share ∈ plan.shares, share.id = entry.shareId
  root : ∀ share ∈ plan.shares, ∃ entry ∈ plan.entries, entry.shareId = share.id ∧
    entry.linkId = share.rootId ∧ entry.parent = none
  rootId : ∀ entry ∈ plan.entries, entry.parent = none → ∀ share ∈ plan.shares,
    share.id = entry.shareId → share.rootId = entry.linkId
  parent : ∀ {before entry after parentId}, plan.entries = before ++ entry :: after →
    entry.parent = some parentId → ∃ parent ∈ before, parent.shareId = entry.shareId ∧
      parent.linkId = parentId ∧ parent.linkType = .folder

theorem sound_empty : ({} : Plan).Sound where
  used _ h := by cases h
  owner _ h := by cases h
  shareIds _ h := by cases h
  linkIds _ h := by cases h
  nodup := List.nodup_nil
  shareOf _ h := by cases h
  root _ h := by cases h
  rootId _ h := by cases h
  parent h := by simp at h

theorem Sound.eq_of_id {plan : Plan} (hs : plan.Sound) {entry other : Entry}
    (he : entry ∈ plan.entries) (ho : other ∈ plan.entries) (h : entry.linkId = other.linkId) :
    entry = other :=
  List.inj_on_of_nodup_map hs.nodup he ho h

/-- Registering another email takes none away. -/
theorem Owns.register {plan : Plan} {email other : String} {isActive : Bool}
    (h : plan.Owns email) (hne : email ≠ other) (n : Nat) :
    Owns { plan with named := n, registered := plan.registered ++ [(other, isActive)] } email := by
  refine ⟨?_, h.2⟩
  rw [List.filter_append, h.1]
  simp [Ne.symm hne]

theorem Sound.rename {plan : Plan} (hs : plan.Sound) {n : Nat} (hn : plan.named ≤ n) :
    Sound { plan with named := n } :=
  { hs with
    shareIds := fun share hm => label_mono (hs.shareIds share hm) hn
    linkIds := fun entry hm => label_mono (hs.linkIds entry hm) hn }

theorem Sound.register {plan : Plan} (hs : plan.Sound) {email : String} (h : email ∉ plan.used)
    (isActive : Bool) :
    Sound { plan with
      named := plan.named + 1, registered := plan.registered ++ [(email, isActive)] } := by
  refine { hs.rename (Nat.le_succ _) with used := fun other hm => ?_ }
  exact (hs.used other hm).register (fun he : other = email => h (he ▸ hm)) _

/-- A new entry hangs below one that was there, or is the root of a new share. -/
theorem parent_append {entries : List Entry} {last : Entry}
    (hp : ∀ {before entry after parentId}, entries = before ++ entry :: after →
      entry.parent = some parentId → ∃ parent ∈ before, parent.shareId = entry.shareId ∧
        parent.linkId = parentId ∧ parent.linkType = .folder)
    (hl : ∀ parentId, last.parent = some parentId → ∃ parent ∈ entries,
      parent.shareId = last.shareId ∧ parent.linkId = parentId ∧ parent.linkType = .folder)
    {before after : List Entry} {entry : Entry} {parentId : String}
    (he : entries ++ [last] = before ++ entry :: after) (hpar : entry.parent = some parentId) :
    ∃ parent ∈ before, parent.shareId = entry.shareId ∧ parent.linkId = parentId ∧
      parent.linkType = .folder := by
  rcases List.eq_nil_or_concat after with rfl | ⟨after, final, rfl⟩
  · obtain ⟨rfl, hlast⟩ := List.append_inj' he rfl
    cases hlast
    exact hl parentId hpar
  · rw [List.concat_eq_append, ← List.cons_append, ← List.append_assoc] at he
    obtain ⟨hent, -⟩ := List.append_inj' he rfl
    exact hp hent hpar

/-- Trashing a link changes nothing else about it, and nothing about others. -/
theorem Sound.trash {plan : Plan} (hs : plan.Sound) (linkId : String) :
    (plan.step (.trash linkId)).Sound := by
  let change (entry : Entry) : Entry :=
    if entry.linkId = linkId then { entry with state := .trashed } else entry
  have hkeeps : ∀ entry, (change entry).shareId = entry.shareId ∧
      (change entry).linkId = entry.linkId ∧ (change entry).parent = entry.parent ∧
      (change entry).linkType = entry.linkType := by
    intro entry
    simp only [change]
    split <;> exact ⟨rfl, rfl, rfl, rfl⟩
  have hmem : ∀ {entry}, entry ∈ plan.entries.map change → ∃ e ∈ plan.entries, change e = entry :=
    List.mem_map.mp
  refine { hs with
    linkIds := ?_, nodup := ?_, shareOf := ?_, root := ?_, rootId := ?_, parent := ?_ }
  · intro entry hm
    obtain ⟨e, he, rfl⟩ := hmem hm
    rw [(hkeeps e).2.1]
    exact hs.linkIds e he
  · have hids : (plan.entries.map change).map (·.linkId) = plan.entries.map (·.linkId) := by
      rw [List.map_map]
      exact List.map_congr_left fun e _ => (hkeeps e).2.1
    exact hids ▸ hs.nodup
  · intro entry hm
    obtain ⟨e, he, rfl⟩ := hmem hm
    rw [(hkeeps e).1]
    exact hs.shareOf e he
  · intro share hm
    obtain ⟨e, he, h1, h2, h3⟩ := hs.root share hm
    exact ⟨change e, List.mem_map_of_mem he, (hkeeps e).1.trans h1, (hkeeps e).2.1.trans h2,
      (hkeeps e).2.2.1.trans h3⟩
  · intro entry hm hp share hsh hid
    obtain ⟨e, he, rfl⟩ := hmem hm
    rw [(hkeeps e).2.1]
    exact hs.rootId e he ((hkeeps e).2.2.1 ▸ hp) share hsh (hid.trans (hkeeps e).1)
  · intro before entry after parentId heq hp
    obtain ⟨before', rest, hsplit, rfl, hrest⟩ := List.map_eq_append_iff.mp heq
    obtain ⟨e, after', rfl, rfl, rfl⟩ := List.map_eq_cons_iff.mp hrest
    obtain ⟨parent, hpm, h1, h2, h3⟩ := hs.parent hsplit ((hkeeps e).2.2.1 ▸ hp)
    exact ⟨change parent, List.mem_map_of_mem hpm,
      (hkeeps parent).1.trans (h1.trans (hkeeps e).1.symm), (hkeeps parent).2.1.trans h2,
      (hkeeps parent).2.2.2.trans h3⟩

/-- A link under a new number has an id of its own. -/
theorem Sound.push {plan : Plan} (hs : plan.Sound) (entry : Entry) {n : Nat}
    (hn : plan.named < n) (hid : entry.linkId = label "link" n) :
    (∀ e ∈ plan.entries ++ [entry], ∃ k ≤ n, e.linkId = label "link" k) ∧
      ((plan.entries ++ [entry]).map (·.linkId)).Nodup := by
  constructor
  · intro e hm
    rcases List.mem_append.mp hm with hm | hm
    · exact label_mono (hs.linkIds e hm) (Nat.le_of_lt hn)
    · rw [List.mem_singleton.mp hm]
      exact ⟨n, Nat.le_refl n, hid⟩
  · rw [List.map_append, List.nodup_append]
    refine ⟨hs.nodup, by simp, fun id hm id' hm' he => ?_⟩
    obtain ⟨e, hmem, rfl⟩ := List.mem_map.mp hm
    rw [List.map_singleton, List.mem_singleton, hid] at hm'
    exact label_ne (hs.linkIds e hmem) hn (he.trans hm')

theorem Sound.addShare {plan : Plan} (hs : plan.Sound) {volumeId owner rootName : String}
    (h : plan.Owns owner) : (plan.step (.share volumeId owner rootName)).Sound := by
  have hold : ∀ share ∈ plan.shares, share.id ≠ label "share" (plan.named + 1) := by
    intro share hm
    exact label_ne (hs.shareIds share hm) (Nat.lt_succ_self _)
  obtain ⟨hids, hnodup⟩ := hs.push (plan.nextRoot rootName) (n := plan.named + 2) (by omega) rfl
  refine { hs.rename (Nat.le_add_right _ 2) with
    used := ?_, owner := ?_, shareIds := ?_, linkIds := hids, nodup := hnodup, shareOf := ?_,
    root := ?_, rootId := ?_, parent := parent_append hs.parent ?_ }
  · intro email hm
    rcases List.mem_cons.mp hm with rfl | hm
    · exact h
    · exact hs.used email hm
  · intro share hm
    rcases List.mem_append.mp hm with hm | hm
    · exact List.mem_cons_of_mem _ (hs.owner share hm)
    · rw [List.mem_singleton.mp hm]
      exact List.mem_cons_self
  · intro share hm
    rcases List.mem_append.mp hm with hm | hm
    · exact label_mono (hs.shareIds share hm) (Nat.le_add_right _ 2)
    · rw [List.mem_singleton.mp hm]
      exact ⟨plan.named + 1, Nat.le_succ _, rfl⟩
  · intro entry hm
    rcases List.mem_append.mp hm with hm | hm
    · obtain ⟨share, hsm, he⟩ := hs.shareOf entry hm
      exact ⟨share, List.mem_append_left _ hsm, he⟩
    · rw [List.mem_singleton.mp hm]
      exact ⟨plan.nextShare owner, List.mem_append_right _ List.mem_cons_self, rfl⟩
  · intro share hm
    rcases List.mem_append.mp hm with hm | hm
    · obtain ⟨entry, he, h1⟩ := hs.root share hm
      exact ⟨entry, List.mem_append_left _ he, h1⟩
    · rw [List.mem_singleton.mp hm]
      exact ⟨plan.nextRoot rootName, List.mem_append_right _ List.mem_cons_self, rfl, rfl, rfl⟩
  · intro entry hm hp share hsm hid
    rcases List.mem_append.mp hm with hm | hm <;> rcases List.mem_append.mp hsm with hsm | hsm
    · exact hs.rootId entry hm hp share hsm hid
    · obtain ⟨other, hom, ho⟩ := hs.shareOf entry hm
      rw [List.mem_singleton.mp hsm] at hid
      exact absurd (ho.trans hid.symm) (hold other hom)
    · rw [List.mem_singleton.mp hm] at hid
      exact absurd hid (hold share hsm)
    · rw [List.mem_singleton.mp hm, List.mem_singleton.mp hsm]
      rfl
  · rintro parentId ⟨⟩

theorem Sound.addLink {plan : Plan} (hs : plan.Sound) {shareId parentLinkId : String}
    {spec : LinkSpec} (h : plan.Permits (.link shareId parentLinkId spec)) :
    (plan.step (.link shareId parentLinkId spec)).Sound := by
  obtain ⟨hsigners, -, parent, hpm, hps, hpi, hpt⟩ := h
  obtain ⟨hids, hnodup⟩ :=
    hs.push (plan.nextLink shareId parentLinkId spec) (Nat.lt_succ_self plan.named) rfl
  refine { hs.rename (Nat.le_succ _) with
    used := ?_, owner := ?_, linkIds := hids, nodup := hnodup, shareOf := ?_, root := ?_,
    rootId := ?_, parent := parent_append hs.parent ?_ }
  · intro email hm
    rcases List.mem_append.mp hm with hm | hm
    · exact hsigners email hm
    · exact hs.used email hm
  · intro share hm
    exact List.mem_append_right _ (hs.owner share hm)
  · intro entry hm
    rcases List.mem_append.mp hm with hm | hm
    · exact hs.shareOf entry hm
    · rw [List.mem_singleton.mp hm]
      exact hps ▸ hs.shareOf parent hpm
  · intro share hm
    obtain ⟨entry, he, h1⟩ := hs.root share hm
    exact ⟨entry, List.mem_append_left _ he, h1⟩
  · intro entry hm hp
    rcases List.mem_append.mp hm with hm | hm
    · exact hs.rootId entry hm hp
    · rw [List.mem_singleton.mp hm] at hp
      cases hp
  · rintro parentId ⟨⟩
    exact ⟨parent, hpm, hps, hpi, hpt⟩

theorem Sound.step {plan : Plan} (hs : plan.Sound) {call : Build} (h : plan.Permits call) :
    (plan.step call).Sound := by
  cases call with
  | address email => exact hs.register h true
  | inactiveAddress email => exact hs.register h false
  | foreignSigner email =>
    refine { hs with used := fun other hm => ⟨(hs.used other hm).1, ?_⟩ }
    show other ∉ email :: plan.foreign
    rw [List.mem_cons, not_or]
    exact ⟨fun he => h (he ▸ hm), (hs.used other hm).2⟩
  | volume => exact hs.rename (Nat.le_succ _)
  | share volumeId owner rootName => exact hs.addShare h.1
  | link shareId parentLinkId spec => exact hs.addLink h
  | trash linkId => exact hs.trash linkId
  | deleteShare shareId => exact hs

theorem sound_start (username : String) : (start username).Sound :=
  sound_empty.step List.not_mem_nil

theorem Sound.steps {plan : Plan} (hs : plan.Sound) {calls : List Build} (h : plan.Allows calls) :
    (calls.foldl Plan.step plan).Sound := by
  induction calls generalizing plan with
  | nil => exact hs
  | cons call rest ih => exact ih (hs.step h.1) h.2

theorem sound_built {username : String} {calls : List Build} (h : (start username).Allows calls) :
    (built username calls).Sound := (sound_start username).steps h

end Plan
end SealedDrive
