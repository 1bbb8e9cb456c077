import Mathlib.Data.List.Basic
import SealedDrive.Proofs.Files
import SealedDrive.Proofs.Spelling

/-!
Tables of credentials: what is found after a change, and that a table reads back from the text it
is written as, whatever the account names and credentials are. Reading puts the entries in one by
one; a table is written in the order of its names, so each of them goes to the end.
-/

namespace SealedDrive

namespace Accounts

variable {accounts : Accounts} {name other : String} {credentials : Credentials}

/-! ## Lookups -/

theorem lookup_insertEntry (entries : List (String × Credentials)) :
    (insertEntry name credentials entries).lookup other =
      if other = name then some credentials else entries.lookup other := by
  induction entries with
  | nil => exact lookup_entry name other credentials []
  | cons entry rest ih =>
    obtain ⟨key, value⟩ := entry
    unfold insertEntry
    by_cases hlt : name < key
    · rw [if_pos hlt, lookup_entry]
    · rw [if_neg hlt]
      by_cases hkey : name = key
      · subst hkey
        rw [if_pos rfl, lookup_entry, lookup_entry]
        by_cases h : other = name
        · rw [if_pos h, if_pos h]
        · simp only [if_neg h]
      · rw [if_neg hkey, lookup_entry, lookup_entry, ih]
        by_cases h : other = name
        · have hne : other ≠ key := fun he => hkey (h.symm.trans he)
          simp only [if_pos h, if_neg hne]
        · simp only [if_neg h]

theorem find?_insert :
    (accounts.insert name credentials).find? other =
      if other = name then some credentials else accounts.find? other :=
  lookup_insertEntry accounts.entries

theorem find?_erase :
    (accounts.erase name).find? other = if other = name then none else accounts.find? other :=
  lookup_filter_ne accounts.entries name other

/-- Forgetting an account that has no credentials changes nothing. -/
theorem erase_of_not_contains (h : accounts.contains name = false) :
    accounts.erase name = accounts := by
  have hnone : accounts.entries.lookup name = none := Option.not_isSome_iff_eq_none.1 (by
    rw [← find?, ← contains, h]; decide)
  have hkeep : accounts.entries.filter (·.1 ≠ name) = accounts.entries := by
    refine List.filter_eq_self.2 fun entry hentry => decide_eq_true fun heq => ?_
    have hne := List.lookup_eq_none_iff.1 hnone entry hentry
    simp [heq] at hne
  cases accounts
  simp only [erase, mk.injEq]
  exact hkeep

/-! ## Reading back -/

/-- An entry behind all others goes to the end. -/
theorem insertEntry_of_lt {entries : List (String × Credentials)}
    (h : ∀ entry ∈ entries, entry.1 < name) :
    insertEntry name credentials entries = entries ++ [(name, credentials)] := by
  induction entries with
  | nil => rfl
  | cons entry rest ih =>
    have hlt := h entry List.mem_cons_self
    have hge : ¬name < entry.1 := fun hgt => String.lt_irrefl _ (String.lt_trans hlt hgt)
    have hne : name ≠ entry.1 := fun heq => String.lt_irrefl _ (heq ▸ hlt)
    rw [insertEntry, if_neg hge, if_neg hne,
      ih fun entry hentry => h entry (List.mem_cons_of_mem _ hentry)]
    rfl

end Accounts

/-- The four fields are there once each, under their names. -/
theorem Credentials.ofObject?_toObject (credentials : Credentials) {level : Nat}
    (h : level ≤ Json.depthLimit) :
    Credentials.ofObject? level credentials.toObject = some credentials := by
  have hslots : credentials.toObject.flatSlots? level ["salted_key_pass"] Tokens.names =
      some [.given (.text credentials.saltedKeyPass), .given (.text credentials.tokens.uid),
        .given (.text credentials.tokens.accessToken),
        .given (.text credentials.tokens.refreshToken)] := by
    simp [toObject, Json.record, Tokens.fields, Json.flatSlots?, Tokens.names, Json.slotsOf,
      Json.text, Json.isSound, Json.depth, h]
  rw [ofObject?, hslots]
  rfl

theorem Credentials.isLegible_toObject (credentials : Credentials) :
    credentials.toObject.isLegible = true := rfl

namespace Accounts

theorem isLegible_toObject (accounts : Accounts) : accounts.toObject.isLegible = true := by
  show Json.isLegibleMembers ((accounts.entries.map _).map _) = true
  induction accounts.entries with
  | nil => rfl
  | cons entry rest ih =>
    have hentry : (toJson entry.2 : Json).isLegible = true := entry.2.isLegible_toObject
    simpa only [List.map_cons, Json.isLegibleMembers, Option.isSome_some, hentry,
      Bool.true_and] using ih

theorem addMembers_entries {rest : List (String × Credentials)}
    (h : (accounts.entries ++ rest).Pairwise fun a b => a.1 < b.1) :
    addMembers accounts ((rest.map fun (name, credentials) => (name, toJson credentials)).map
        fun (name, value) => (some name, value)) =
      some ⟨accounts.entries ++ rest, h⟩ := by
  induction rest generalizing accounts with
  | nil => simp [addMembers]
  | cons entry rest ih =>
    obtain ⟨name, credentials⟩ := entry
    have hlast : (accounts.insert name credentials).entries =
        accounts.entries ++ [(name, credentials)] :=
      insertEntry_of_lt fun entry hentry =>
        (List.pairwise_append.1 h).2.2 entry hentry _ List.mem_cons_self
    have hread : Credentials.ofObject? 2 (toJson credentials) = some credentials :=
      credentials.ofObject?_toObject (by decide)
    have hrest : ((accounts.insert name credentials).entries ++ rest).Pairwise
        fun a b => a.1 < b.1 := by
      rw [hlast, List.append_assoc]
      exact h
    have ih := ih hrest
    simp only [List.map_cons, addMembers, hread, Option.bind_eq_bind, Option.bind_some]
    rw [ih]
    simp only [hlast, List.append_assoc, List.singleton_append]

theorem ofObject?_toObject (accounts : Accounts) :
    Accounts.ofObject? accounts.toObject = some accounts :=
  @addMembers_entries empty _ accounts.sorted

end Accounts

namespace Store

/-- A table is never written as blanks only: its text starts with a brace. -/
theorem not_blank_tableText (accounts : Accounts) :
    (Bytes.ofText (tableText accounts)).all isBlankOctet = false := by
  have hbrace : ∃ text, (toJson accounts : Json).pretty = "\x7b" ++ text := by
    have hlines : ∃ s, Json.writeLines 0 accounts.toObject = '\x7b' :: s := by
      unfold Accounts.toObject Json.record
      cases (accounts.entries.map _).map _ with
      | nil => exact ⟨_, rfl⟩
      | cons member rest => exact ⟨_, rfl⟩
    obtain ⟨s, hs⟩ := hlines
    exact ⟨String.ofList s, (congrArg String.ofList hs).trans String.ofList_cons⟩
  obtain ⟨text, htext⟩ := hbrace
  have hfirst : Bytes.ofText "\x7b" = [123] := by decide
  have happend (a b : String) : Bytes.ofText (a ++ b) = Bytes.ofText a ++ Bytes.ofText b := by
    simp [Bytes.ofText, String.toUTF8]
  rw [tableText, htext, happend, happend, hfirst]
  rfl

theorem tableOf_tableText (accounts : Accounts) :
    tableOf (Bytes.ofText (tableText accounts)) = .ok accounts := by
  have hread : Json.read? (tableText accounts) = some accounts.toObject :=
    Json.read?_pretty accounts.isLegible_toObject
  have hform : (ofJson? accounts.toObject : Option Accounts) = some accounts :=
    accounts.ofObject?_toObject
  rw [tableOf, not_blank_tableText, Bytes.text?_ofText, Option.bind_some, hread, Option.bind_some,
    hform]
  rfl

end Store

end SealedDrive
