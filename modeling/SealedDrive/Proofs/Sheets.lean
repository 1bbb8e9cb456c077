import SealedDrive.Proofs.Numerals
import SealedDrive.Proofs.Quoting
import SealedDrive.Toml.Sheet

/-!
A sheet that was written reads back as its table, and so does what is left of it when entries or
sections are left out of the text. A document is a row of pieces, and each of them reads back
whatever comes behind it; the statements that were read then make up the table one after the other,
since no name comes twice at one place.
-/

namespace SealedDrive.Toml

/-! ## Values -/

theorem writeText_eq_cons (cs : List Char) :
    ∃ c s, writeText cs = c :: s ∧ (c = '"' ∨ c = '\x27') := by
  unfold writeText
  split
  · exact ⟨_, _, rfl, .inl rfl⟩
  · exact ⟨_, _, rfl, .inr rfl⟩
  · exact ⟨_, _, rfl, .inl rfl⟩
  · exact ⟨_, _, rfl, .inr rfl⟩

theorem readValue_of_first {c : Char} (hc : c ∉ ['t', 'f', '[', '\x7b']) (fuel depth : Nat)
    (s : List Char) :
    readValue (fuel + 1) depth (c :: s) =
      match readText (c :: s) with
      | some (cs, rest) => some (.text (String.ofList cs), rest)
      | none => readNumber (c :: s) := by
  simp only [List.mem_cons, List.not_mem_nil, or_false, not_or] at hc
  obtain ⟨htrue, hfalse, harray, htable⟩ := hc
  exact readValue.eq_6 _ _ _ (fun _ h => htrue (List.cons.inj h).1)
    (fun _ h => hfalse (List.cons.inj h).1) (fun _ h => harray (List.cons.inj h).1)
    fun _ h => htable (List.cons.inj h).1

theorem readValue_text (value : String) (fuel depth : Nat) (rest : List Char) :
    readValue (fuel + 1) depth (writeText value.toList ++ '\n' :: rest) =
      some (.text value, '\n' :: rest) := by
  obtain ⟨c, s, hc, hmark⟩ := writeText_eq_cons value.toList
  have hread : readText (writeText value.toList ++ '\n' :: rest) = _ :=
    readText_write value.toList (by simp) (by simp)
  rw [hc, List.cons_append] at hread
  rw [hc, List.cons_append, readValue_of_first (by rcases hmark with rfl | rfl <;> decide), hread]
  simp only [String.ofList_toList]

theorem readValue_integer {value : Int} (h : isInRange value = true) (fuel depth : Nat)
    (rest : List Char) :
    readValue (fuel + 1) depth ((toString value).toList ++ '\n' :: rest) =
      some (.integer value, '\n' :: rest) := by
  obtain ⟨c, s, hc, hfirst⟩ := writeInteger_eq_cons value
  have hne {d : Char} (hd : d ≠ '-' ∧ isDigit d = false) : c ≠ d := by
    rintro rfl
    simp [hd] at hfirst
  have hread := readNumber_write h rest
  rw [hc, List.cons_append] at hread
  have htext : readText (c :: (s ++ '\n' :: rest)) = none := by
    rw [readText.eq_3 _ (fun _ h => hne (by decide) (List.cons.inj h).1)
      fun _ h => hne (by decide) (List.cons.inj h).1]
    exact readShortText.eq_3 _ (fun _ h => hne (by decide) (List.cons.inj h).1)
      fun _ h => hne (by decide) (List.cons.inj h).1
  have hstart : c ∉ ['t', 'f', '[', '\x7b'] := by
    simp only [List.mem_cons, List.not_mem_nil, or_false, not_or]
    exact ⟨hne (by decide), hne (by decide), hne (by decide), hne (by decide)⟩
  rw [hc, List.cons_append, readValue_of_first hstart, htext, hread]

/-- A value reads back up to the end of its line. -/
theorem readValue_write {value : Scalar} (h : value.isWritable = true) (fuel depth : Nat)
    (rest : List Char) :
    readValue (fuel + 1) depth (value.write ++ '\n' :: rest) =
      some (value.toToml, '\n' :: rest) := by
  cases value with
  | text value => exact readValue_text value fuel depth rest
  | integer value => exact readValue_integer h fuel depth rest

theorem skipBlanks_write (value : Scalar) (rest : List Char) :
    skipBlanks (value.write ++ rest) = value.write ++ rest := by
  obtain ⟨c, s, hc, hblank⟩ : ∃ c s, value.write = c :: s ∧ isBlank c = false := by
    cases value with
    | text value =>
      obtain ⟨c, s, hc, hmark⟩ := writeText_eq_cons value.toList
      exact ⟨c, s, hc, by rcases hmark with rfl | rfl <;> decide⟩
    | integer value =>
      obtain ⟨c, s, hc, hfirst⟩ := writeInteger_eq_cons value
      refine ⟨c, s, hc, ?_⟩
      have hne {d : Char} (hd : d ≠ '-' ∧ isDigit d = false) : c ≠ d := by
        rintro rfl
        simp [hd] at hfirst
      simp [isBlank, hne (d := ' ') (by decide), hne (d := '\t') (by decide)]
  rw [hc]
  exact List.dropWhile_cons_of_neg (by simp [hblank])

/-! ## Names -/

/-- A name that needs no marks around it. -/
def IsBareName (name : String) : Prop := name ≠ "" ∧ name.toList.all isBare = true

instance (name : String) : Decidable (IsBareName name) := inferInstanceAs (Decidable (_ ∧ _))

section

variable {name : String} {c : Char} {rest : List Char}

theorem ne_of_isBare (hc : isBare c = true) {d : Char} (hd : isBare d = false) : c ≠ d :=
  ne_of_apply_ne isBare (by rw [hc, hd]; decide)

theorem IsBareName.isBare_of_mem (h : IsBareName name) : ∀ c ∈ name.toList, isBare c = true :=
  List.all_eq_true.1 h.2

theorem IsBareName.eq_cons (h : IsBareName name) :
    ∃ c s, name.toList = c :: s ∧ isBare c = true := by
  obtain ⟨c, s, hc⟩ := List.exists_cons_of_ne_nil (by simpa using h.1 : name.toList ≠ [])
  exact ⟨c, s, hc, h.isBare_of_mem c (by simp [hc])⟩

theorem skipBlanks_of_ne {c : Char} (h : isBlank c = false) (s : List Char) :
    skipBlanks (c :: s) = c :: s :=
  List.dropWhile_cons_of_neg (by simp [h])

theorem skipBlanks_name (h : IsBareName name) (s : List Char) :
    skipBlanks (name.toList ++ s) = name.toList ++ s := by
  obtain ⟨c, name, hc, hbare⟩ := h.eq_cons
  have hblank : isBlank c = false := by
    simp [isBlank, ne_of_isBare hbare (d := ' ') (by decide),
      ne_of_isBare hbare (d := '\t') (by decide)]
  rw [hc, List.cons_append, skipBlanks_of_ne hblank]

/-- A name is read up to the first character that cannot go on with it. -/
theorem readName_append (h : IsBareName name) (hc : isBare c = false) :
    readName (name.toList ++ c :: rest) = some (name, c :: rest) := by
  obtain ⟨d, s, hd, hbare⟩ := h.eq_cons
  have hshort : readShortText (name.toList ++ c :: rest) = none := by
    rw [hd]
    exact readShortText.eq_3 _ (fun _ h => ne_of_isBare hbare (by decide) (List.cons.inj h).1)
      fun _ h => ne_of_isBare hbare (by decide) (List.cons.inj h).1
  have htake : (name.toList ++ c :: rest).takeWhile isBare = name.toList := by
    rw [List.takeWhile_append_of_pos h.isBare_of_mem, List.takeWhile_cons_of_neg (by simp [hc]),
      List.append_nil]
  have hdrop : (name.toList ++ c :: rest).dropWhile isBare = c :: rest := by
    rw [List.dropWhile_append_of_pos h.isBare_of_mem, List.dropWhile_cons_of_neg (by simp [hc])]
  have hnonempty : name.toList.isEmpty = false := by simp [hd]
  simp only [readName, hshort, htake, hdrop, hnonempty, String.ofList_toList]
  rfl

/-- A single name is a path; blanks may stand behind it. -/
theorem readPath_append (h : IsBareName name) (hc : isBare c = false) {next : List Char}
    (hnext : skipBlanks (c :: rest) = next) (hdot : next.head? ≠ some '.') :
    readPath (name.toList ++ c :: rest) = some ([name], next) := by
  show readNames (78 + 1) (name.toList ++ c :: rest) = some ([name], next)
  rw [readNames, skipBlanks_name h, readName_append h hc]
  simp only [Option.bind_eq_bind, Option.bind_some, hnext]
  split
  · exact absurd rfl hdot
  · rfl

end

/-! ## Statements -/

@[simp]
theorem expect_self (c : Char) (s : List Char) : expect c (c :: s) = some s := by simp [expect]

/-- An entry on its line, with the line break. -/
def entryText (name : String) (value : Scalar) : List Char :=
  name.toList ++ [' ', '=', ' '] ++ value.write ++ ['\n']

theorem readStatement_entry {name : String} (hname : IsBareName name) {value : Scalar}
    (hvalue : value.isWritable = true) (rest : List Char) :
    readStatement (entryText name value ++ rest) =
      some (.entry [name] value.toToml, '\n' :: rest) := by
  obtain ⟨c, s, hc, hbare⟩ := hname.eq_cons
  have hbracket (more : List Char) : entryText name value ++ rest ≠ '[' :: more := by
    rw [entryText, hc]
    exact fun h => ne_of_isBare hbare (by decide) (List.cons.inj h).1
  have hpath : readPath (name.toList ++ ' ' :: '=' :: ' ' :: (value.write ++ '\n' :: rest)) =
      some ([name], '=' :: ' ' :: (value.write ++ '\n' :: rest)) :=
    readPath_append hname (by decide) rfl (by simp)
  have htext : entryText name value ++ rest =
      name.toList ++ ' ' :: '=' :: ' ' :: (value.write ++ '\n' :: rest) := by
    simp [entryText]
  rw [readStatement.eq_3 _ (fun _ => hbracket _) (fun _ => hbracket _), htext, hpath]
  have hblank : skipBlanks (' ' :: (value.write ++ '\n' :: rest)) = value.write ++ '\n' :: rest :=
    skipBlanks_write value ('\n' :: rest)
  simp only [Option.bind_eq_bind, Option.bind_some, expect_self, hblank,
    readValue_write hvalue]
  rfl

/-- The header of a section on its line, behind an empty line. -/
def headerText (name : String) : List Char := '\n' :: '[' :: (name.toList ++ [']', '\n'])

theorem readStatement_header {name : String} (hname : IsBareName name) (rest : List Char) :
    readStatement ('[' :: (name.toList ++ ']' :: '\n' :: rest)) =
      some (.header [name], '\n' :: rest) := by
  obtain ⟨c, s, hc, hbare⟩ := hname.eq_cons
  have hbracket (more : List Char) : name.toList ++ ']' :: '\n' :: rest ≠ '[' :: more := by
    rw [hc]
    exact fun h => ne_of_isBare hbare (by decide) (List.cons.inj h).1
  have hpath : readPath (name.toList ++ ']' :: '\n' :: rest) =
      some ([name], ']' :: '\n' :: rest) :=
    readPath_append hname (by decide) rfl (by simp)
  rw [readStatement.eq_2 _ hbracket, readHeader, hpath]
  simp only [Option.bind_eq_bind, Option.bind_some, expect_self]
  rfl

/-! ## Lines -/

/-- A line is read as a statement where it does not begin with a blank, a comment or its end. -/
theorem readLines_statement {c : Char} (hc : c ∉ [' ', '\t', '#', '\n', '\r']) {s rest : List Char}
    {statement : Statement} (h : readStatement (c :: s) = some (statement, '\n' :: rest))
    (fuel : Nat) :
    readLines (fuel + 1) (c :: s) = (readLines fuel rest).map (statement :: ·) := by
  simp only [List.mem_cons, List.not_mem_nil, or_false, not_or] at hc
  obtain ⟨hspace, htab, hcomment, hbreak, hreturn⟩ := hc
  have hblanks : skipBlanks (c :: s) = c :: s :=
    skipBlanks_of_ne (by simp [isBlank, hspace, htab]) s
  have hline : endLine (c :: s) = none := by
    rw [endLine, hblanks, skipComment.eq_2 _ fun _ h => hcomment (List.cons.inj h).1]
    exact skipLineBreak.eq_4 _ nofun (fun _ h => hbreak (List.cons.inj h).1)
      fun _ h => hreturn (List.cons.inj h).1
  have hend : endLine ('\n' :: rest) = some rest := rfl
  rw [readLines, hblanks, hline, h]
  simp only [List.isEmpty_cons, Bool.false_eq_true, if_false, Option.bind_eq_bind,
    Option.bind_some, hend]
  cases readLines fuel rest <;> rfl

theorem readLines_entry {name : String} (hname : IsBareName name) {value : Scalar}
    (hvalue : value.isWritable = true) (fuel : Nat) (rest : List Char) :
    readLines (fuel + 1) (entryText name value ++ rest) =
      (readLines fuel rest).map (.entry [name] value.toToml :: ·) := by
  obtain ⟨c, s, hc, hbare⟩ := hname.eq_cons
  have hread := readStatement_entry hname hvalue rest
  rw [entryText, hc] at hread ⊢
  refine readLines_statement ?_ hread fuel
  simp only [List.mem_cons, List.not_mem_nil, or_false, not_or]
  exact ⟨ne_of_isBare hbare (by decide), ne_of_isBare hbare (by decide),
    ne_of_isBare hbare (by decide), ne_of_isBare hbare (by decide),
    ne_of_isBare hbare (by decide)⟩

theorem readLines_header {name : String} (hname : IsBareName name) (fuel : Nat)
    (rest : List Char) :
    readLines (fuel + 2) (headerText name ++ rest) =
      (readLines fuel rest).map (.header [name] :: ·) := by
  have htext : headerText name ++ rest = '\n' :: '[' :: (name.toList ++ ']' :: '\n' :: rest) := by
    simp [headerText]
  have hempty (s : List Char) : readLines (fuel + 2) ('\n' :: s) = readLines (fuel + 1) s := rfl
  rw [htext, hempty]
  exact readLines_statement (by decide) (readStatement_header hname rest) fuel

/-! ## Pieces of a document -/

/-- A piece of a document: an entry, with the names of the section around it, or a header. -/
inductive Piece where
  | entry (around : List String) (name : String) (value : Scalar)
  | header (name : String)

namespace Piece

/-- The names that lead to what a piece is about. -/
def path : Piece → List String
  | entry around name _ => around ++ [name]
  | header name => [name]

def text : Piece → List Char
  | entry _ name value => entryText name value
  | header name => headerText name

def statement : Piece → Statement
  | entry _ name value => .entry [name] value.toToml
  | header name => .header [name]

/-- Whether a piece, or the section that it is in, is among those that are left out. -/
def isGone (gone : List String → Bool) (piece : Piece) : Bool :=
  gone piece.path || gone (piece.path.take 1)

/-- Whether a piece can be written so that it reads back. -/
def IsLegible : Piece → Prop
  | entry _ name value => IsBareName name ∧ value.isWritable = true
  | header name => IsBareName name

end Piece

/-- A piece reads back, and has as many characters as lines or more. -/
theorem readLines_piece {piece : Piece} (h : piece.IsLegible) :
    ∃ lines, lines ≤ piece.text.length ∧ ∀ fuel rest,
      readLines (fuel + lines) (piece.text ++ rest) =
        (readLines fuel rest).map (piece.statement :: ·) := by
  cases piece with
  | entry around name value =>
    refine ⟨1, ?_, readLines_entry h.1 h.2⟩
    simp only [Piece.text, entryText, List.length_append, List.length_cons]
    omega
  | header name =>
    refine ⟨2, ?_, readLines_header h⟩
    simp only [Piece.text, headerText, List.length_cons]
    omega

/-- Pieces read back one after the other. -/
theorem readLines_pieces {pieces : List Piece} (h : ∀ piece ∈ pieces, piece.IsLegible)
    {fuel : Nat} (hfuel : (pieces.flatMap Piece.text).length < fuel) :
    readLines fuel (pieces.flatMap Piece.text) = some (pieces.map Piece.statement) := by
  induction pieces generalizing fuel with
  | nil =>
    obtain ⟨fuel, rfl⟩ := Nat.exists_eq_add_of_lt hfuel
    rfl
  | cons piece pieces ih =>
    obtain ⟨lines, hlines, hread⟩ := readLines_piece (h piece List.mem_cons_self)
    rw [List.flatMap_cons, List.length_append] at hfuel
    obtain ⟨more, rfl⟩ : ∃ more, fuel = more + lines := ⟨fuel - lines, by omega⟩
    rw [List.flatMap_cons, hread, ih (fun p hp => h p (List.mem_cons_of_mem piece hp)) (by omega)]
    rfl

/-! ## Tables from statements -/

/-- Entries under construction. -/
def draftsOf (entries : Entries) : Drafts :=
  entries.map fun (name, value) => (name, .value value.toToml)

/-- Sections under construction. -/
def sectionDraftsOf (sections : List (String × Entries)) : Drafts :=
  sections.map fun (name, entries) => (name, .table .header (draftsOf entries))

def statementsOf (entries : Entries) : List Statement :=
  entries.map fun entry => .entry [entry.1] entry.2.toToml

def sectionStatementsOf (sections : List (String × Entries)) : List Statement :=
  sections.flatMap fun part => .header [part.1] :: statementsOf part.2

theorem lookup_fresh {α : Type} {name : String} {entries : List (String × α)}
    (h : name ∉ entries.map Prod.fst) : entries.lookup name = none := by
  refine List.lookup_eq_none_iff.2 fun entry hentry => ?_
  rw [bne_iff_ne]
  rintro rfl
  exact h (List.mem_map_of_mem hentry)

theorem addEntry_fresh {name : String} {drafts : Drafts} (h : name ∉ drafts.map Prod.fst)
    (value : Toml) : drafts.addEntry [name] value = some (drafts ++ [(name, .value value)]) := by
  simp [Drafts.addEntry, Drafts.descend, lookup_fresh h]

section

variable {front inner : Drafts} {current : List String} {name entry : String} {entries : Entries}

theorem add_entry (hname : name ∉ front.map Prod.fst) (value : Toml) :
    Construction.add ⟨front, []⟩ (.entry [name] value) =
      some ⟨front ++ [(name, .value value)], []⟩ := by
  simp only [Construction.add, Drafts.descend, addEntry_fresh hname, Option.map_some]

/-- An entry goes into the table of the last header. -/
theorem add_entry_inside (hname : name ∉ front.map Prod.fst) (hentry : entry ∉ inner.map Prod.fst)
    (value : Toml) :
    Construction.add ⟨front ++ [(name, .table .header inner)], [name]⟩ (.entry [entry] value) =
      some ⟨front ++ [(name, .table .header (inner ++ [(entry, .value value)]))], [name]⟩ := by
  have hlookup : (front ++ [(name, Draft.table .header inner)]).lookup name =
      some (.table .header inner) := by
    simp [List.lookup_append, lookup_fresh hname]
  have hfront (draft : Draft) :
      front.map (fun entry => if entry.1 = name then (name, draft) else entry) = front := by
    refine (List.map_congr_left fun entry hentry => ?_).trans (List.map_id front)
    have hne : entry.1 ≠ name := fun he => hname (he ▸ List.mem_map_of_mem hentry)
    rw [if_neg hne, id]
  simp [Construction.add, Drafts.descend, hlookup, addEntry_fresh hentry, Drafts.replace, hfront]

theorem add_header (hname : name ∉ front.map Prod.fst) :
    Construction.add ⟨front, current⟩ (.header [name]) =
      some ⟨front ++ [(name, .table .header [])], [name]⟩ := by
  simp [Construction.add, Drafts.addHeader, Drafts.descend, Drafts.defineTable, lookup_fresh hname]

/-- Entries go one after the other into the table that is under construction, wherever that is. -/
theorem add_entries (frame : Drafts → Drafts)
    (hframe : ∀ inner name value, name ∉ inner.map Prod.fst →
      Construction.add ⟨frame inner, current⟩ (.entry [name] value) =
        some ⟨frame (inner ++ [(name, .value value)]), current⟩)
    (hnames : (inner.map Prod.fst ++ entries.map Prod.fst).Nodup) :
    (statementsOf entries).foldlM Construction.add ⟨frame inner, current⟩ =
      some ⟨frame (inner ++ draftsOf entries), current⟩ := by
  induction entries generalizing inner with
  | nil => simp [draftsOf, statementsOf]
  | cons entry entries ih =>
    obtain ⟨name, value⟩ := entry
    have hname : name ∉ inner.map Prod.fst := fun h =>
      (List.nodup_append.1 hnames).2.2 name h name List.mem_cons_self rfl
    have hnames : ((inner ++ [(name, Draft.value value.toToml)]).map Prod.fst ++
        entries.map Prod.fst).Nodup := by
      simpa using hnames
    rw [statementsOf, List.map_cons, List.foldlM_cons, hframe inner name value.toToml hname]
    exact (ih hnames).trans (by simp [draftsOf])

/-- A section goes behind what there is. -/
theorem add_section (hname : name ∉ front.map Prod.fst) (hnames : (entries.map Prod.fst).Nodup) :
    (.header [name] :: statementsOf entries).foldlM Construction.add ⟨front, current⟩ =
      some ⟨front ++ [(name, .table .header (draftsOf entries))], [name]⟩ := by
  rw [List.foldlM_cons, add_header hname]
  exact @add_entries [] [name] entries (fun inner => front ++ [(name, .table .header inner)])
    (fun _ _ value hentry => add_entry_inside hname hentry value) (by simpa using hnames)

/-- Sections go one after the other behind what there is. -/
theorem add_sections {sections : List (String × Entries)}
    (hnames : (front.map Prod.fst ++ sections.map Prod.fst).Nodup)
    (hentries : ∀ part ∈ sections, (part.2.map Prod.fst).Nodup) :
    ∃ last, (sectionStatementsOf sections).foldlM Construction.add ⟨front, current⟩ =
      some ⟨front ++ sectionDraftsOf sections, last⟩ := by
  induction sections generalizing front current with
  | nil => exact ⟨current, by simp [sectionDraftsOf, sectionStatementsOf]⟩
  | cons part sections ih =>
    obtain ⟨name, entries⟩ := part
    have hname : name ∉ front.map Prod.fst := fun h =>
      (List.nodup_append.1 hnames).2.2 name h name List.mem_cons_self rfl
    have hnames : ((front ++ [(name, Draft.table .header (draftsOf entries))]).map Prod.fst ++
        sections.map Prod.fst).Nodup := by
      simpa using hnames
    obtain ⟨last, hlast⟩ := ih hnames fun part hpart => hentries part (List.mem_cons_of_mem _ hpart)
    refine ⟨last, ?_⟩
    rw [sectionStatementsOf, List.flatMap_cons, List.foldlM_append,
      add_section hname (hentries _ List.mem_cons_self)]
    exact hlast.trans (by simp [sectionDraftsOf])

end

/-- Entries as a table has them. -/
def plainOf (entries : Entries) : List (String × Toml) :=
  entries.map fun entry => (entry.1, entry.2.toToml)

theorem finishEntries_append (front back : Drafts) :
    Draft.finishEntries (front ++ back) =
      Draft.finishEntries front ++ Draft.finishEntries back := by
  induction front with
  | nil => rfl
  | cons entry front ih => rw [List.cons_append, Draft.finishEntries, ih]; rfl

theorem finishEntries_draftsOf (entries : Entries) :
    Draft.finishEntries (draftsOf entries) = plainOf entries := by
  induction entries with
  | nil => rfl
  | cons entry entries ih =>
    rw [plainOf, List.map_cons, ← plainOf, ← ih]
    rfl

theorem finishEntries_sectionDraftsOf (sections : List (String × Entries)) :
    Draft.finishEntries (sectionDraftsOf sections) =
      sections.map fun (name, entries) => (name, .table (plainOf entries)) := by
  induction sections with
  | nil => rfl
  | cons part sections ih =>
    have hpart := finishEntries_draftsOf part.2
    simp only [sectionDraftsOf, List.map_cons] at ih ⊢
    rw [Draft.finishEntries, Draft.finish, hpart, ih]

/-! ## Documents -/

/-- The entries whose names are not left out. -/
def leftOf {α : Type} (gone : String → Bool) (entries : List (String × α)) : List (String × α) :=
  entries.filter fun entry => !gone entry.1

namespace Sheet

/-- The pieces that the document consists of. -/
def pieces (sheet : Sheet) : List Piece :=
  (sheet.entries.map fun (name, value) => .entry [] name value) ++
    sheet.sections.flatMap fun (section_, entries) =>
      .header section_ :: entries.map fun (name, value) => .entry [section_] name value

/-- The document, with everything at some paths left out of it. -/
def textWithout (gone : List String → Bool) (sheet : Sheet) : String :=
  String.ofList ((sheet.pieces.filter fun piece => !piece.isGone gone).flatMap Piece.text)

/-- What a sheet says besides what stands at some paths. -/
def without (gone : List String → Bool) (sheet : Sheet) : Sheet where
  entries := leftOf (fun name => gone [name]) sheet.entries
  sections := (leftOf (fun name => gone [name]) sheet.sections).map fun part =>
    (part.1, leftOf (fun name => gone [part.1, name]) part.2)

/-- Bare names, and none of them twice at one place. -/
structure IsPlain (sheet : Sheet) : Prop where
  names : (sheet.entries.map Prod.fst ++ sheet.sections.map Prod.fst).Nodup
  inside : ∀ part ∈ sheet.sections, (part.2.map Prod.fst).Nodup
  bare : ∀ entry ∈ sheet.entries, IsBareName entry.1
  bare_section : ∀ part ∈ sheet.sections, IsBareName part.1
  bare_inside : ∀ part ∈ sheet.sections, ∀ entry ∈ part.2, IsBareName entry.1

theorem pieces_without (gone : List String → Bool) (sheet : Sheet) :
    (sheet.without gone).pieces = sheet.pieces.filter fun piece => !piece.isGone gone := by
  have hsections (sections : List (String × Entries)) :
      ((sections.filter fun part => !gone [part.1]).map fun part =>
          (part.1, part.2.filter fun entry => !gone [part.1, entry.1])).flatMap
            (fun part => Piece.header part.1 :: part.2.map fun entry =>
              Piece.entry [part.1] entry.1 entry.2) =
        (sections.flatMap fun part => Piece.header part.1 :: part.2.map fun entry =>
          Piece.entry [part.1] entry.1 entry.2).filter fun piece => !piece.isGone gone := by
    rw [List.filter_flatMap]
    induction sections with
    | nil => rfl
    | cons part sections ih =>
      cases hpart : gone [part.1] with
      | true =>
        rw [List.filter_cons_of_neg (by simp [hpart]), ih, List.flatMap_cons]
        simp [Piece.isGone, Piece.path, hpart, List.filter_map, Function.comp_def]
      | false =>
        rw [List.filter_cons_of_pos (by simp [hpart]), List.map_cons, List.flatMap_cons, ih,
          List.flatMap_cons]
        simp [Piece.isGone, Piece.path, hpart, List.filter_map, Function.comp_def]
  simp only [pieces, without, leftOf, List.filter_append, List.filter_map]
  congr 1
  · simp [Piece.isGone, Piece.path, Function.comp_def]
  · exact hsections sheet.sections

variable {sheet : Sheet}

theorem mem_sections_without {gone : List String → Bool} {part : String × Entries}
    (h : part ∈ (sheet.without gone).sections) :
    ∃ whole ∈ sheet.sections, part.1 = whole.1 ∧ part.2.Sublist whole.2 := by
  obtain ⟨whole, hwhole, rfl⟩ := List.mem_map.1 h
  exact ⟨whole, List.mem_of_mem_filter hwhole, rfl, List.filter_sublist⟩

theorem IsPlain.without (h : sheet.IsPlain) (gone : List String → Bool) :
    (sheet.without gone).IsPlain where
  names := by
    refine h.names.sublist (List.Sublist.append ?_ ?_)
    · exact List.filter_sublist.map Prod.fst
    · rw [Sheet.without, List.map_map]
      exact List.filter_sublist.map Prod.fst
  inside part hpart := by
    obtain ⟨whole, hwhole, -, hsub⟩ := mem_sections_without hpart
    exact (h.inside whole hwhole).sublist (hsub.map Prod.fst)
  bare entry hentry := h.bare entry (List.mem_of_mem_filter hentry)
  bare_section part hpart := by
    obtain ⟨whole, hwhole, hname, -⟩ := mem_sections_without hpart
    exact hname ▸ h.bare_section whole hwhole
  bare_inside part hpart entry hentry := by
    obtain ⟨whole, hwhole, -, hsub⟩ := mem_sections_without hpart
    exact h.bare_inside whole hwhole entry (hsub.subset hentry)

theorem isWritable_without (h : sheet.isWritable = true) (gone : List String → Bool) :
    (sheet.without gone).isWritable = true := by
  simp only [isWritable, Bool.and_eq_true, List.all_eq_true] at h ⊢
  refine ⟨fun entry hentry => h.1 entry (List.mem_of_mem_filter hentry), fun part hpart => ?_⟩
  obtain ⟨whole, hwhole, -, hsub⟩ := mem_sections_without hpart
  exact fun entry hentry => h.2 whole hwhole entry (hsub.subset hentry)

theorem isLegible_of_mem_pieces (h : sheet.IsPlain) (hwritable : sheet.isWritable = true) :
    ∀ piece ∈ sheet.pieces, piece.IsLegible := by
  simp only [isWritable, Bool.and_eq_true, List.all_eq_true] at hwritable
  intro piece hpiece
  rcases List.mem_append.1 hpiece with hpiece | hpiece
  · obtain ⟨entry, hentry, rfl⟩ := List.mem_map.1 hpiece
    exact ⟨h.bare entry hentry, hwritable.1 entry hentry⟩
  · obtain ⟨part, hpart, hpiece⟩ := List.mem_flatMap.1 hpiece
    rcases List.mem_cons.1 hpiece with rfl | hpiece
    · exact h.bare_section part hpart
    · obtain ⟨entry, hentry, rfl⟩ := List.mem_map.1 hpiece
      exact ⟨h.bare_inside part hpart entry hentry, hwritable.2 part hpart entry hentry⟩

/-- The statements of a sheet make up its table. -/
theorem ofStatements_pieces (h : sheet.IsPlain) :
    Construction.ofStatements (sheet.pieces.map Piece.statement) = some sheet.toTable := by
  have hpieces : sheet.pieces.map Piece.statement =
      statementsOf sheet.entries ++ sectionStatementsOf sheet.sections := by
    simp [pieces, Piece.statement, statementsOf, sectionStatementsOf, List.map_flatMap,
      Function.comp_def]
  have hentries := @add_entries [] [] sheet.entries id
    (fun _ _ value hname => add_entry hname value)
    (h.names.sublist (List.sublist_append_left _ _))
  obtain ⟨last, hsections⟩ := @add_sections (draftsOf sheet.entries) [] sheet.sections
    (by simpa [draftsOf, Function.comp_def] using h.names) h.inside
  have hall := congrArg
    (Option.bind · fun c => (sectionStatementsOf sheet.sections).foldlM Construction.add c) hentries
  rw [Construction.ofStatements, hpieces, List.foldlM_append]
  refine (congrArg (Option.map _) (hall.trans hsections)).trans ?_
  rw [Option.map_some, finishEntries_append, finishEntries_draftsOf, finishEntries_sectionDraftsOf]
  rfl

/-- A document does not begin with a mark of its encoding. -/
theorem dropMark_pieces {pieces : List Piece} (h : ∀ piece ∈ pieces, piece.IsLegible) :
    dropMark (pieces.flatMap Piece.text) = pieces.flatMap Piece.text := by
  cases pieces with
  | nil => rfl
  | cons piece pieces =>
    obtain ⟨c, s, hc, hmark⟩ : ∃ c s, piece.text = c :: s ∧ c ≠ '\ufeff' := by
      cases piece with
      | entry around name value =>
        obtain ⟨c, s, hc, hbare⟩ := (h _ List.mem_cons_self).1.eq_cons
        exact ⟨c, _, by rw [Piece.text, entryText, hc]; rfl, ne_of_isBare hbare (by decide)⟩
      | header name => exact ⟨'\n', _, rfl, by decide⟩
    rw [List.flatMap_cons, hc, List.cons_append]
    exact dropMark.eq_2 _ fun _ h => hmark (List.cons.inj h).1

/-- A document from which pieces were left out reads as the table of what is left. -/
theorem read?_textWithout (h : sheet.IsPlain) (hwritable : sheet.isWritable = true)
    (gone : List String → Bool) :
    read? (sheet.textWithout gone) = some (sheet.without gone).toTable := by
  have hlegible := isLegible_of_mem_pieces (h.without gone) (isWritable_without hwritable gone)
  rw [textWithout, ← pieces_without, read?, String.toList_ofList, dropMark_pieces hlegible]
  simp only [readLines_pieces hlegible (Nat.lt_succ_self _), Option.bind_eq_bind, Option.bind_some]
  exact ofStatements_pieces (h.without gone)

theorem writeEntries_eq (entries : Entries) :
    writeEntries entries = entries.flatMap fun entry => entryText entry.1 entry.2 := rfl

theorem writeSections_eq (sections : List (String × Entries)) :
    writeSections false sections = sections.flatMap fun part =>
      headerText part.1 ++ part.2.flatMap fun entry => entryText entry.1 entry.2 := by
  induction sections with
  | nil => rfl
  | cons part sections ih =>
    rw [writeSections, ih, writeSection, writeEntries_eq, List.flatMap_cons]
    simp [headerText]

/-- With nothing left out, and something before its sections, the document is the one that is
written. -/
theorem textWithout_nothing (hentries : sheet.entries ≠ []) :
    sheet.textWithout (fun _ => false) = String.ofList sheet.write := by
  have hall : sheet.pieces.filter (fun piece => !piece.isGone fun _ => false) = sheet.pieces :=
    List.filter_eq_self.2 fun _ _ => rfl
  have hfirst : sheet.entries.isEmpty = false := by simpa using hentries
  rw [textWithout, hall, write, hfirst, writeSections_eq, writeEntries_eq]
  simp [pieces, List.flatMap_assoc, List.flatMap_map, Piece.text]

end Sheet

end SealedDrive.Toml
