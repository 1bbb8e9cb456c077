import SealedDrive.Listing.Config
import SealedDrive.Proofs.Letters
import SealedDrive.Proofs.Spelling
import SealedDrive.Record.Link
import SealedDrive.Store.Credentials

/-!
Records read back. A form is lawful when its values are written as JSON that a text can hold and
that reads as the value again. That carries over to lists, to values that may be absent and to
records, whether their fields are written one object inside the other or flattened into one; so
it comes down to the fields of a record having names of their own and being read in the order
they are listed in.
-/

namespace SealedDrive

open Json (FieldReader)

/-- A form whose values a text can hold and that reads them back. -/
class LawfulForm (α : Type) [JsonForm α] : Prop where
  ofJson?_toJson (a : α) : ofJson? (toJson a) = some a
  isLegible_toJson (a : α) : (toJson a).isLegible = true
  /-- An absent value is written as null, so no present one may be. -/
  toJson_ne_null (a : α) : toJson a ≠ .null

namespace Json

/-! ## Plain values -/

instance : LawfulForm String where
  ofJson?_toJson _ := rfl
  isLegible_toJson _ := rfl
  toJson_ne_null _ := nofun

instance : LawfulForm Bool where
  ofJson?_toJson _ := rfl
  isLegible_toJson _ := rfl
  toJson_ne_null _ := nofun

/-- Integers of one type, which are all within bounds that 64 bits hold. -/
theorem lawful_of_integer {α : Type} [JsonForm α] {low high : Int} {read : Int → α}
    (value : α → Int) (hwrite : ∀ a, toJson a = .integer (value a))
    (hread : ∀ j, (ofJson? j : Option α) = (ofInteger? low high j).map read)
    (hback : ∀ a, read (value a) = a) (hrange : ∀ a, low ≤ value a ∧ value a ≤ high)
    (hlow : -0x10000000000000000 < low) (hhigh : high < 0x10000000000000000) : LawfulForm α where
  ofJson?_toJson a := by
    have hread' : ofInteger? low high (.integer (value a)) = some (value a) := if_pos (hrange a)
    rw [hread, hwrite, hread', Option.map_some, hback]
  isLegible_toJson a := by
    have ha := hrange a
    rw [hwrite]
    exact decide_eq_true (by omega)
  toJson_ne_null a := by
    rw [hwrite]
    nofun

instance : LawfulForm UInt8 :=
  lawful_of_integer (fun n => n.toNat) (fun _ => rfl) (fun _ => rfl) (by simp)
    (fun n => by have := n.toNat_lt; omega) (by decide) (by decide)

instance : LawfulForm UInt32 :=
  lawful_of_integer (fun n => n.toNat) (fun _ => rfl) (fun _ => rfl) (by simp)
    (fun n => by have := n.toNat_lt; omega) (by decide) (by decide)

instance : LawfulForm UInt64 :=
  lawful_of_integer (fun n => n.toNat) (fun _ => rfl) (fun _ => rfl) (by simp)
    (fun n => by have := n.toNat_lt; omega) (by decide) (by decide)

instance : LawfulForm Int64 :=
  lawful_of_integer (fun n => n.toInt) (fun _ => rfl) (fun _ => rfl) (by simp)
    (fun n => by have := n.le_toInt; have := n.toInt_lt; omega) (by decide) (by decide)

instance {kind : StatusKind} : LawfulForm (Status kind) where
  ofJson?_toJson status := by
    show (ofJson? (toJson status.code)).map Status.mk = some status
    rw [LawfulForm.ofJson?_toJson]
    rfl
  isLegible_toJson status := LawfulForm.isLegible_toJson status.code
  toJson_ne_null status := LawfulForm.toJson_ne_null status.code

instance : LawfulForm LinkType where
  ofJson?_toJson type := by cases type <;> rfl
  isLegible_toJson _ := rfl
  toJson_ne_null _ := nofun

instance : LawfulForm LinkState where
  ofJson?_toJson state := by cases state <;> rfl
  isLegible_toJson _ := rfl
  toJson_ne_null _ := nofun

instance : LawfulForm ListPolicy where
  ofJson?_toJson policy := by cases policy <;> rfl
  isLegible_toJson _ := rfl
  toJson_ne_null _ := nofun

section

variable {α : Type} [JsonForm α] [LawfulForm α]

theorem mapM_ofJson?_map (items : List α) :
    (items.map toJson).mapM (ofJson? : Json → Option α) = some items := by
  induction items with
  | nil => rfl
  | cons item rest ih =>
    rw [List.map_cons, List.mapM_cons, LawfulForm.ofJson?_toJson, ih]
    rfl

theorem isLegibleItems_map (items : List α) : isLegibleItems (items.map toJson) = true := by
  induction items with
  | nil => rfl
  | cons item rest ih =>
    rw [List.map_cons, isLegibleItems, LawfulForm.isLegible_toJson, ih]
    rfl

instance : LawfulForm (List α) where
  ofJson?_toJson items := mapM_ofJson?_map items
  isLegible_toJson items := isLegibleItems_map items
  toJson_ne_null _ := nofun

theorem isLegible_ofOption (value : Option α) : (ofOption toJson value).isLegible = true := by
  cases value with
  | none => rfl
  | some a => exact LawfulForm.isLegible_toJson a

omit [LawfulForm α] in
theorem nullable_eq {value : Json} (h : value ≠ .null) {a : α} (hread : ofJson? value = some a)
    (rest : List Slot) : FieldReader.nullable value rest = some (some a, rest) := by
  cases value with
  | null => exact absurd rfl h
  | _ =>
    simp only [FieldReader.nullable, hread]
    rfl

theorem nullable_ofOption (value : Option α) (rest : List Slot) :
    FieldReader.nullable (ofOption toJson value) rest = some (value, rest) := by
  cases value with
  | none => rfl
  | some a => exact nullable_eq (LawfulForm.toJson_ne_null a) (LawfulForm.ofJson?_toJson a) rest

end

/-! ## Fields -/

/-- What a record holds when all its fields are there. -/
def slotsFor (fields : List (String × Json)) : List Slot := fields.map fun field => .given field.2

namespace FieldReader

variable {α β : Type}

/-- The reader takes fields that a text can hold, whatever comes after them, and makes this of
them. -/
structure Takes (reader : FieldReader α) (fields : List (String × Json)) (a : α) : Prop where
  reads : ∀ rest, reader (slotsFor fields ++ rest) = some (a, rest)
  legible : ∀ field ∈ fields, field.2.isLegible = true

theorem Takes.done {a : α} : (pure a : FieldReader α).Takes [] a := ⟨fun _ => rfl, nofun⟩

/-- One field after the other. -/
theorem Takes.cons {first : FieldReader α} {next : α → FieldReader β} {name : String}
    {value : Json} {fields : List (String × Json)} {a : α} {b : β}
    (hfirst : ∀ rest, first (.given value :: rest) = some (a, rest))
    (hlegible : value.isLegible = true) (h : (next a).Takes fields b) :
    (first >>= next).Takes ((name, value) :: fields) b where
  reads rest := by
    show (first (.given value :: (slotsFor fields ++ rest))).bind (fun x => next x.1 x.2) = _
    rw [hfirst]
    exact h.reads rest
  legible := List.forall_mem_cons.2 ⟨hlegible, h.legible⟩

/-- The fields of a part, which are the last. -/
theorem Takes.part {reader : FieldReader α} {fields : List (String × Json)} {a : α} {f : α → β}
    (h : reader.Takes fields a) : (reader >>= fun a => pure (f a)).Takes fields (f a) where
  reads rest := by
    show (reader (slotsFor fields ++ rest)).bind (fun x => some (f x.1, x.2)) = _
    rw [h.reads]
    rfl
  legible := h.legible

variable [JsonForm α] [LawfulForm α] {name : String} {fields : List (String × Json)} {b : β}

/-- A value that is there is read back. -/
theorem read_toJson (a : α) (rest : List Slot) :
    (match (ofJson? (toJson a) : Option α) with
      | some a => (pure a : FieldReader α)
      | none => failure) rest = some (a, rest) := by
  rw [LawfulForm.ofJson?_toJson]
  rfl

theorem Takes.required {next : α → FieldReader β} {a : α} (h : (next a).Takes fields b) :
    (FieldReader.required >>= next).Takes ((name, toJson a) :: fields) b :=
  .cons (read_toJson a) (LawfulForm.isLegible_toJson a) h

theorem Takes.withDefault {default : α} {next : α → FieldReader β} {a : α}
    (h : (next a).Takes fields b) :
    (FieldReader.withDefault default >>= next).Takes ((name, toJson a) :: fields) b :=
  .cons (read_toJson a) (LawfulForm.isLegible_toJson a) h

theorem Takes.optional {next : Option α → FieldReader β} {a : Option α}
    (h : (next a).Takes fields b) :
    (FieldReader.optional >>= next).Takes ((name, ofOption toJson a) :: fields) b :=
  .cons (nullable_ofOption a) (isLegible_ofOption a) h

theorem Takes.optionalOrNone {next : Option α → FieldReader β} {a : Option α}
    (h : (next a).Takes fields b) :
    (FieldReader.optionalOrNone >>= next).Takes ((name, ofOption toJson a) :: fields) b :=
  .cons (nullable_ofOption a) (isLegible_ofOption a) h

end FieldReader

/-! ## Records -/

/-- A field is found under its name when no other field has it. -/
theorem filter_record {fields : List (String × Json)} (h : (fields.map Prod.fst).Nodup)
    {field : String × Json} (hmem : field ∈ fields) :
    (fields.map fun (name, value) => (some name, value)).filter
        (fun member => decide (member.1 = some field.1)) = [(some field.1, field.2)] := by
  induction fields with
  | nil => cases hmem
  | cons first rest ih =>
    obtain ⟨hfirst, hrest⟩ := List.nodup_cons.1 h
    rw [List.map_cons, List.filter_cons]
    rcases List.mem_cons.1 hmem with rfl | hmem
    · rw [if_pos (decide_eq_true rfl), List.filter_eq_nil_iff.2]
      rintro _ hmember hname
      obtain ⟨other, hother, rfl⟩ := List.mem_map.1 hmember
      have hsame : other.1 = field.1 := Option.some.inj (of_decide_eq_true hname)
      exact hfirst (hsame ▸ List.mem_map_of_mem hother)
    · have hne : first.1 ≠ field.1 := fun hsame => hfirst (hsame ▸ List.mem_map_of_mem hmem)
      rw [if_neg (by simpa using hne), ih hrest hmem]

theorem slotsOf_eq {fields : List (String × Json)} {members : List (Option String × Json)}
    (h : ∀ field ∈ fields, members.filter (fun member => decide (member.1 = some field.1)) =
      [(some field.1, field.2)]) :
    slotsOf (fields.map Prod.fst) members = some (slotsFor fields) := by
  induction fields with
  | nil => rfl
  | cons field rest ih =>
    have ih := ih fun other hother => h other (List.mem_cons_of_mem _ hother)
    rw [slotsOf] at ih ⊢
    rw [List.map_cons, List.mapM_cons, h field List.mem_cons_self, ih]
    rfl

theorem slots?_record {fields : List (String × Json)} (h : (fields.map Prod.fst).Nodup) :
    (record fields).slots? (fields.map Prod.fst) = some (slotsFor fields) := by
  rw [record, slots?, if_pos (by simp)]
  exact slotsOf_eq fun field hmem => filter_record h hmem

theorem FieldReader.Takes.readFrom {α : Type} {reader : FieldReader α}
    {fields : List (String × Json)} {a : α} (h : reader.Takes fields a) :
    reader.readFrom (some (slotsFor fields)) = some a := by
  have hreads := h.reads []
  rw [List.append_nil] at hreads
  rw [FieldReader.readFrom, Option.bind_eq_bind, Option.bind_some, hreads]
  rfl

/-- Two lists that a test tells apart come apart again. -/
theorem filter_append_apart {α : Type} {test : α → Bool} {xs ys : List α}
    (hx : ∀ a ∈ xs, test a = false) (hy : ∀ a ∈ ys, test a = true) :
    (xs ++ ys).filter test = ys ∧ (xs ++ ys).filter (fun a => !test a) = xs := by
  constructor
  · rw [List.filter_append, List.filter_eq_self.2 hy,
      List.filter_eq_nil_iff.2 fun a ha => by simp [hx a ha], List.nil_append]
  · rw [List.filter_append, List.filter_eq_self.2 fun a ha => by simp [hx a ha],
      List.filter_eq_nil_iff.2 fun a ha => by simp [hy a ha], List.append_nil]

/-- What is flattened into a record is told apart from its own fields by the names. -/
theorem flatSlots?_record {part own : List (String × Json)} {level : Nat}
    (h : ((own ++ part).map Prod.fst).Nodup)
    (hheld : ∀ field ∈ part, isSound field.2 = true ∧ depth field.2 + level ≤ depthLimit) :
    (record (part ++ own)).flatSlots? level (own.map Prod.fst) (part.map Prod.fst) =
      some (slotsFor (own ++ part)) := by
  rw [List.map_append] at h
  obtain ⟨hown, hpart, hapart⟩ := List.nodup_append.1 h
  have hmine : ∀ member ∈ own.map fun (name, value) => (some name, value),
      ((own.map Prod.fst).any fun name => decide (member.1 = some name)) = true := by
    intro member hmember
    obtain ⟨field, hfield, rfl⟩ := List.mem_map.1 hmember
    exact List.any_eq_true.2 ⟨_, List.mem_map_of_mem hfield, decide_eq_true rfl⟩
  have hother : ∀ member ∈ part.map fun (name, value) => (some name, value),
      ((own.map Prod.fst).any fun name => decide (member.1 = some name)) = false := by
    intro member hmember
    obtain ⟨field, hfield, rfl⟩ := List.mem_map.1 hmember
    refine List.any_eq_false.2 fun name hname hsame => ?_
    exact hapart name hname field.1 (List.mem_map_of_mem hfield)
      (Option.some.inj (of_decide_eq_true hsame)).symm
  have hslotsOwn : slotsOf (own.map Prod.fst)
      (own.map fun (name, value) => (some name, value)) = some (slotsFor own) :=
    slotsOf_eq fun field hmem => filter_record hown hmem
  have hslotsPart : slotsOf (part.map Prod.fst)
      (part.map fun (name, value) => (some name, value)) = some (slotsFor part) :=
    slotsOf_eq fun field hmem => filter_record hpart hmem
  obtain ⟨hself, hrest⟩ := filter_append_apart hother hmine
  rw [record, flatSlots?, List.map_append, hself, hrest, if_pos, hslotsOwn, hslotsPart]
  · simp [slotsFor]
  · refine List.all_eq_true.2 fun member hmember => ?_
    obtain ⟨field, hfield, rfl⟩ := List.mem_map.1 hmember
    obtain ⟨hfound, hdepth⟩ := hheld field hfield
    simp [hfound, hdepth]

theorem isLegible_record (fields : List (String × Json)) :
    (record fields).isLegible = fields.all fun field => field.2.isLegible := by
  show isLegibleMembers (fields.map _) = _
  induction fields with
  | nil => rfl
  | cons field rest ih =>
    rw [List.map_cons, isLegibleMembers, ih]
    rfl

/-- A record whose fields have names of their own and are read in the order they are named in. -/
theorem lawful_of_record {α : Type} [JsonForm α] {fields : α → List (String × Json)}
    {reader : FieldReader α} {names : List String} (hwrite : ∀ a, toJson a = record (fields a))
    (hform : ∀ j, ofJson? j = reader.readFrom (j.slots? names))
    (hnames : ∀ a, (fields a).map Prod.fst = names) (h : names.Nodup)
    (htakes : ∀ a, reader.Takes (fields a) a) : LawfulForm α where
  ofJson?_toJson a := by
    obtain rfl := hnames a
    rw [hwrite, hform, slots?_record h]
    exact (htakes a).readFrom
  isLegible_toJson a := by
    rw [hwrite, isLegible_record]
    exact List.all_eq_true.2 (htakes a).legible
  toJson_ne_null a := by
    rw [hwrite]
    nofun

/-- The same for a record with a flattened part, whose own fields are read first and then those of
the part; what is held until then has to be sound and not too deep. -/
theorem lawful_of_flat {α : Type} [JsonForm α] {part own : α → List (String × Json)}
    {reader : FieldReader α} {names flat : List String} {level : Nat}
    (hwrite : ∀ a, toJson a = record (part a ++ own a))
    (hform : ∀ j, ofJson? j = reader.readFrom (j.flatSlots? level names flat))
    (hnames : ∀ a, (own a).map Prod.fst = names ∧ (part a).map Prod.fst = flat)
    (h : (names ++ flat).Nodup)
    (hheld : ∀ a, ∀ field ∈ part a,
      isSound field.2 = true ∧ depth field.2 + level ≤ depthLimit)
    (htakes : ∀ a, reader.Takes (own a ++ part a) a) : LawfulForm α where
  ofJson?_toJson a := by
    obtain ⟨rfl, rfl⟩ := hnames a
    rw [← List.map_append] at h
    rw [hwrite, hform, flatSlots?_record h (hheld a)]
    exact (htakes a).readFrom
  isLegible_toJson a := by
    rw [hwrite, isLegible_record, List.all_append, Bool.and_comm, ← List.all_append]
    exact List.all_eq_true.2 (htakes a).legible
  toJson_ne_null a := by
    rw [hwrite]
    nofun

end Json

/-! ## The records -/

open Json (lawful_of_record lawful_of_flat)

theorem Tokens.takes_reader (tokens : Tokens) : Tokens.reader.Takes tokens.fields tokens :=
  .required <| .required <| .required .done

theorem ShareMetadata.takes_reader (metadata : ShareMetadata) :
    ShareMetadata.reader.Takes metadata.fields metadata :=
  .required <| .required <| .required <| .required <| .required <| .required <| .required <|
    .required .done

instance : LawfulForm Tokens :=
  lawful_of_record (fun _ => rfl) (fun _ => rfl) (fun _ => rfl) (by decide)
    Tokens.takes_reader

instance : LawfulForm UserKey :=
  lawful_of_record (fun _ => rfl) (fun _ => rfl) (fun _ => rfl) (by decide)
    fun _ => .required <| .required <| .required .done

instance : LawfulForm User :=
  lawful_of_record (fun _ => rfl) (fun _ => rfl) (fun _ => rfl) (by decide)
    fun _ => .required <| .required <| .required <| .required <| .required <| .required <|
      .required .done

instance : LawfulForm AddressKey :=
  lawful_of_record (fun _ => rfl) (fun _ => rfl) (fun _ => rfl) (by decide)
    fun _ => .required <| .required <| .optional <| .optional <| .required <| .required .done

instance : LawfulForm Address :=
  lawful_of_record (fun _ => rfl) (fun _ => rfl) (fun _ => rfl) (by decide)
    fun _ => .required <| .required <| .required <| .required <| .required <| .required .done

instance : LawfulForm Salt :=
  lawful_of_record (fun _ => rfl) (fun _ => rfl) (fun _ => rfl) (by decide)
    fun _ => .required <| .optional .done

instance : LawfulForm VolumeRecord :=
  lawful_of_record (fun _ => rfl) (fun _ => rfl) (fun _ => rfl) (by decide)
    fun _ => .required <| .required <| .required <| .optional <| .required .done

instance : LawfulForm ShareMetadata :=
  lawful_of_record (fun _ => rfl) (fun _ => rfl) (fun _ => rfl) (by decide)
    ShareMetadata.takes_reader

instance : LawfulForm EncryptedKey :=
  lawful_of_record (fun _ => rfl) (fun _ => rfl) (fun _ => rfl) (by decide)
    fun _ => .required <| .required <| .required .done

instance : LawfulForm ShareRecord :=
  lawful_of_flat (fun _ => rfl) (fun _ => rfl) (fun _ => ⟨rfl, rfl⟩) (by decide)
    (by simp [ShareMetadata.fields, toJson, Json.text, Json.isSound, Json.depth, Json.depthLimit])
    fun share => .required <| .required <| .part share.metadata.takes_reader

instance : LawfulForm RevisionRecord :=
  lawful_of_record (fun _ => rfl) (fun _ => rfl) (fun _ => rfl) (by decide)
    fun _ => .required <| .required <| .required <| .required <| .optional .done

instance : LawfulForm FileProperties :=
  lawful_of_record (fun _ => rfl) (fun _ => rfl) (fun _ => rfl) (by decide)
    fun _ => .required <| .required .done

instance : LawfulForm LinkRecord :=
  lawful_of_record (fun _ => rfl) (fun _ => rfl) (fun _ => rfl) (by decide)
    fun _ => .required <| .optional <| .required <| .required <| .required <| .required <|
      .required <| .required <| .required <| .required <| .required <| .required <| .required <|
      .optional .done

instance : LawfulForm XAttrCommon :=
  lawful_of_record (fun _ => rfl) (fun _ => rfl) (fun _ => rfl) (by decide)
    fun _ => .optionalOrNone <| .optionalOrNone <| .withDefault .done

instance : LawfulForm XAttr :=
  lawful_of_record (fun _ => rfl) (fun _ => rfl) (fun _ => rfl) (by decide)
    fun _ => .withDefault .done

instance : LawfulForm ListerConfig :=
  lawful_of_record (fun _ => rfl) (fun _ => rfl) (fun _ => rfl) (by decide)
    fun _ => .withDefault <| .withDefault <| .optionalOrNone .done

instance : LawfulForm Credentials :=
  lawful_of_flat (fun _ => rfl) (fun _ => rfl) (fun _ => ⟨rfl, rfl⟩) (by decide)
    (by simp [Tokens.fields, Json.text, Json.isSound, Json.depth, Json.depthLimit])
    fun credentials => .required <| .part credentials.tokens.takes_reader

/-! ## Reading back -/

/-- A value that is the same again when its JSON is read: as a value, from its text on one line or
over several, and from the octets of that text. -/
structure ReadsBack {α : Type} [JsonForm α] (a : α) : Prop where
  value : ofJson? (toJson a) = some a
  compact : (Json.read? (toJson a).compact).bind ofJson? = some a
  pretty : (Json.read? ((toJson a).pretty ++ "\n")).bind ofJson? = some a
  octets : (Json.ofBytes? (Bytes.ofText (toJson a).compact)).bind ofJson? = some a

theorem LawfulForm.readsBack {α : Type} [JsonForm α] [LawfulForm α] (a : α) : ReadsBack a where
  value := ofJson?_toJson a
  compact := by
    rw [Json.read?_compact (isLegible_toJson a), Option.bind_some, ofJson?_toJson]
  pretty := by
    rw [Json.read?_pretty (isLegible_toJson a), Option.bind_some, ofJson?_toJson]
  octets := by
    rw [Json.ofBytes?_ofText, Json.read?_compact (isLegible_toJson a), Option.bind_some,
      ofJson?_toJson]

/-- Every record reads back, whatever texts, numbers and codes it holds and whatever it lacks. -/
theorem records_read_back :
    (∀ tokens : Tokens, ReadsBack tokens) ∧ (∀ user : User, ReadsBack user) ∧
    (∀ key : UserKey, ReadsBack key) ∧ (∀ address : Address, ReadsBack address) ∧
    (∀ key : AddressKey, ReadsBack key) ∧ (∀ salt : Salt, ReadsBack salt) ∧
    (∀ volume : VolumeRecord, ReadsBack volume) ∧
    (∀ metadata : ShareMetadata, ReadsBack metadata) ∧
    (∀ key : EncryptedKey, ReadsBack key) ∧ (∀ share : ShareRecord, ReadsBack share) ∧
    (∀ revision : RevisionRecord, ReadsBack revision) ∧
    (∀ properties : FileProperties, ReadsBack properties) ∧
    (∀ link : LinkRecord, ReadsBack link) ∧ (∀ xattr : XAttr, ReadsBack xattr) ∧
    (∀ config : ListerConfig, ReadsBack config) ∧
    (∀ credentials : Credentials, ReadsBack credentials) := by
  refine ⟨?_, ?_, ?_, ?_, ?_, ?_, ?_, ?_, ?_, ?_, ?_, ?_, ?_, ?_, ?_, ?_⟩ <;>
    exact LawfulForm.readsBack

end SealedDrive
