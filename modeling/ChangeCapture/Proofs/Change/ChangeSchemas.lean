import ChangeCapture.Proofs.Avro.BareFields
import ChangeCapture.Proofs.Change.CanonicalSchemas
import ChangeCapture.Proofs.Change.Membership

/-!
# Change schemas

The schema of a change declares each of its columns by name and type alone. Types are copied as they
are, so it is a schema in its own right exactly if the kept columns define every type that they
mean, and if no column has the members of its type beside the type's own word.
-/

namespace ChangeCapture.Change

open Avro (Schema Name Mention)
open Avro.Declaration

namespace ChangeSet

/-- No column of a change has the members of its type beside the type. -/
def HasWholeTypes (c : ChangeSet) : Prop := ∀ f ∈ c.fields, IsWhole f.type

instance (c : ChangeSet) : Decidable c.HasWholeTypes :=
  inferInstanceAs (Decidable (∀ f ∈ c.fields, IsWhole f.type))

/-- What the types of a change mention, column by column. -/
def typeMentions (c : ChangeSet) : List Mention :=
  c.fields.flatMap fun f => mentions f.type.height none f.type

/-- Whatever the types of a change mean is defined by one of them before, or is the change
itself. -/
def DefinesItsTypes (c : ChangeSet) : Prop := Mention.Closed [⟨"change", none⟩] c.typeMentions

instance (c : ChangeSet) : Decidable c.DefinesItsTypes := Mention.decidableClosed _ _

/-- The columns of a change by name and type. -/
def columns (c : ChangeSet) : List (String × Json) := c.fields.map fun f => (f.name, f.type)

theorem columns_names (c : ChangeSet) : c.columns.map Prod.fst = c.names := by
  rw [columns, List.map_map]
  rfl

theorem schemaJson_eq (c : ChangeSet) : c.schemaJson =
    .obj [("fields", .arr (c.columns.map fun f => bareField f.1 f.2)), ("name", .str "change"),
      ("type", .str "record")] := by
  rw [columns, List.map_map]
  exact Json.ofMembers_record _ _

theorem schemaJson_type (c : ChangeSet) : c.schemaJson.get? "type" = some (.str "record") := by
  rw [schemaJson_eq]
  rfl

theorem schemaJson_logicalType (c : ChangeSet) : c.schemaJson.get? "logicalType" = none := by
  rw [schemaJson_eq]
  rfl

theorem schemaJson_name? (c : ChangeSet) : name? none c.schemaJson = some ⟨"change", none⟩ := by
  rw [schemaJson_eq]
  rfl

theorem schemaJson_aliases? (c : ChangeSet) (name : Name) :
    aliases? name c.schemaJson = some [] := by
  rw [schemaJson_eq]
  rfl

theorem schemaJson_fields (c : ChangeSet) : c.schemaJson.get? "fields" =
    some (.arr (c.columns.map fun f => bareField f.1 f.2)) := by
  rw [schemaJson_eq]
  rfl

variable {c : ChangeSet} {t : Schema}

/-- What the schema of a change is read as. -/
theorem exists_isRecordOf_of_schemaJson (h : Schema.ofJson? c.schemaJson = some t) :
    ∃ fields budget fuel, t = .record ⟨"change", none⟩ fields ∧
      IsRecordOf budget fuel (c.columns.map fun f => bareField f.1 f.2) ⟨"change", none⟩ fields :=
  exists_isRecordOf_of_ofJson? c.schemaJson_type c.schemaJson_logicalType c.schemaJson_name?
    c.schemaJson_fields h

theorem names_of_ofJson? (h : Schema.ofJson? c.schemaJson = some t) :
    ∃ fields, t = .record ⟨"change", none⟩ fields ∧ fields.map Avro.Field.name = c.names := by
  obtain ⟨fields, budget, fuel, rfl, hrecord⟩ := exists_isRecordOf_of_schemaJson h
  refine ⟨fields, rfl, ?_⟩
  have hnames := names_of_declares hrecord.declares
  rw [filter_isObject_bareFields, List.map_map] at hnames
  rw [← columns_names]
  refine List.map_injective_iff.mpr (Option.some_injective _) ?_
  rw [← hnames, List.map_map]
  exact List.map_congr_left fun f _ => bareField_name f.1 f.2

theorem mentions_schemaJson (c : ChangeSet) : mentions c.schemaJson.height none c.schemaJson =
    .defines [⟨"change", none⟩] :: c.columns.flatMap fun f =>
      mentions (bareField f.1 f.2).height none (bareField f.1 f.2) := by
  rw [mentions_record c.schemaJson_type c.schemaJson_logicalType c.schemaJson_name?
    (c.schemaJson_aliases? _) c.schemaJson_fields, filter_isObject_bareFields, List.flatMap_map]

theorem hasWholeTypes_of_ofJson? (hfull : IsInFull c.schemaJson)
    (h : Schema.ofJson? c.schemaJson = some t) : c.HasWholeTypes := by
  intro f hf word hword htype
  have hcolumn : (f.name, f.type) ∈ c.columns := List.mem_map.mpr ⟨f, hf, rfl⟩
  rw [htype] at hcolumn
  by_cases hdefinition : word ∈ ["record", "enum", "fixed"]
  · refine hfull (Name.within none ⟨word, none⟩) ?_
    rw [mentions_schemaJson]
    exact List.mem_cons_of_mem _ (List.mem_flatMap.mpr
      ⟨_, hcolumn, copies_mem_bareField hdefinition none f.name⟩)
  · obtain ⟨fields, budget, fuel, rfl, hrecord⟩ := exists_isRecordOf_of_schemaJson h
    have hreads := hrecord.reads
    rw [filter_isObject_bareFields] at hreads
    obtain ⟨g, -, scope, scope', hfield⟩ :=
      exists_mem_of_forall₂ hreads (List.mem_map.mpr ⟨_, hcolumn, rfl⟩)
    obtain ⟨-, -, hread, -, -⟩ := field?_eq_some_iff.mp hfield
    have hcollection : word ∈ ["array", "map"] := by
      simp only [kindWords, List.mem_cons, List.not_mem_nil, or_false] at hword hdefinition ⊢
      grind
    rw [read?_bareField_eq_none hcollection] at hread
    cases hread

theorem HasWholeTypes.isSelfContained_iff (h : c.HasWholeTypes) :
    IsSelfContained c.schemaJson ↔ c.DefinesItsTypes := by
  have htypes : (c.columns.flatMap fun f =>
      mentions (bareField f.1 f.2).height none (bareField f.1 f.2)) = c.typeMentions := by
    rw [columns, List.flatMap_map]
    exact List.flatMap_congr fun f hf => mentions_bareField (h f hf) none f.name
  rw [IsSelfContained, mentions_schemaJson, htypes]
  rfl

/-- The schema of a change is read exactly if its types are whole and it defines those that they
mean, as long as types are written in full and the defaults within them suit whatever is defined
around them. -/
theorem isSome_ofJson?_iff {budget fuel : Nat} {items : List Json} {row : Name}
    {declared : List (Avro.Field Schema)} (hrecord : IsRecordOf budget fuel items row declared)
    (hbudget : fuel ≤ budget) (hdistinct : c.names.Nodup)
    (hcolumns : ∀ f ∈ c.fields, ∃ entry ∈ items, entry.text? "name" = some f.name ∧
      f.type = (entry.get? "type").getD .null)
    (hsettled : ∀ f ∈ declared, f.name ∈ c.names → f.type.IsSettled)
    (hfull : IsInFull c.schemaJson) :
    (Schema.ofJson? c.schemaJson).isSome ↔ c.HasWholeTypes ∧ c.DefinesItsTypes := by
  constructor
  · intro hsome
    obtain ⟨t, ht⟩ := Option.isSome_iff_exists.mp hsome
    have hwhole := hasWholeTypes_of_ofJson? hfull ht
    exact ⟨hwhole, hwhole.isSelfContained_iff.mp (isSelfContained_of_ofJson? ht)⟩
  · rintro ⟨hwhole, hdefines⟩
    have hclosed := hwhole.isSelfContained_iff.mpr hdefines
    rw [← columns_names] at hdistinct hsettled
    obtain ⟨fields, hfields, hsettled⟩ := exists_isRecordOf_bareFields hrecord hdistinct
      (fun p hp => by
        obtain ⟨f, hf, rfl⟩ := List.mem_map.mp hp
        exact ⟨hwhole f hf, hcolumns f hf⟩) hsettled
    obtain ⟨t, ht⟩ := exists_ofJson?_of_isRecordOf (Json.Near.refl _) c.schemaJson_type
      c.schemaJson_logicalType c.schemaJson_name? (c.schemaJson_aliases? _) c.schemaJson_fields
      hfields hbudget hsettled hclosed hfull
    rw [ht]
    rfl

end ChangeSet

theorem ChangeSet.IsPartOf.exists_entry {c : ChangeSet} {columns : Columns}
    {image? : Option RowImage} (h : c.IsPartOf columns image?) {items : List Json}
    (hitems : Columns.ofFields items = .ok columns.list) {f : ChangeField} (hf : f ∈ c.fields) :
    ∃ entry ∈ items, entry.text? "name" = some f.name ∧
      f.type = (entry.get? "type").getD .null := by
  obtain ⟨column, hcolumn, htype⟩ := Option.map_eq_some_iff.mp (h.type_eq f hf)
  obtain ⟨hread, hmem⟩ :=
    Columns.isRead_of_ofFields hitems column (List.mem_of_find?_eq_some hcolumn)
  have hname : column.name = f.name := by simpa using List.find?_some hcolumn
  exact ⟨column.definition, hmem, hname ▸ hread.name_eq, htype ▸ hread.type_eq⟩

namespace Normalizer

/-- The schema of a change is only read if it stands on its own, and as a record of exactly the
columns of the change. It is read exactly if the types of the kept columns are whole and one of them
defines each type before it is meant, as long as the columns were read as fields of a record
themselves, types are written in full and the defaults within them suit whatever is defined around
them. -/
theorem process_changeSchema_iff {n : Normalizer} {documents : List (Fingerprint × String)}
    (hcache : n.cache = .ofDocuments documents) {r : InboundRecord} {f : Fingerprint}
    {s : CachedSchema} {row : Row} (hrow : n.HoldsRow r f s row) {record : DmlRecord}
    (hrecord : (n.process r).1 = .ok (some (.dml record))) :
    (∀ t, Schema.ofJson? record.change.schemaJson = some t →
      IsSelfContained record.change.schemaJson ∧ ∃ fields, t = .record ⟨"change", none⟩ fields ∧
        fields.map Avro.Field.name = record.change.names) ∧
    ∀ name declared, s.DeclaresRow name declared →
      (∀ g ∈ declared, g.name ∈ record.change.names → g.type.IsSettled) →
      IsInFull record.change.schemaJson →
      ((Schema.ofJson? record.change.schemaJson).isSome ↔
        record.change.HasWholeTypes ∧ record.change.DefinesItsTypes) := by
  have hpart := hrow.isPartOf hcache hrecord
  refine ⟨fun t ht => ⟨isSelfContained_of_ofJson? ht, ChangeSet.names_of_ofJson? ht⟩, ?_⟩
  rintro name declared ⟨items, budget, fuel, hitems, hbudget, hdeclared⟩ hsettled hfull
  exact ChangeSet.isSome_ofJson?_iff hdeclared hbudget hpart.names_nodup
    (fun _ => hpart.exists_entry hitems) hsettled hfull

end Normalizer

/-! ## A shared type -/

/-- Changes of a table in which the column `shade`, which may be missing, defines the type that the
column `tone` means. -/
def shadeTable : Json :=
  .ofMembers [("type", .str "record"), ("name", .str "change"), ("fields", .arr [
    .ofMembers [("name", .str "table"), ("type", .str "string")],
    .ofMembers [("name", .str "op_type"), ("type", .str "string")],
    .ofMembers [("name", .str "before"), ("type", .arr [.str "null",
      .ofMembers [("type", .str "record"), ("name", .str "row"), ("fields", .arr [
        CachedSchema.shadeColumn, CachedSchema.toneColumn,
        .ofMembers [("name", .str "shade_isMissing"), ("type", .str "boolean")]])]])],
    .ofMembers [("name", .str "after"), ("type", .arr [.str "null", .str "row"])]])]

def shadeFields : List (Avro.Field Schema) :=
  [CachedSchema.shadeField, CachedSchema.toneField, ⟨"shade_isMissing", .boolean, none⟩]

def shadeImages : Avro.Field Schema :=
  ⟨"before", .union [.null, .record ⟨"row", none⟩ shadeFields], none⟩

/-- What these changes are read as. -/
def shadeChange : Schema :=
  .record ⟨"change", none⟩ [⟨"table", .string, none⟩, ⟨"op_type", .string, none⟩, shadeImages,
    ⟨"after", .union [.null, .ref ⟨"row", none⟩], none⟩]

theorem ofJson?_shadeTable : Schema.ofJson? shadeTable = some shadeChange := rfl

theorem isSettled_shadeFields : ∀ f ∈ shadeFields, f.type.IsSettled := by
  intro f hf
  simp only [shadeFields, List.mem_cons, List.not_mem_nil, or_false] at hf
  rcases hf with rfl | rfl | rfl <;> exact .of_leaf rfl nofun

theorem parse?_shadeTable : Json.parse? shadeTable.compress = some shadeTable := by
  simp only [Json.parse?, Json.compress, String.toList_ofList]
  decide +kernel

/-- An update to the color `R`, and whether its `shade` is missing. -/
def shadeUpdate (missing : UInt8) : Wrapper :=
  ⟨"T", ⟨0⟩, [2, 0x54, 2, 0x55, 0, 2, 0, 0, missing]⟩

namespace Normalizer

/-- An update of both columns defines the type that they share. -/
theorem process_changeSchema_iff_shade :
    ∃ (s : CachedSchema) (row : Row) (record : DmlRecord) (declared : List (Avro.Field Schema))
      (fields : List (Avro.Field Schema)),
      (ofSchema ⟨0⟩ shadeTable).HoldsRow (wrapped (shadeUpdate 0)) ⟨0⟩ s row ∧
      ((ofSchema ⟨0⟩ shadeTable).process (wrapped (shadeUpdate 0))).1 =
        .ok (some (.dml record)) ∧
      s.DeclaresRow ⟨"row", none⟩ declared ∧ IsInFull record.change.schemaJson ∧
      record.change.HasWholeTypes ∧ record.change.DefinesItsTypes ∧
      Schema.ofJson? record.change.schemaJson = some (.record ⟨"change", none⟩ fields) ∧
      fields.map Avro.Field.name = ["shade", "tone"] := by
  have hreadable : (shadeUpdate 0).IsReadable := ⟨by decide +kernel, by decide +kernel⟩
  obtain ⟨s, row, record, hs, hrow, hrecord, hseen⟩ := exists_process_wrapped parse?_shadeTable
    hreadable (fun _ _ record => (record.change.names,
      mentions record.change.schemaJson.height none record.change.schemaJson,
      decide record.change.HasWholeTypes, decide record.change.DefinesItsTypes))
    (["shade", "tone"], [.defines [⟨"change", none⟩], .defines [⟨"color", none⟩],
      .refers ⟨"color", none⟩], true, true) (by decide +kernel)
  obtain ⟨hnames, hmentions, hwhole, hdefines⟩ : record.change.names = ["shade", "tone"] ∧
      mentions record.change.schemaJson.height none record.change.schemaJson =
        [.defines [⟨"change", none⟩], .defines [⟨"color", none⟩], .refers ⟨"color", none⟩] ∧
      record.change.HasWholeTypes ∧ record.change.DefinesItsTypes := by simpa using hseen
  have hdeclared : s.DeclaresRow ⟨"row", none⟩ shadeFields := by
    obtain ⟨v, hv, havro, -, -, hdocument⟩ := CachedSchema.parse_eq_ok_iff.mp hs
    obtain rfl : shadeTable = v := Option.some.inj (parse?_shadeTable.symm.trans hv)
    have heq : shadeChange = s.avro := Option.some.inj (ofJson?_shadeTable.symm.trans havro)
    have hbefore : s.avro.HasBefore ⟨"change", none⟩ ⟨"row", none⟩ _ shadeFields shadeImages :=
      ⟨heq.symm, by simp, rfl, rfl⟩
    have hfound : s.HasRow ⟨"row", none⟩ shadeFields :=
      .before (hdocument ▸ hv) (by decide +kernel) hbefore
    exact hfound.declaresRow hs
  have hfull : IsInFull record.change.schemaJson := by
    intro name
    rw [hmentions]
    simp
  have hcache : (ofSchema ⟨0⟩ shadeTable).cache = .ofDocuments [(⟨0⟩, shadeTable.compress)] := rfl
  obtain ⟨hfields, haccepted⟩ := process_changeSchema_iff hcache hrow hrecord
  obtain ⟨t, ht⟩ := Option.isSome_iff_exists.mp
    ((haccepted _ shadeFields hdeclared (fun f hf _ => isSettled_shadeFields f hf) hfull).mpr
      ⟨hwhole, hdefines⟩)
  obtain ⟨-, fields, rfl, hfieldNames⟩ := hfields t ht
  exact ⟨s, row, record, shadeFields, fields, hrow, hrecord, hdeclared, hfull, hwhole, hdefines,
    ht, hfieldNames.trans hnames⟩

/-- An update without `shade` means a type that it does not define. -/
theorem process_changeSchema_tone :
    ∃ (s : CachedSchema) (row : Row) (record : DmlRecord),
      (ofSchema ⟨0⟩ shadeTable).HoldsRow (wrapped (shadeUpdate 1)) ⟨0⟩ s row ∧
      ((ofSchema ⟨0⟩ shadeTable).process (wrapped (shadeUpdate 1))).1 =
        .ok (some (.dml record)) ∧
      record.change.names = ["tone"] ∧ Schema.ofJson? record.change.schemaJson = none := by
  have hreadable : (shadeUpdate 1).IsReadable := ⟨by decide +kernel, by decide +kernel⟩
  obtain ⟨s, row, record, -, hrow, hrecord, hseen⟩ := exists_process_wrapped parse?_shadeTable
    hreadable (fun _ _ record =>
      (record.change.names, (Schema.ofJson? record.change.schemaJson).isNone))
    (["tone"], true) (by decide +kernel)
  obtain ⟨hnames, hnone⟩ := Prod.mk.inj hseen
  exact ⟨s, row, record, hrow, hrecord, hnames, Option.isNone_iff_eq_none.mp hnone⟩

end Normalizer

end ChangeCapture.Change
