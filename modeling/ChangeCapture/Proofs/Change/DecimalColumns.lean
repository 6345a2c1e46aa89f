import ChangeCapture.Proofs.Avro.Decimals
import ChangeCapture.Proofs.Avro.Scales
import ChangeCapture.Proofs.Change.Membership
import ChangeCapture.Proofs.Keyed

/-!
# Decimal columns

A decimal is shown with the scale that is found in the JSON form of its column's type. It is the
scale that the decimal was read with if the document declares it once, and plainly.
-/

namespace ChangeCapture

/-! ## Showing a change -/

namespace Change

open Avro (Schema Name Value decimalScale ScalesHold)

namespace ChangeSet

/-- All that is shown of a field. -/
def shown (f : ChangeField) : String × Value × Nat := (f.name, f.value, decimalScale f.type)

theorem members_congr {fields fields' : List ChangeField}
    (h : fields.map shown = fields'.map shown) : members fields = members fields' := by
  induction fields generalizing fields' with
  | nil =>
      obtain rfl := List.map_eq_nil_iff.mp h.symm
      rfl
  | cons f rest ih =>
      cases fields' with
      | nil => exact nomatch h
      | cons f' rest' =>
          rw [List.map_cons, List.map_cons, List.cons.injEq] at h
          obtain ⟨hshown, hrest⟩ := h
          obtain ⟨hname, hvalue, hscale⟩ : f.name = f'.name ∧ f.value = f'.value ∧
              decimalScale f.type = decimalScale f'.type := by simpa [shown] using hshown
          rw [members, members, ih hrest, hname, hvalue, Value.columnToJson?_congr hscale]

theorem members_eq_ok {fields : List ChangeField} {shownFields : List (String × Json)}
    (h : members fields = .ok shownFields) :
    shownFields.map Prod.fst = fields.map ChangeField.name ∧
      ∀ f ∈ fields, ∃ v, f.value.columnToJson? f.type = .ok v ∧ (f.name, v) ∈ shownFields := by
  induction fields generalizing shownFields with
  | nil =>
      obtain rfl : [] = shownFields := Except.ok.inj h
      exact ⟨rfl, List.forall_mem_nil _⟩
  | cons f rest ih =>
      rw [members] at h
      cases hv : f.value.columnToJson? f.type with
      | error fault => simp [hv] at h
      | ok v =>
          cases hrest : members rest with
          | error fault => simp [hv, hrest, Except.map] at h
          | ok shownRest =>
              obtain rfl : (f.name, v) :: shownRest = shownFields := by
                simpa [hv, hrest, Except.map] using h
              obtain ⟨hnames, hmem⟩ := ih hrest
              refine ⟨by rw [List.map_cons, List.map_cons, hnames], ?_⟩
              rw [List.forall_mem_cons]
              refine ⟨⟨v, hv, List.mem_cons_self⟩, ?_⟩
              intro g hg
              obtain ⟨w, hw, hgmem⟩ := hmem g hg
              exact ⟨w, hw, List.mem_cons_of_mem _ hgmem⟩

theorem members_isOk_iff {fields : List ChangeField} :
    (∃ shownFields, members fields = .ok shownFields) ↔
      ∀ f ∈ fields, ∃ v, f.value.columnToJson? f.type = .ok v := by
  induction fields with
  | nil => exact ⟨fun _ => List.forall_mem_nil _, fun _ => ⟨[], rfl⟩⟩
  | cons f rest ih =>
      rw [List.forall_mem_cons, ← ih, members]
      cases hv : f.value.columnToJson? f.type with
      | error fault => simp
      | ok v => cases hrest : members rest <;> simp [Except.map]

theorem toJson_isOk_iff {c : ChangeSet} : (∃ json, c.toJson = .ok json) ↔
    ∀ f ∈ c.fields, ∃ v, f.value.columnToJson? f.type = .ok v := by
  rw [← members_isOk_iff, toJson]
  cases members c.fields <;> simp [Except.map]

/-- A change with columns of distinct names shows each of them under its name. -/
theorem get?_of_toJson {c : ChangeSet} (hdistinct : c.names.Nodup) {json : Json}
    (h : c.toJson = .ok json) {f : ChangeField} (hf : f ∈ c.fields) :
    ∃ v, f.value.columnToJson? f.type = .ok v ∧ json.get? f.name = some v := by
  unfold toJson at h
  cases hmembers : members c.fields with
  | error fault => simp [hmembers, Except.map] at h
  | ok shownFields =>
      obtain rfl : .ofMembers shownFields = json := by simpa [hmembers, Except.map] using h
      obtain ⟨hnames, hmem⟩ := members_eq_ok hmembers
      obtain ⟨v, hv, hshown⟩ := hmem f hf
      have hnodup : (shownFields.map Prod.fst).Nodup := by
        rw [hnames]
        exact hdistinct
      exact ⟨v, hv, Keyed.get?_ofList_of_mem hnodup hshown⟩

end ChangeSet

end Change

/-! ## Reading a column -/

namespace Avro.Schema

theorem find?_name {fields : List (Field Schema)}
    (hdistinct : ∀ f ∈ fields, ∀ g ∈ fields, f.name = g.name → f = g) {f : Field Schema}
    (hf : f ∈ fields) : fields.find? (fun g => g.name == f.name) = some f := by
  have hsome : (fields.find? fun g => g.name == f.name).isSome :=
    List.find?_isSome.mpr ⟨f, hf, beq_self_eq_true f.name⟩
  obtain ⟨g, hg⟩ := Option.isSome_iff_exists.mp hsome
  have hname : g.name = f.name := by simpa using List.find?_some hg
  rw [hg, hdistinct g (List.mem_of_find?_eq_some hg) f hf hname]

/-- The columns that the field `before` of a change defines, alone or beside null. -/
def beforeColumns? : Schema → Option (List (Field Schema))
  | .record _ fields =>
      match fields.find? fun f => f.name == Change.beforeField with
      | none => none
      | some before =>
          match before.type.nonNull with
          | .record _ columns => some columns
          | _ => none
  | _ => none

/-- The type that is defined there for a column. -/
def columnType? (s : Schema) (column : String) : Option Schema :=
  s.beforeColumns?.bind fun columns => (columns.find? fun f => f.name == column).map Field.type

/-- A value that is read as one of the given type inside a schema. -/
def ReadsAs (s type : Schema) (v : Value) : Prop :=
  ∃ defs fuel space bytes rest, s.definitions? = some defs ∧
    read? defs fuel space type bytes = some (v, rest)

theorem exists_hasBefore {s : Schema} {columns : List (Field Schema)}
    (h : s.beforeColumns? = some columns) :
    ∃ name row fields before, s.HasBefore name row fields columns before := by
  unfold beforeColumns? at h
  split at h
  · next name fields =>
      split at h
      · exact nomatch h
      · next before hbefore =>
          split at h
          · next row columns' htype =>
              obtain rfl := Option.some.inj h
              have hname : before.name = Change.beforeField := by
                simpa using List.find?_some hbefore
              exact ⟨name, row, fields, before, rfl, List.mem_of_find?_eq_some hbefore, hname,
                htype⟩
          · exact nomatch h
  · exact nomatch h

theorem HasBefore.beforeColumns?_eq {s : Schema} {name row : Name}
    {fields columns : List (Field Schema)} {before : Field Schema}
    (h : s.HasBefore name row fields columns before)
    (hdistinct : ∀ f ∈ fields, ∀ g ∈ fields, f.name = g.name → f = g) :
    s.beforeColumns? = some columns := by
  obtain rfl := h.eq_record
  have hfind := find?_name hdistinct h.before_mem
  rw [h.before_name] at hfind
  simp only [beforeColumns?, hfind, h.before_type]

/-- Whether the image that an operation selects is read with the columns that the field `before`
defines. -/
def readsColumns (s : Schema) : Change.Operation → Bool
  | .delete => s.imagesShareType || s.beforeColumns?.isSome
  | _ => s.imagesShareType

end Avro.Schema

namespace Change

open Avro (Schema Name Value decimalScale ScalesHold)

theorem exists_hasBefore_of_readsColumns {s : Schema} {op : Operation} (h : s.readsColumns op) :
    ∃ name record fields columns before, s.HasBefore name record fields columns before ∧
      ∀ (row : Row) image, row.selectedImage op = some image →
        row.before = some image ∨ row.after = some image ∧
          ∃ other after, s.IsChange name record other fields columns before after := by
  by_cases hshared : s.imagesShareType
  · obtain ⟨name, record, other, fields, columns, before, after, hchange⟩ :=
      Schema.exists_isChange hshared
    refine ⟨name, record, fields, columns, before, hchange.toHasBefore, ?_⟩
    intro row image himage
    cases op with
    | delete => exact Or.inl himage
    | insert => exact Or.inr ⟨himage, other, after, hchange⟩
    | update => exact Or.inr ⟨himage, other, after, hchange⟩
    | other code => exact nomatch himage
  · cases op with
    | delete =>
        rw [Schema.readsColumns, Bool.or_eq_true] at h
        obtain ⟨columns, hcolumns⟩ := Option.isSome_iff_exists.mp (h.resolve_left hshared)
        obtain ⟨name, record, fields, before, hbefore⟩ := Schema.exists_hasBefore hcolumns
        exact ⟨name, record, fields, columns, before, hbefore, fun row image himage =>
          Or.inl himage⟩
    | _ => exact absurd h hshared

/-- A schema in which the scale of a column is declared plainly: by the type of the column, in marks
that take effect, and for the image that is selected. -/
structure CachedSchema.DeclaresPlainly (s : CachedSchema) (op : Operation) (column : String) :
    Prop where
  not_list : ∀ v, Json.parse? s.document = some v → Columns.isColumnList v = false
  image : s.avro.readsColumns op
  unmarked : ∀ c, s.columns.find? column = some c →
    c.definition.text? "logicalType" ≠ some "decimal"
  holds : ∀ c, s.columns.find? column = some c → ScalesHold c.definition

theorem Column.IsRead.decimalScale_eq {c : Column} (h : c.IsRead)
    (hmark : c.definition.text? "logicalType" ≠ some "decimal") :
    decimalScale c.definition = decimalScale c.type := by
  rw [h.type_eq]
  cases htype : c.definition.get? "type" with
  | some type => exact Avro.decimalScale_inner hmark htype
  | none =>
      obtain ⟨members, hmembers⟩ := Json.exists_members_of_get? (Json.text?_eq_some h.name_eq)
      rw [hmembers] at hmark htype ⊢
      have hscale : decimalScale (.obj members) = Avro.typeScale members := if_neg hmark
      have hmember : Keyed.get? "type" members = none := htype
      rw [hscale, Avro.typeScale_eq, hmember]
      rfl

/-- A decimal of a change is read with the type that is defined for its column, and shown with the
scale of it. -/
theorem exists_type_of_declaresPlainly {fingerprint : Fingerprint} {document : String}
    {s : CachedSchema} (hparse : CachedSchema.parse fingerprint document = .ok s)
    {payload : List UInt8} {row : Row} (hrow : Row.decode s.avro payload = .ok row)
    {op : Operation} {field : ChangeField}
    (hfield : field ∈ typedFields s.columns (row.selected op))
    (hplain : s.DeclaresPlainly op field.name) {d : Avro.Decimal}
    (hd : field.value.unwrap = .decimal d) :
    ∃ type, s.avro.columnType? field.name = some type ∧ s.avro.ReadsAs type field.value ∧
      type.scaleOf? field.value = some (decimalScale field.type) := by
  obtain ⟨v, hv, havro, hcolumns, -, rfl⟩ := CachedSchema.parse_eq_ok_iff.mp hparse
  have hlist := hplain.not_list v hv
  obtain ⟨name, record, fields, declared, before, hbefore, himages⟩ :=
    exists_hasBefore_of_readsColumns hplain.image
  have hdistinct := hbefore.eq_of_name (Schema.hasDistinctFields_of_ofJson? havro)
  rw [hbefore.eq_record] at havro
  -- Where the value was read.
  obtain ⟨hselected, htype⟩ := mem_typedFields.mp hfield
  obtain ⟨image, himage, hvalue, -⟩ :=
    Row.mem_selectable.mp ((row.selected_sublist op).subset hselected)
  obtain ⟨defs, fuel, space, bytes, rest, hdefs, hread⟩ :=
    Row.fields?_of_image hbefore hdistinct hrow (himages row image himage)
  obtain ⟨g, hg, hname, bytes', rest', hgread⟩ := Avro.Reader.fields?_of_mem hread hvalue
  -- Where the column was declared.
  obtain ⟨items, budget, fuel', hitems, -, hdeclared⟩ := Columns.isRecordOf_of_before hlist hcolumns
    havro hbefore.before_mem hbefore.before_name hbefore.before_type
  obtain ⟨c, hc, hctype⟩ := Option.map_eq_some_iff.mp htype
  have hcname : c.name = field.name := by simpa using List.find?_some hc
  obtain ⟨hcread, hcmem⟩ := Columns.isRead_of_ofFields hitems c (List.mem_of_find?_eq_some hc)
  have hobject : c.definition ∈ items.filter Avro.Declaration.isObject := by
    obtain ⟨members, hmembers⟩ := Json.exists_members_of_get? (Json.text?_eq_some hcread.name_eq)
    exact List.mem_filter.mpr ⟨hcmem, by rw [hmembers]; rfl⟩
  obtain ⟨g', hg', hgname, scope, scope', hgdeclared⟩ :=
    exists_mem_of_forall₂ hdeclared.declares hobject
  -- Both are one field of the record.
  have hsame : g'.name = g.name := by
    have hnames := hgname.symm.trans hcread.name_eq
    rw [Option.some.injEq] at hnames
    rw [hnames, hcname, hname]
  obtain rfl := hdeclared.eq_of_name hg' hg hsame
  obtain ⟨hscale, hflat⟩ := (hplain.holds c hc).isScaledAs hgdeclared
  refine ⟨g'.type, ?_, ⟨defs, fuel, space, bytes', rest', hdefs, hgread⟩, ?_⟩
  · rw [Schema.columnType?, hbefore.beforeColumns?_eq hdistinct, Option.bind_some, ← hname]
    have hfind := Schema.find?_name (fun f hf g hg => hdeclared.eq_of_name hf hg) hg
    rw [hfind]
    rfl
  · have hnamed : ∀ name t, defs.lookup name = some t → t.isDefinition :=
      fun name t ht => Schema.isDefinition_of_definitions? hdefs ht
    rw [Schema.scaleOf?_of_read? hnamed hflat hgread hd, ← hscale, ← hctype,
      hcread.decimalScale_eq (hplain.unmarked c hc)]

/-! ## Decimals of changes -/

/-- A change that shows the decimal of one of its fields with so many digits after the point, if it
can be shown at all. -/
structure ChangeSet.ShowsDecimal (c : ChangeSet) (field : ChangeField) (d : Avro.Decimal)
    (digits : Nat) : Prop where
  field_isOk : (∃ v, field.value.columnToJson? field.type = .ok v) ↔
    d.bytes ≠ [] ∧ d.bytes.length ≤ 16
  change_isOk : (∃ json, c.toJson = .ok json) ↔
    ∀ f ∈ c.fields, ∃ v, f.value.columnToJson? f.type = .ok v
  shown : ∀ json, c.toJson = .ok json → ∃ cs,
    json.get? field.name = some (.str (String.ofList cs)) ∧ Avro.fractionDigits cs = digits

theorem showsDecimal {c : ChangeSet} (hdistinct : c.names.Nodup) {field : ChangeField}
    (hfield : field ∈ c.fields) {d : Avro.Decimal} (hd : field.value.unwrap = .decimal d) :
    c.ShowsDecimal field d (decimalScale field.type) := by
  have hcolumn := Value.columnToJson?_decimal hd field.type
  refine ⟨?_, ChangeSet.toJson_isOk_iff, ?_⟩
  · rw [hcolumn]
    constructor
    · rintro ⟨v, hv⟩
      obtain ⟨hbytes, hlength, -⟩ := Avro.Decimal.toJson?_eq_ok_iff.mp hv
      exact ⟨hbytes, hlength⟩
    · rintro ⟨hbytes, hlength⟩
      exact ⟨_, Avro.Decimal.toJson?_eq_ok_iff.mpr ⟨hbytes, hlength, rfl⟩⟩
  · intro json hjson
    obtain ⟨v, hv, hget⟩ := ChangeSet.get?_of_toJson hdistinct hjson hfield
    rw [hcolumn] at hv
    obtain ⟨-, -, rfl⟩ := Avro.Decimal.toJson?_eq_ok_iff.mp hv
    exact ⟨_, hget, Avro.fractionDigits_writeScaled d.value (decimalScale field.type)⟩

namespace Normalizer

/-- A decimal of a change is shown with the scale that its column's type in JSON declares, and
nothing else of the type counts. It was read with that scale if the schema declares it plainly. The
scale may be any that `Avro.Decimal.write` can pad its digits to. -/
theorem process_showsDecimal {n : Normalizer} {documents : List (Fingerprint × String)}
    (hcache : n.cache = .ofDocuments documents) {r : InboundRecord} {f : Fingerprint}
    {s : CachedSchema} {row : Row} (hrow : n.HoldsRow r f s row) {record : DmlRecord}
    (hrecord : (n.process r).1 = .ok (some (.dml record))) {field : ChangeField}
    (hfield : field ∈ record.change.fields) {d : Avro.Decimal}
    (hd : field.value.unwrap = .decimal d) :
    record.change.ShowsDecimal field d (decimalScale field.type) ∧
      (∀ change : ChangeSet,
        change.fields.map ChangeSet.shown = record.change.fields.map ChangeSet.shown →
        change.toJson = record.change.toJson) ∧
      (s.DeclaresPlainly record.operation field.name →
        ∃ type, s.avro.columnType? field.name = some type ∧ s.avro.ReadsAs type field.value ∧
          type.scaleOf? field.value = some (decimalScale field.type)) := by
  have hdistinct := (hrow.isPartOf hcache hrecord).names_nodup
  refine ⟨showsDecimal hdistinct hfield hd, ?_, ?_⟩
  · intro change hshown
    rw [ChangeSet.toJson, ChangeSet.toJson, ChangeSet.members_congr hshown]
  · intro hplain
    obtain ⟨-, -, hchange⟩ := eq_of_normalizeRow (hrow.process_eq_ok_iff.mp hrecord)
    rw [hchange] at hfield
    have hs := hrow.resolve_eq_ok
    rw [hcache] at hs
    obtain ⟨document, hparse⟩ := SchemaCache.exists_parse_of_resolve hs
    obtain ⟨bytes, tableName, payload, -, -, -, hdecode⟩ := hrow
    exact exists_type_of_declaresPlainly hparse hdecode hfield hplain hd

end Normalizer

/-! ## Two amounts -/

/-- A decimal of five digits, two of them after the point. -/
def amountType : Json :=
  .ofMembers [("type", .str "bytes"), ("logicalType", .str "decimal"), ("precision", .int 5),
    ("scale", .int 2)]

/-- A text with the mark of a decimal, which does not take effect. -/
def markedText : Json :=
  .ofMembers [("type", .str "string"), ("logicalType", .str "decimal"), ("scale", .int 7)]

def amountColumn (branches : List Json) : Json :=
  .ofMembers [("name", .str "amount"), ("type", .arr (.str "null" :: branches))]

/-- Changes of a table with an amount that is null or one of the given types. -/
def amountTable (branches : List Json) : Json :=
  .ofMembers [("type", .str "record"), ("name", .str "change"), ("fields", .arr [
    .ofMembers [("name", .str "table"), ("type", .str "string")],
    .ofMembers [("name", .str "op_type"), ("type", .str "string")],
    .ofMembers [("name", .str "before"), ("type", .arr [.str "null",
      .ofMembers [("type", .str "record"), ("name", .str "row"),
        ("fields", .arr [amountColumn branches])]])],
    .ofMembers [("name", .str "after"), ("type", .arr [.str "null", .str "row"])]])]

/-- The insertion of a row with the unscaled amount 12345. -/
def amountInsert : Wrapper := ⟨"T", ⟨0⟩, [2, 0x54, 2, 0x49, 0, 2, 2, 4, 0x30, 0x39]⟩

def amount : Avro.Decimal := ⟨[0x30, 0x39]⟩

def decimal? : Value → Option Avro.Decimal
  | .decimal d => some d
  | _ => none

theorem decimal?_eq_some {v : Value} {d : Avro.Decimal} (h : decimal? v = some d) :
    v = .decimal d := by
  unfold decimal? at h
  split at h
  · rw [Option.some.inj h]
  · exact nomatch h

/-- What is seen of a column: the decimal, the scales that it is shown and read with, and whether it
was read as one of the columns that the schema defines. -/
structure Seen where
  name : String
  decimal : Option Avro.Decimal
  shown : Nat
  read : Option Nat
  shared : Bool
  deriving DecidableEq

def seen (avro : Schema) (_ : Row) (record : DmlRecord) : List Seen :=
  record.change.fields.map fun f => ⟨f.name, decimal? f.value.unwrap, decimalScale f.type,
    (avro.columnType? f.name).bind fun type => type.scaleOf? f.value,
    avro.readsColumns record.operation⟩

theorem exists_field_of_seen {avro : Schema} {row : Row} {record : DmlRecord} {shared : Bool}
    {name : String} {d : Avro.Decimal} {shown read : Nat}
    (h : seen avro row record = [⟨name, some d, shown, some read, shared⟩]) :
    ∃ field, record.change.fields = [field] ∧ field.name = name ∧
      field.value.unwrap = .decimal d ∧ decimalScale field.type = shown ∧
      (∃ type, avro.columnType? name = some type ∧ type.scaleOf? field.value = some read) ∧
      avro.readsColumns record.operation = shared := by
  obtain ⟨field, hfield, hseen⟩ := List.map_eq_singleton_iff.mp h
  rw [Seen.mk.injEq] at hseen
  obtain ⟨rfl, hd, hshown, hread, hshared⟩ := hseen
  obtain ⟨type, htype, hscale⟩ := Option.bind_eq_some_iff.mp hread
  exact ⟨field, hfield, rfl, decimal?_eq_some hd, hshown, ⟨type, htype, hscale⟩, hshared⟩

theorem scalesHold_amountColumn : ScalesHold (amountColumn [amountType]) := by
  have hmark : (amountColumn [amountType]).text? "logicalType" ≠ some "decimal" := by
    decide +kernel
  have hmember :
      (amountColumn [amountType]).get? "type" = some (.arr [.str "null", amountType]) := by
    decide +kernel
  have hamount : ScalesHold amountType := by
    have htype : amountType.get? "type" = some (.str "bytes") := by decide +kernel
    have hdigits : Avro.Logical.precisionAndScale? amountType = some (5, 2) := by decide +kernel
    exact .marked (by decide +kernel) (Or.inl htype) hdigits (by decide)
  apply ScalesHold.inner hmark hmember
  · intro p _ hword
    exact nomatch hword
  · apply ScalesHold.union
    intro v hv
    rcases List.mem_cons.mp hv with rfl | hv
    · exact .word "null"
    · obtain rfl := List.mem_singleton.mp hv
      exact hamount

namespace Normalizer

theorem process_showsDecimal_amount :
    ∃ (s : CachedSchema) (row : Row) (record : DmlRecord) (field : ChangeField),
      (ofSchema ⟨0⟩ (amountTable [amountType])).HoldsRow (wrapped amountInsert) ⟨0⟩ s row ∧
      ((ofSchema ⟨0⟩ (amountTable [amountType])).process (wrapped amountInsert)).1 =
        .ok (some (.dml record)) ∧
      field ∈ record.change.fields ∧ field.value.unwrap = .decimal amount ∧
      s.DeclaresPlainly record.operation field.name ∧ record.change.ShowsDecimal field amount 2 ∧
      ∃ type, s.avro.columnType? field.name = some type ∧ type.scaleOf? field.value = some 2 := by
  have hv : Json.parse? (amountTable [amountType]).compress = some (amountTable [amountType]) := by
    simp only [Json.parse?, Json.compress, String.toList_ofList]
    decide +kernel
  have hreadable : amountInsert.IsReadable := ⟨by decide +kernel, by decide +kernel⟩
  obtain ⟨s, row, record, hs, hrow, hrecord, hseen⟩ :=
    exists_process_wrapped hv hreadable seen [⟨"amount", some amount, 2, some 2, true⟩]
      (by decide +kernel)
  obtain ⟨field, hfields, hname, hd, hscale, -, hshared⟩ := exists_field_of_seen hseen
  have hfield : field ∈ record.change.fields := hfields ▸ List.mem_cons_self
  obtain ⟨v, hv', -, hcolumns, -, hdocument⟩ := CachedSchema.parse_eq_ok_iff.mp hs
  obtain rfl : amountTable [amountType] = v := Option.some.inj (hv.symm.trans hv')
  have hdefinition : ∀ c, s.columns.find? field.name = some c →
      c.definition = amountColumn [amountType] := by
    have hparts : ((Columns.ofJson (amountTable [amountType])).toOption.bind fun columns =>
        (columns.find? "amount").map Column.definition) = some (amountColumn [amountType]) := by
      decide +kernel
    intro c hc
    rw [hname] at hc
    rw [hcolumns, Except.toOption, Option.bind_some, hc] at hparts
    exact Option.some.inj hparts
  have hplain : s.DeclaresPlainly record.operation field.name := by
    constructor
    · intro v hv'
      rw [hdocument] at hv'
      obtain rfl := Option.some.inj (hv.symm.trans hv')
      decide +kernel
    · exact hshared
    · intro c hc
      rw [hdefinition c hc]
      decide +kernel
    · intro c hc
      rw [hdefinition c hc]
      exact scalesHold_amountColumn
  have hcache : (ofSchema ⟨0⟩ (amountTable [amountType])).cache =
      .ofDocuments [(⟨0⟩, (amountTable [amountType]).compress)] := rfl
  obtain ⟨hshows, -, hread⟩ := process_showsDecimal hcache hrow hrecord hfield hd
  obtain ⟨type, htype, -, hof⟩ := hread hplain
  rw [hscale] at hshows hof
  exact ⟨s, row, record, field, hrow, hrecord, hfield, hd, hplain, hshows, type, htype, hof⟩

/-- An amount that was read with two digits after the point is shown with seven. -/
theorem process_scale_ne_markedText :
    ∃ (s : CachedSchema) (row : Row) (record : DmlRecord) (field : ChangeField) (json : Json),
      (ofSchema ⟨0⟩ (amountTable [amountType, markedText])).HoldsRow (wrapped amountInsert) ⟨0⟩
        s row ∧
      ((ofSchema ⟨0⟩ (amountTable [amountType, markedText])).process (wrapped amountInsert)).1 =
        .ok (some (.dml record)) ∧
      field ∈ record.change.fields ∧ field.value.unwrap = .decimal amount ∧
      (∃ type, s.avro.columnType? field.name = some type ∧
        type.scaleOf? field.value = some 2) ∧
      record.change.toJson = .ok json ∧ json.get? field.name = some (.str "0.0012345") ∧
      Avro.fractionDigits "0.0012345".toList = 7 := by
  have hv : Json.parse? (amountTable [amountType, markedText]).compress =
      some (amountTable [amountType, markedText]) := by
    simp only [Json.parse?, Json.compress, String.toList_ofList]
    decide +kernel
  have hreadable : amountInsert.IsReadable := ⟨by decide +kernel, by decide +kernel⟩
  obtain ⟨s, row, record, -, hrow, hrecord, hseen⟩ :=
    exists_process_wrapped hv hreadable seen [⟨"amount", some amount, 7, some 2, true⟩]
      (by decide +kernel)
  obtain ⟨field, hfields, hname, hd, hscale, hread, -⟩ := exists_field_of_seen hseen
  have hfield : field ∈ record.change.fields := hfields ▸ List.mem_cons_self
  have htext : amount.toJson? 7 = .ok (.str "0.0012345") := by
    have hwrite : amount.write 7 = .ok "0.0012345".toList := by decide +kernel
    rw [Avro.Decimal.toJson?, hwrite, Except.map, String.ofList_toList]
  have hcolumn : field.value.columnToJson? field.type = .ok (.str "0.0012345") := by
    rw [Value.columnToJson?_decimal hd, hscale, htext]
  have hdistinct : record.change.names.Nodup := by
    rw [ChangeSet.names, hfields]
    exact List.nodup_singleton _
  obtain ⟨json, hjson⟩ : ∃ json, record.change.toJson = .ok json := by
    rw [ChangeSet.toJson_isOk_iff, hfields]
    intro g hg
    obtain rfl := List.mem_singleton.mp hg
    exact ⟨_, hcolumn⟩
  obtain ⟨v, hv, hget⟩ := ChangeSet.get?_of_toJson hdistinct hjson hfield
  obtain rfl := Except.ok.inj (hcolumn.symm.trans hv)
  exact ⟨s, row, record, field, json, hrow, hrecord, hfield, hd, hname ▸ hread, hjson, hget,
    by decide⟩

end Normalizer

end Change

end ChangeCapture
