import ChangeCapture.Proofs.Avro.TypedValues
import ChangeCapture.Proofs.Change.DecimalColumns
import ChangeCapture.Proofs.Change.Selections

/-!
# The order of a change

A change lists its columns in the order of the type that its image was read with. That is the order
of the table if the type is the one that the field `before` defines. An image that has a type of its
own brings its own order.
-/

namespace ChangeCapture

namespace Avro

/-! ## Types of images -/

/-- A type that stands inside a namespace leads to a record type, which stands inside another one,
through unions and definitions. -/
inductive Schema.LeadsTo (defs : Definitions) (inner : Option String)
    (fields : List (Field Schema)) : Option String → Schema → Prop
  | record {space : Option String} {name : Name} (hinner : (name.within space).space = inner) :
      LeadsTo defs inner fields space (.record name fields)
  | union {space : Option String} {branches : List Schema} {s : Schema} (hs : s ∈ branches)
      (h : LeadsTo defs inner fields space s) : LeadsTo defs inner fields space (.union branches)
  | ref {space : Option String} {name : Name} {s : Schema}
      (hs : defs.lookup (name.within space) = some s)
      (h : LeadsTo defs inner fields (name.within space).space s) :
      LeadsTo defs inner fields space (.ref name)

/-- A record type to which the field of a name leads, in a schema that leads to a record itself. -/
def Schema.DeclaresImage (s : Schema) (field : String) (columns : List (Field Schema)) : Prop :=
  ∃ defs space fields f inner, s.definitions? = some defs ∧ LeadsTo defs space fields none s ∧
    f ∈ fields ∧ f.name = field ∧ LeadsTo defs inner columns space f.type

theorem Schema.exists_definitions?_of_decode? {s : Schema} {bytes : List UInt8} {v : Value}
    (h : s.decode? bytes = some v) : ∃ defs, s.definitions? = some defs := by
  unfold decode? at h
  split at h
  · cases h
  · next defs hdefs => exact ⟨defs, hdefs⟩

namespace Value

variable {defs : Definitions} {space : Option String} {s : Schema} {v : Value}

/-- A record that is a value of a type has the fields of a record type to which it leads. -/
theorem IsOf.exists_leadsTo (h : v.IsOf defs space s) {values : List (String × Value)}
    (hv : v.unwrap = .record values) :
    ∃ inner fields, s.LeadsTo defs inner fields space ∧
      values.map Prod.fst = fields.map Field.name ∧
      ∀ f ∈ fields, ∀ w, (f.name, w) ∈ values → w.IsOf defs inner f.type := by
  induction h with
  | @scalar _ _ v hscalar =>
      cases v with
      | union | array | map | record => exact absurd hscalar Bool.false_ne_true
      | _ => exact nomatch hv
  | union hs _ ih =>
      obtain ⟨inner, fields, hleads, hnames, htypes⟩ := ih hv
      exact ⟨inner, fields, .union (List.mem_of_getElem? hs) hleads, hnames, htypes⟩
  | record names _ htypes =>
      obtain rfl := Value.record.inj hv
      exact ⟨_, _, .record rfl, names, htypes⟩
  | ref hs _ ih =>
      obtain ⟨inner, fields, hleads, hnames, htypes⟩ := ih hv
      exact ⟨inner, fields, .ref hs hleads, hnames, htypes⟩
  | null | cut | array | map => exact nomatch hv

end Value

end Avro

namespace Change

open Avro (Schema)

/-! ## Names of a change -/

/-- The field that holds the image whose columns an operation selects. -/
def Operation.imageField : Operation → String
  | .delete => beforeField
  | _ => "after"

/-- Whether an operation keeps a column of its image. -/
def RowImage.keeps (image : RowImage) (op : Operation) (name : String) : Bool :=
  match op with
  | .update => ¬ image.Flags name
  | _ => true

/-- The columns of a record type that a table has, in the order of the type. -/
def Columns.among (columns : Columns) (declared : List (Avro.Field Schema)) : List String :=
  ((declared.map Avro.Field.name).filter fun name => !isMissingFlag name).filter
    (· ∈ columns.names)

namespace Row

variable {row : Row} {op : Operation} {image : RowImage}

theorem selected_names (himage : row.selectedImage op = some image) :
    (row.selected op).map Prod.fst =
      ((image.fields.map Prod.fst).filter fun name => !isMissingFlag name).filter
        (image.keeps op) := by
  have hall : ∀ names : List String, names.filter (fun _ => true) = names := fun names =>
    List.filter_eq_self.mpr fun _ _ => rfl
  cases op with
  | update =>
      have hafter : row.after = some image := himage
      rw [selected, hafter, Option.map_some, Option.getD_some, RowImage.presentColumns_names]
      rfl
  | insert =>
      have hafter : row.after = some image := himage
      rw [selected, hafter, Option.map_some, Option.getD_some, RowImage.columns_names]
      exact (hall _).symm
  | delete =>
      have hbefore : row.before = some image := himage
      rw [selected, hbefore, Option.map_some, Option.getD_some, RowImage.columns_names]
      exact (hall _).symm
  | other => cases himage

theorem selected_of_none (himage : row.selectedImage op = none) : row.selected op = [] := by
  have hselectable : row.selectable op = [] := by rw [selectable, himage]; rfl
  exact List.sublist_nil.mp (hselectable ▸ row.selected_sublist op)

theorem exists_declaresImage {schema : Schema} (hschema : schema.HasDistinctFields)
    {payload : List UInt8} (hrow : decode schema payload = .ok row)
    (himage : row.selectedImage op = some image) :
    ∃ declared, schema.DeclaresImage op.imageField declared ∧
      image.fields.map Prod.fst = declared.map Avro.Field.name := by
  obtain ⟨v, hv, hvalue⟩ := decode_eq_ok_iff.mp hrow
  obtain ⟨values, hvalues, hbefore, hafter⟩ := images_of_ofValue hvalue
  obtain ⟨defs, hdefs⟩ := Schema.exists_definitions?_of_decode? hv
  have hof := Schema.isOf_of_decode? hschema hdefs hv
  obtain ⟨space, fields, hleads, hnames, htypes⟩ := hof.exists_leadsTo hvalues
  obtain ⟨w, hw, hrecord⟩ : ∃ w, (op.imageField, w) ∈ values ∧ w.unwrap = .record image.fields := by
    cases op with
    | delete => exact hbefore image himage
    | insert | update => exact hafter image himage
    | other => exact nomatch himage
  obtain ⟨f, hf, hname⟩ := List.mem_map.mp (hnames ▸ List.mem_map_of_mem hw)
  have hname : f.name = op.imageField := hname
  obtain ⟨inner, declared, hinner, hdeclared, -⟩ :=
    (htypes f hf w (hname ▸ hw)).exists_leadsTo hrecord
  exact ⟨declared, ⟨defs, space, fields, f, inner, hdefs, hleads, hf, hname, hinner⟩, hdeclared⟩

end Row

/-- The names of an image that is read with the columns of the table are theirs. -/
theorem CachedSchema.names_of_readsColumns {fingerprint : Fingerprint} {document : String}
    {s : CachedSchema} (hparse : parse fingerprint document = .ok s)
    (hlist : ∀ v, Json.parse? s.document = some v → Columns.isColumnList v = false)
    {op : Operation} (hreads : s.avro.readsColumns op) {payload : List UInt8} {row : Row}
    (hrow : Row.decode s.avro payload = .ok row) {image : RowImage}
    (himage : row.selectedImage op = some image) :
    (image.fields.map Prod.fst).filter (fun name => !isMissingFlag name) = s.columns.names := by
  obtain ⟨v, hv, havro, hcolumns, -, rfl⟩ := parse_eq_ok_iff.mp hparse
  obtain ⟨name, record, fields, declared, before, hbefore, himages⟩ :=
    exists_hasBefore_of_readsColumns hreads
  have hdistinct := hbefore.eq_of_name (Schema.hasDistinctFields_of_ofJson? havro)
  obtain ⟨_, _, _, _, _, -, hread⟩ :=
    Row.fields?_of_image hbefore hdistinct hrow (himages row image himage)
  rw [hbefore.eq_record] at havro
  rw [Avro.Reader.fields?_names hread, Columns.names_of_ofJson (hlist v hv) hcolumns havro
    hbefore.before_mem hbefore.before_name hbefore.before_type]

namespace Normalizer

/-- The names of a change are those that a record type of its image shares with the table, in the
order of that type, without those that an update does not keep. They are in the order of the table
wherever the type has that order too, and the type that `before` defines always has it. -/
theorem process_names_sublist {n : Normalizer} {documents : List (Fingerprint × String)}
    (hcache : n.cache = .ofDocuments documents) {r : InboundRecord} {f : Fingerprint}
    {s : CachedSchema} {row : Row} (hrow : n.HoldsRow r f s row) {record : DmlRecord}
    (hrecord : (n.process r).1 = .ok (some (.dml record))) :
    (row.selectedImage record.operation = none → record.change.names = []) ∧
    (∀ image, row.selectedImage record.operation = some image →
      ∃ declared, s.avro.DeclaresImage record.operation.imageField declared ∧
        record.change.names = (s.columns.among declared).filter (image.keeps record.operation) ∧
        ((s.columns.among declared).Sublist s.columns.names →
          record.change.names.Sublist s.columns.names)) ∧
    (s.avro.readsColumns record.operation →
      (∀ v, Json.parse? s.document = some v → Columns.isColumnList v = false) →
      record.change.names.Sublist s.columns.names) := by
  obtain ⟨-, -, hchange⟩ := eq_of_normalizeRow (hrow.process_eq_ok_iff.mp hrecord)
  have hs := hrow.resolve_eq_ok
  rw [hcache] at hs
  obtain ⟨document, hparse⟩ := SchemaCache.exists_parse_of_resolve hs
  obtain ⟨v, -, havro, -⟩ := CachedSchema.parse_eq_ok_iff.mp hparse
  have hschema := Schema.hasDistinctFields_of_ofJson? havro
  obtain ⟨bytes, tableName, payload, -, -, -, hdecode⟩ := hrow
  have hnames : record.change.names =
      ((row.selected record.operation).map Prod.fst).filter (· ∈ s.columns.names) := by
    rw [hchange]
    exact typedFields_names s.columns _
  have hnone : row.selectedImage record.operation = none → record.change.names = [] := by
    intro himage
    rw [hnames, Row.selected_of_none himage]
    rfl
  refine ⟨hnone, fun image himage => ?_, fun hreads hlist => ?_⟩
  · obtain ⟨declared, hdeclared, himageNames⟩ := Row.exists_declaresImage hschema hdecode himage
    have heq : record.change.names =
        (s.columns.among declared).filter (image.keeps record.operation) := by
      rw [hnames, Row.selected_names himage, himageNames]
      exact List.filter_comm _ _ _
    refine ⟨declared, hdeclared, heq, fun hsub => ?_⟩
    rw [heq]
    exact List.filter_sublist.trans hsub
  · cases himage : row.selectedImage record.operation with
    | none =>
        rw [hnone himage]
        exact List.nil_sublist _
    | some image =>
        rw [hnames, Row.selected_names himage,
          CachedSchema.names_of_readsColumns hparse hlist hreads hdecode himage]
        exact List.filter_sublist.trans List.filter_sublist

end Normalizer

/-! ## Two orders -/

def columnsOf (name : String) (columns : List (String × String)) : Json :=
  .arr [.str "null", .ofMembers [("type", .str "record"), ("name", .str name), ("fields",
    .arr (columns.map fun c => .ofMembers [("name", .str c.1), ("type", .str c.2)]))]]

/-- Changes of a table whose two images have the same columns in different orders. -/
def swappedTable : Json :=
  .ofMembers [("type", .str "record"), ("name", .str "change"), ("fields", .arr [
    .ofMembers [("name", .str "table"), ("type", .str "string")],
    .ofMembers [("name", .str "op_type"), ("type", .str "string")],
    .ofMembers [("name", .str "before"),
      ("type", columnsOf "old" [("id", "long"), ("city", "string")])],
    .ofMembers [("name", .str "after"),
      ("type", columnsOf "new" [("city", "string"), ("id", "long")])]])]

/-- The insertion of the city `A` under the number 1. -/
def swappedInsert : Wrapper := ⟨"T", ⟨0⟩, [2, 0x54, 2, 0x49, 0, 2, 2, 0x41, 2]⟩

namespace Normalizer

theorem process_names_sublist_note :
    ∃ (s : CachedSchema) (row : Row) (record : DmlRecord) (image : RowImage)
      (declared : List (Avro.Field Schema)),
      (ofSchema ⟨0⟩ noteTable).HoldsRow (wrapped noteWrapper) ⟨0⟩ s row ∧
      ((ofSchema ⟨0⟩ noteTable).process (wrapped noteWrapper)).1 = .ok (some (.dml record)) ∧
      row.selectedImage record.operation = some image ∧
      s.avro.DeclaresImage "after" declared ∧
      (s.columns.among declared).filter (image.keeps record.operation) = ["id"] ∧
      s.avro.readsColumns record.operation ∧ record.change.names.Sublist s.columns.names := by
  have hreadable : noteWrapper.IsReadable := ⟨by decide +kernel, by decide +kernel⟩
  obtain ⟨s, row, record, hs, hrow, hrecord, hseen⟩ := exists_process_wrapped parse?_noteTable
    hreadable (fun avro row record => (record.operation, avro.readsColumns record.operation,
      record.change.names, (row.selectedImage record.operation).isSome))
    (.update, true, ["id"], true) (by decide +kernel)
  obtain ⟨hop, hreads, hnames, himage⟩ : record.operation = .update ∧
      s.avro.readsColumns record.operation = true ∧ record.change.names = ["id"] ∧
      (row.selectedImage record.operation).isSome = true := by simpa using hseen
  obtain ⟨image, himage⟩ := Option.isSome_iff_exists.mp himage
  have hcache : (ofSchema ⟨0⟩ noteTable).cache = .ofDocuments [(⟨0⟩, noteTable.compress)] := rfl
  obtain ⟨-, horder, hsub⟩ := process_names_sublist hcache hrow hrecord
  obtain ⟨declared, hdeclared, heq, -⟩ := horder image himage
  obtain ⟨v, hv, -, -, -, hdocument⟩ := CachedSchema.parse_eq_ok_iff.mp hs
  have hlist : ∀ v, Json.parse? s.document = some v → Columns.isColumnList v = false := by
    intro v hv
    rw [hdocument] at hv
    obtain rfl := Option.some.inj (parse?_noteTable.symm.trans hv)
    decide +kernel
  rw [hop] at hdeclared
  exact ⟨s, row, record, image, declared, hrow, hrecord, himage, hdeclared, heq ▸ hnames, hreads,
    hsub hreads hlist⟩

/-- An insertion lists its columns in the order of its own type. -/
theorem process_names_swapped :
    ∃ (s : CachedSchema) (row : Row) (record : DmlRecord),
      (ofSchema ⟨0⟩ swappedTable).HoldsRow (wrapped swappedInsert) ⟨0⟩ s row ∧
      ((ofSchema ⟨0⟩ swappedTable).process (wrapped swappedInsert)).1 =
        .ok (some (.dml record)) ∧
      s.columns.names = ["id", "city"] ∧ record.change.names = ["city", "id"] ∧
      ¬ record.change.names.Sublist s.columns.names := by
  have hv : Json.parse? swappedTable.compress = some swappedTable := by
    simp only [Json.parse?, Json.compress, String.toList_ofList]
    decide +kernel
  have hreadable : swappedInsert.IsReadable := ⟨by decide +kernel, by decide +kernel⟩
  obtain ⟨s, row, record, hs, hrow, hrecord, hnames⟩ := exists_process_wrapped hv hreadable
    (fun _ _ record => record.change.names) ["city", "id"] (by decide +kernel)
  obtain ⟨v, hv', -, hcolumns, -, -⟩ := CachedSchema.parse_eq_ok_iff.mp hs
  obtain rfl : swappedTable = v := Option.some.inj (hv.symm.trans hv')
  have htable : (Columns.ofJson swappedTable).toOption.map Columns.names =
      some ["id", "city"] := by decide +kernel
  have hcolumnNames : s.columns.names = ["id", "city"] := by
    rw [hcolumns] at htable
    exact Option.some.inj htable
  refine ⟨s, row, record, hrow, hrecord, hcolumnNames, hnames, ?_⟩
  rw [hcolumnNames, hnames]
  decide

end Normalizer

end Change

end ChangeCapture
