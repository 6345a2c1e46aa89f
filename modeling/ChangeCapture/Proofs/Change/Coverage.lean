import ChangeCapture.Proofs.Avro.DistinctFields
import ChangeCapture.Proofs.Avro.Records
import ChangeCapture.Proofs.Change.Columns
import ChangeCapture.Proofs.Change.Documents
import ChangeCapture.Proofs.Change.Images
import ChangeCapture.Proofs.Change.Outcomes
import ChangeCapture.Proofs.Change.Rows

/-!
# Changes cover the columns

The columns of a table are found in the document, those of a row in the payload. If both images of a
row have the type that is defined for the first of them, the two agree and no column is lost.
-/

namespace ChangeCapture

namespace Avro.Schema

/-- Whether the field `after` of a change refers to the record that its field `before` defines, each
of them alone or beside null. -/
def imagesShareType : Schema → Bool
  | .record name fields =>
      match fields.find? (fun f => f.name == Change.beforeField),
          fields.find? (fun f => f.name == "after") with
      | some before, some after =>
          match before.type.nonNull, after.type.nonNull with
          | .record row _, .ref other => other.within name.space == row.within name.space
          | _, _ => false
      | _, _ => false
  | _ => false

/-- A record whose field `before` defines a record of columns, alone or beside null. -/
structure HasBefore (s : Schema) (name row : Name) (fields columns : List (Field Schema))
    (before : Field Schema) : Prop where
  eq_record : s = .record name fields
  before_mem : before ∈ fields
  before_name : before.name = Change.beforeField
  before_type : before.type.nonNull = .record row columns

theorem HasBefore.eq_of_name {s : Schema} {name row : Name} {fields columns : List (Field Schema)}
    {before : Field Schema} (h : s.HasBefore name row fields columns before)
    (hs : s.HasDistinctFields) : ∀ f ∈ fields, ∀ g ∈ fields, f.name = g.name → f = g := by
  rw [h.eq_record] at hs
  exact fun f hf g hg => List.inj_on_of_nodup_map hs.of_record.1 hf hg

/-- A change with the types of its two images. -/
structure IsChange (s : Schema) (name row other : Name) (fields columns : List (Field Schema))
    (before after : Field Schema) : Prop extends HasBefore s name row fields columns before where
  after_mem : after ∈ fields
  after_name : after.name = "after"
  after_type : after.type.nonNull = .ref other
  same_name : other.within name.space = row.within name.space

theorem exists_isChange {s : Schema} (h : s.imagesShareType) :
    ∃ name row other fields columns before after,
      s.IsChange name row other fields columns before after := by
  unfold imagesShareType at h
  split at h
  · next name fields =>
      split at h
      · next before after hbefore hafter =>
          split at h
          · next row columns other htype htype' =>
              have hcolumns : HasBefore (.record name fields) name row fields columns before :=
                ⟨rfl, List.mem_of_find?_eq_some hbefore, by simpa using List.find?_some hbefore,
                  htype⟩
              exact ⟨name, row, other, fields, columns, before, after, hcolumns,
                List.mem_of_find?_eq_some hafter, by simpa using List.find?_some hafter, htype',
                by simpa using h⟩
          · simp at h
      · simp at h
  · simp at h

end Avro.Schema

namespace Change

open Avro (Schema Name)

theorem Columns.exists_find? {columns : Columns} {name : String} (h : name ∈ columns.names) :
    ∃ c, columns.find? name = some c := by
  obtain ⟨c, hc, hname⟩ := List.mem_map.mp h
  refine Option.isSome_iff_exists.mp (List.find?_isSome.mpr ⟨c, hc, ?_⟩)
  simp [hname]

theorem Columns.mem_names_of_find? {columns : Columns} {name : String} {c : Column}
    (h : columns.find? name = some c) : name ∈ columns.names := by
  have hname : c.name = name := by simpa using List.find?_some h
  exact List.mem_map.mpr ⟨c, List.mem_of_find?_eq_some h, hname⟩

theorem Columns.find?_eq_none_iff {columns : Columns} {name : String} :
    columns.find? name = none ↔ name ∉ columns.names := by
  constructor
  · intro h hname
    obtain ⟨c, hc⟩ := Columns.exists_find? hname
    exact Option.some_ne_none c (hc.symm.trans h)
  · intro h
    rw [Option.eq_none_iff_forall_not_mem]
    exact fun c hc => h (Columns.mem_names_of_find? hc)

/-- Fields of columns that the table has are kept, in their order. -/
theorem map_typedFields (columns : Columns) (fields : Fields) :
    (typedFields columns fields).map (fun f => (f.name, f.value)) =
    fields.filter fun f => f.1 ∈ columns.names := by
  unfold typedFields
  rw [List.map_filterMap, ← List.filterMap_eq_filter]
  apply List.filterMap_congr
  intro f _
  by_cases hname : f.1 ∈ columns.names
  · obtain ⟨c, hc⟩ := Columns.exists_find? hname
    simp [hc, hname]
  · rw [Columns.find?_eq_none_iff.mpr hname, Option.guard, if_neg (by simpa using hname)]
    rfl

theorem typedFields_names (columns : Columns) (fields : Fields) :
    (typedFields columns fields).map ChangeField.name =
      (fields.map Prod.fst).filter (· ∈ columns.names) := by
  have hnames := congrArg (List.map Prod.fst) (map_typedFields columns fields)
  rw [List.map_map] at hnames
  rw [List.filter_map]
  exact hnames

namespace Row

/-- A known operation keeps the columns that it selects, as long as the table has them. -/
theorem normalizeRow_eq_ok {row : Row} {columns : Columns} {names : List String} (op : Operation)
    (hop : Operation.ofCode row.opType = op) (hknown : op.isKnown)
    (hnames : (row.selected op).map Prod.fst = names) (hcovers : names ⊆ columns.names)
    (strict : Bool) :
    ∃ record, normalizeRow row columns strict = .ok record ∧ record.change.names = names := by
  refine ⟨_, normalizeRow_eq_ok_iff.mpr ⟨fun _ => hop ▸ hknown, rfl⟩, ?_⟩
  rw [hop, ChangeSet.names, typedFields_names, hnames, List.filter_eq_self]
  exact fun name hname => decide_eq_true (hcovers hname)

variable {schema : Schema} {name record other : Name} {fields columns : List (Avro.Field Schema)}
  {before after : Avro.Field Schema} {payload : List UInt8} {row : Row}

theorem fields_of_decode (h : decode (.record name fields) payload = .ok row) :
    ∃ defs fuel vs rest, (Schema.record name fields).definitions? = some defs ∧
      Avro.Reader.fields? (Schema.read? defs fuel name.space) fields payload = some (vs, rest) ∧
      (∀ image, row.before = some image →
        ∃ w, (beforeField, w) ∈ vs ∧ w.unwrap = .record image.fields) ∧
      ∀ image, row.after = some image →
        ∃ w, ("after", w) ∈ vs ∧ w.unwrap = .record image.fields := by
  obtain ⟨v, hv, hvalue⟩ := decode_eq_ok_iff.mp h
  obtain ⟨vs, hvs, hbefore, hafter⟩ := images_of_ofValue hvalue
  unfold Schema.decode? at hv
  cases hdefs : (Schema.record name fields).definitions? with
  | none => simp [hdefs] at hv
  | some defs =>
      simp only [hdefs] at hv
      obtain ⟨⟨v', rest⟩, hread, rfl⟩ := Option.map_eq_some_iff.mp hv
      obtain ⟨vs', hfields, rfl⟩ := Schema.read?_record hread
      obtain rfl : vs' = vs := by simpa [Avro.Value.unwrap] using hvs
      have hspace : (name.within none).space = name.space := by simp [Name.within]
      rw [hspace] at hfields
      exact ⟨defs, _, vs', rest, rfl, hfields, hbefore, hafter⟩

/-- The image that the field `before` holds was read with the columns that are defined there, and so
was the other image if its type is the same. -/
theorem fields?_of_image (hbefore : schema.HasBefore name record fields columns before)
    (hdistinct : ∀ f ∈ fields, ∀ g ∈ fields, f.name = g.name → f = g)
    (hrow : decode schema payload = .ok row) {image : RowImage}
    (himage : row.before = some image ∨ row.after = some image ∧
      ∃ other after, schema.IsChange name record other fields columns before after) :
    ∃ defs fuel space bytes rest, schema.definitions? = some defs ∧
      Avro.Reader.fields? (Schema.read? defs fuel space) columns bytes =
        some (image.fields, rest) := by
  obtain rfl := hbefore.eq_record
  obtain ⟨defs, fuel, vs, rest, hdefs, hfields, hbeforeValue, hafterValue⟩ := fields_of_decode hrow
  have hlookup : defs.lookup (record.within name.space) = some (.record record columns) := by
    simpa [Name.within] using
      Schema.lookup_of_definitions? hdefs hbefore.before_mem hbefore.before_type
  obtain ⟨f, hf, htype, w, hw, hunwrap⟩ : ∃ f ∈ fields,
      (f.type.nonNull = .record record columns ∨ ∃ other, f.type.nonNull = .ref other ∧
        defs.lookup (other.within name.space) = some (.record record columns)) ∧
      ∃ w, (f.name, w) ∈ vs ∧ w.unwrap = .record image.fields := by
    rcases himage with himage | ⟨himage, other, after, hchange⟩
    · refine ⟨before, hbefore.before_mem, Or.inl hbefore.before_type, ?_⟩
      rw [hbefore.before_name]
      exact hbeforeValue image himage
    · refine ⟨after, hchange.after_mem, Or.inr ⟨other, hchange.after_type, ?_⟩, ?_⟩
      · rw [hchange.same_name, hlookup]
      · rw [hchange.after_name]
        exact hafterValue image himage
  rcases Schema.fields?_of_fields? hdistinct hfields hf htype hw with
    hnull | ⟨ws, fuel', space', bytes', rest', hws, hread⟩
  · simp [hunwrap] at hnull
  · obtain rfl : image.fields = ws := by simpa [hunwrap] using hws
    exact ⟨defs, fuel', space', bytes', rest', hdefs, hread⟩

/-- The images of a row have the columns that its schema declares for the first of them. -/
theorem image_names (hchange : schema.IsChange name record other fields columns before after)
    (hdistinct : ∀ f ∈ fields, ∀ g ∈ fields, f.name = g.name → f = g)
    (hrow : decode schema payload = .ok row) {image : RowImage}
    (himage : row.before = some image ∨ row.after = some image) :
    image.fields.map Prod.fst = columns.map Avro.Field.name := by
  have hshared : row.before = some image ∨ row.after = some image ∧
      ∃ other after, schema.IsChange name record other fields columns before after :=
    himage.imp_right fun h => ⟨h, other, after, hchange⟩
  obtain ⟨_, _, _, _, _, -, hread⟩ := fields?_of_image hchange.toHasBefore hdistinct hrow hshared
  exact Avro.Reader.fields?_names hread

end Row

/-- No column is lost: insertions and deletions change all columns of the table, in their order, and
updates those that the image after the change does not flag as missing. -/
theorem normalizeRow_names {fingerprint : Fingerprint} {document : String} {cached : CachedSchema}
    {payload : List UInt8} {row : Row}
    (hparse : CachedSchema.parse fingerprint document = .ok cached)
    (hlist : ∀ v, Json.parse? document = some v → Columns.isColumnList v = false)
    (himages : cached.avro.imagesShareType) (hrow : Row.decode cached.avro payload = .ok row)
    (strict : Bool) :
    (∀ image, row.opType = "I" → row.after = some image →
      ∃ record, normalizeRow row cached.columns strict = .ok record ∧
        record.change.names = cached.columns.names) ∧
    (∀ image, row.opType = "D" → row.before = some image →
      ∃ record, normalizeRow row cached.columns strict = .ok record ∧
        record.change.names = cached.columns.names) ∧
    ∀ image, row.opType = "U" → row.after = some image →
      ∃ record, normalizeRow row cached.columns strict = .ok record ∧
        record.change.names = cached.columns.names.filter fun name => ¬ image.Flags name := by
  obtain ⟨v, hv, havro, hcolumns, -, -⟩ := CachedSchema.parse_eq_ok_iff.mp hparse
  obtain ⟨name, record, other, fields, columns, before, after, hchange⟩ :=
    Avro.Schema.exists_isChange himages
  have hdistinct := hchange.eq_of_name (Avro.Schema.hasDistinctFields_of_ofJson? havro)
  rw [hchange.eq_record] at havro
  have hnames := Columns.names_of_ofJson (hlist v hv) hcolumns havro hchange.before_mem
    hchange.before_name hchange.before_type
  have himage : ∀ image, row.before = some image ∨ row.after = some image →
      (image.fields.map Prod.fst).filter (fun name => !isMissingFlag name) =
        cached.columns.names := by
    intro image himage
    rw [Row.image_names hchange hdistinct hrow himage, hnames]
  refine ⟨fun image hop hafter => ?_, fun image hop hbefore => ?_, fun image hop hafter => ?_⟩
  · refine Row.normalizeRow_eq_ok .insert (by rw [hop]; rfl) rfl ?_ (List.Subset.refl _) strict
    rw [← himage image (Or.inr hafter), ← RowImage.columns_names]
    simp [Row.selected, hafter]
  · refine Row.normalizeRow_eq_ok .delete (by rw [hop]; rfl) rfl ?_ (List.Subset.refl _) strict
    rw [← himage image (Or.inl hbefore), ← RowImage.columns_names]
    simp [Row.selected, hbefore]
  · refine Row.normalizeRow_eq_ok .update (by rw [hop]; rfl) rfl ?_ (List.filter_subset_self _)
      strict
    rw [← himage image (Or.inr hafter), ← RowImage.presentColumns_names]
    simp [Row.selected, hafter]

/-- An update whose `note` was not captured. -/
def noteUpdate : List UInt8 := [2, 0x54, 2, 0x55, 0, 2, 2, 0, 1]

/-- An update without its `note` changes the column `id` only. -/
theorem normalizeRow_names_noteUpdate : ∃ cached row record,
    CachedSchema.parse ⟨0⟩ noteTable.compress = .ok cached ∧
      Row.decode cached.avro noteUpdate = .ok row ∧ row.opType = "U" ∧
      normalizeRow row cached.columns true = .ok record ∧
      cached.columns.names = ["id", "note"] ∧ record.change.names = ["id"] := by
  obtain ⟨columns, hcolumns, hnames⟩ : ∃ columns, Columns.ofJson noteTable = .ok columns ∧
      columns.names = ["id", "note"] := ⟨_, rfl, by decide +kernel⟩
  have hchange : (Avro.Schema.ofJson? noteTable).map (fun s => (s.imagesShareType,
      (Row.decode s noteUpdate).toOption.map fun row => (row.opType, row.after.map fun image =>
        ["id", "note"].filter fun name => ¬ image.Flags name))) =
      some (true, some ("U", some ["id"])) := by decide +kernel
  obtain ⟨avro, havro, hchange⟩ := Option.map_eq_some_iff.mp hchange
  obtain ⟨himages, hdecode⟩ := Prod.mk.inj hchange
  obtain ⟨row, hrow, hparts⟩ := Option.map_eq_some_iff.mp hdecode
  obtain ⟨hop, hpresent⟩ := Prod.mk.inj hparts
  obtain ⟨image, himage, hpresent⟩ := Option.map_eq_some_iff.mp hpresent
  have hparse := parse_noteTable havro hcolumns
  have hlist : ∀ v, Json.parse? noteTable.compress = some v → Columns.isColumnList v = false := by
    intro v hv
    obtain rfl := Option.some.inj (parse?_noteTable.symm.trans hv)
    decide +kernel
  have hdecode := eq_ok_of_toOption hrow
  obtain ⟨record, hrecord, hrecordNames⟩ :=
    (normalizeRow_names hparse hlist himages hdecode true).2.2 image hop himage
  refine ⟨_, row, record, hparse, hdecode, hop, hrecord, hnames, ?_⟩
  rw [hrecordNames, hnames, hpresent]

end Change

end ChangeCapture
