import ChangeCapture.Proofs.Change.WrappedRows

/-!
# Changes are parts of the columns

Whatever the images of a row look like, its change has columns of the table only, each once, with
the type that the table declares and the value that the image holds.
-/

namespace ChangeCapture.Change

open Avro (Schema)

/-- What is found under a key does not depend on the entries of other keys. -/
theorem lookup_filter {κ α : Type} [BEq κ] [LawfulBEq κ] {p : κ → Bool} {k : κ} (hk : p k)
    (entries : List (κ × α)) : (entries.filter fun e => p e.1).lookup k = entries.lookup k := by
  induction entries with
  | nil => rfl
  | cons e rest ih =>
      obtain ⟨l, a⟩ := e
      rw [List.filter_cons, List.lookup_cons]
      by_cases hl : p l
      · rw [if_pos hl, List.lookup_cons, ih]
      · have hne : k ≠ l := by
          rintro rfl
          exact hl hk
        rw [if_neg hl, beq_false_of_ne hne]
        exact ih

namespace Fields

theorem lookup_of_mem {fields : Fields} {name : String} {v : Avro.Value}
    (hdistinct : (fields.map Prod.fst).Nodup) (h : (name, v) ∈ fields) :
    fields.lookup name = some v := by
  induction fields with
  | nil => exact nomatch h
  | cons f rest ih =>
      obtain ⟨n, w⟩ := f
      obtain ⟨hn, hrest⟩ := List.nodup_cons.mp hdistinct
      rw [List.lookup_cons]
      rcases List.mem_cons.mp h with heq | hmem
      · obtain ⟨rfl, rfl⟩ := Prod.mk.inj heq
        simp
      · have hne : name ≠ n := by
          rintro rfl
          exact hn (List.mem_map.mpr ⟨(name, v), hmem, rfl⟩)
        rw [beq_false_of_ne hne]
        exact ih hrest hmem

end Fields

theorem mem_typedFields {columns : Columns} {fields : Fields} {f : ChangeField} :
    f ∈ typedFields columns fields ↔ (f.name, f.value) ∈ fields ∧
      (columns.find? f.name).map Column.type = some f.type := by
  unfold typedFields
  rw [List.mem_filterMap]
  constructor
  · rintro ⟨⟨name, v⟩, hmem, hf⟩
    obtain ⟨c, hc, rfl⟩ := Option.map_eq_some_iff.mp hf
    exact ⟨hmem, by simp [hc]⟩
  · rintro ⟨hmem, htype⟩
    obtain ⟨c, hc, hctype⟩ := Option.map_eq_some_iff.mp htype
    exact ⟨(f.name, f.value), hmem, by simp [hc, hctype]⟩

namespace Row

/-- The columns of the image whose columns an operation selects. -/
def selectable (row : Row) (op : Operation) : Fields :=
  ((row.selectedImage op).map RowImage.columns).getD []

theorem selected_sublist (row : Row) (op : Operation) :
    (row.selected op).Sublist (row.selectable op) := by
  cases op with
  | update =>
      unfold selected selectable selectedImage
      cases row.after with
      | none => exact List.Sublist.refl _
      | some image => exact image.presentColumns_sublist
  | _ => exact List.Sublist.refl _

theorem mem_selectable {row : Row} {op : Operation} {f : String × Avro.Value} :
    f ∈ row.selectable op ↔ ∃ image, row.selectedImage op = some image ∧ f ∈ image.fields ∧
      isMissingFlag f.1 = false := by
  unfold selectable
  cases row.selectedImage op with
  | none => simp
  | some image => simp [RowImage.columns]

variable {row : Row}

/-- No image of a row has two columns of one name. -/
def HasDistinctColumns (row : Row) : Prop :=
  ∀ image, row.before = some image ∨ row.after = some image →
    (image.fields.map Prod.fst).Nodup

theorem HasDistinctColumns.selectedImage (h : row.HasDistinctColumns) {op : Operation}
    {image : RowImage} (himage : row.selectedImage op = some image) :
    (image.fields.map Prod.fst).Nodup := by
  cases op with
  | insert => exact h image (Or.inr himage)
  | update => exact h image (Or.inr himage)
  | delete => exact h image (Or.inl himage)
  | other code => exact nomatch himage

theorem HasDistinctColumns.selectable (h : row.HasDistinctColumns) (op : Operation) :
    ((row.selectable op).map Prod.fst).Nodup := by
  unfold Row.selectable
  cases himage : row.selectedImage op with
  | none => exact List.nodup_nil
  | some image =>
      have hsub : image.columns.Sublist image.fields := List.filter_sublist
      exact (h.selectedImage himage).sublist (hsub.map Prod.fst)

theorem hasDistinctColumns_of_decode {schema : Schema} (hschema : schema.HasDistinctFields)
    {payload : List UInt8} (h : decode schema payload = .ok row) : row.HasDistinctColumns := by
  obtain ⟨v, hv, hvalue⟩ := decode_eq_ok_iff.mp h
  obtain ⟨fields, hfields, hbefore, hafter⟩ := images_of_ofValue hvalue
  have hrecord := (Schema.hasDistinctFields_of_decode? hschema hv).unwrap
  rw [hfields] at hrecord
  intro image himage
  obtain ⟨f, hf, hunwrap⟩ : ∃ f ∈ fields, f.2.unwrap = .record image.fields := by
    rcases himage with himage | himage
    · obtain ⟨w, hw, hunwrap⟩ := hbefore image himage
      exact ⟨_, hw, hunwrap⟩
    · obtain ⟨w, hw, hunwrap⟩ := hafter image himage
      exact ⟨_, hw, hunwrap⟩
  have hvalue := (hrecord.of_record.2 f hf).unwrap
  rw [hunwrap] at hvalue
  exact hvalue.of_record.1

end Row

/-- What a change is of a table and of the image that it was selected from. -/
structure ChangeSet.IsPartOf (change : ChangeSet) (columns : Columns) (image? : Option RowImage) :
    Prop where
  names_nodup : change.names.Nodup
  names_subset : change.names ⊆ columns.names
  not_flag : ∀ name ∈ change.names, ¬ missingSuffix.toList <:+ name.toList
  type_eq : ∀ f ∈ change.fields, (columns.find? f.name).map Column.type = some f.type
  value_eq : ∀ f ∈ change.fields, ∃ image, image? = some image ∧ image.get? f.name = some f.value

theorem isPartOf_typedFields {row : Row} (hrow : row.HasDistinctColumns) (columns : Columns)
    (op : Operation) :
    (ChangeSet.mk (typedFields columns (row.selected op))).IsPartOf columns
      (row.selectedImage op) := by
  have hselected : ∀ f ∈ typedFields columns (row.selected op), ∃ image,
      row.selectedImage op = some image ∧ (f.name, f.value) ∈ image.fields ∧
      isMissingFlag f.name = false := fun f hf =>
    Row.mem_selectable.mp ((row.selected_sublist op).subset (mem_typedFields.mp hf).1)
  constructor
  · rw [ChangeSet.names, typedFields_names]
    exact (hrow.selectable op).sublist
      (List.filter_sublist.trans ((row.selected_sublist op).map Prod.fst))
  · intro name hname
    obtain ⟨f, hf, rfl⟩ := List.mem_map.mp hname
    obtain ⟨c, hc, -⟩ := Option.map_eq_some_iff.mp (mem_typedFields.mp hf).2
    exact Columns.mem_names_of_find? hc
  · intro name hname hsuffix
    obtain ⟨f, hf, rfl⟩ := List.mem_map.mp hname
    obtain ⟨image, -, -, hflag⟩ := hselected f hf
    exact Bool.false_ne_true (hflag.symm.trans (List.isSuffixOf_iff_suffix.mpr hsuffix))
  · exact fun f hf => (mem_typedFields.mp hf).2
  · intro f hf
    obtain ⟨image, himage, hmem, -⟩ := hselected f hf
    exact ⟨image, himage, Fields.lookup_of_mem (hrow.selectedImage himage) hmem⟩

namespace Normalizer

variable {n : Normalizer} {documents : List (Fingerprint × String)} {r : InboundRecord}
  {record : DmlRecord}

theorem HoldsRow.isPartOf (hcache : n.cache = .ofDocuments documents) {f : Fingerprint}
    {s : CachedSchema} {row : Row} (h : n.HoldsRow r f s row)
    (hrecord : (n.process r).1 = .ok (some (.dml record))) :
    record.change.IsPartOf s.columns row.source := by
  obtain ⟨-, hop, hchange⟩ := eq_of_normalizeRow (h.process_eq_ok_iff.mp hrecord)
  -- The schema was read from a document, which lets no record have two fields of one name.
  obtain ⟨document, hparse⟩ := SchemaCache.exists_parse_of_resolve (hcache ▸ h.resolve_eq_ok)
  obtain ⟨v, -, havro, -⟩ := CachedSchema.parse_eq_ok_iff.mp hparse
  obtain ⟨bytes, tableName, payload, -, -, -, hdecode⟩ := h
  have hdistinct := Row.hasDistinctColumns_of_decode (Schema.hasDistinctFields_of_ofJson? havro)
    hdecode
  rw [row.source_eq, ← hop, hchange]
  exact isPartOf_typedFields hdistinct s.columns record.operation

/-- A change is a part of the columns of the schema that its row was decoded with, and of the image
that the code of its operation picks. -/
theorem process_isPartOf (hcache : n.cache = .ofDocuments documents)
    (h : (n.process r).1 = .ok (some (.dml record))) :
    ∃ bytes wrapper schema row,
      Envelope.classify r n.settings.effectiveField = .ok (.row bytes) ∧
      Wrapper.decode bytes = .ok wrapper ∧ n.cache.resolve wrapper.fingerprint = .ok schema ∧
      Row.decode schema.avro wrapper.payload = .ok row ∧ record.opType = row.opType ∧
      record.schema = schema.columns.document ∧
      record.change.IsPartOf schema.columns row.source := by
  have hdecoded := h
  rw [process_fst] at hdecoded
  obtain ⟨bytes, d, hbytes, hd, hrecord⟩ := exists_decoded_of_recordOf hdecoded
  obtain ⟨wrapper, hwrapper, hschema, hrow⟩ := DecodedChange.exists_wrapper_of_decode hd
  obtain ⟨hdocument, hop, -⟩ := eq_of_normalizeRow hrecord
  have hholds : n.HoldsRow r wrapper.fingerprint d.schema d.row :=
    ⟨bytes, wrapper.tableName, wrapper.payload, hbytes, hwrapper, hschema, hrow⟩
  exact ⟨bytes, wrapper, d.schema, d.row, hbytes, hwrapper, hschema, hrow, hop, hdocument,
    hholds.isPartOf hcache h⟩

/-- The deletion of the note `n` under the number 1. -/
def noteDelete : Wrapper := ⟨"T", ⟨0⟩, [2, 0x54, 2, 0x44, 2, 2, 2, 0x6e, 0, 0]⟩

/-- An update is a part of the image after it, and a deletion of the image before it. -/
theorem process_isPartOf_note :
    (∃ (update : DmlRecord) (wrapper : Wrapper) (schema : CachedSchema) (row : Row),
      ((ofSchema ⟨0⟩ noteTable).process (wrapped noteWrapper)).1 = .ok (some (.dml update)) ∧
      update.opType = "U" ∧ update.change.names = ["id"] ∧
      noteCache.resolve wrapper.fingerprint = .ok schema ∧
      Row.decode schema.avro wrapper.payload = .ok row ∧
      update.change.IsPartOf schema.columns row.after) ∧
    ∃ (deletion : DmlRecord) (wrapper : Wrapper) (schema : CachedSchema) (row : Row),
      ((ofSchema ⟨0⟩ noteTable).process (wrapped noteDelete)).1 = .ok (some (.dml deletion)) ∧
      deletion.opType = "D" ∧ deletion.change.names = ["id", "note"] ∧
      noteCache.resolve wrapper.fingerprint = .ok schema ∧
      Row.decode schema.avro wrapper.payload = .ok row ∧
      deletion.change.IsPartOf schema.columns row.before := by
  have hcache : (ofSchema ⟨0⟩ noteTable).cache = .ofDocuments [(⟨0⟩, noteTable.compress)] := rfl
  constructor
  · have hreadable : noteWrapper.IsReadable := ⟨by decide +kernel, by decide +kernel⟩
    obtain ⟨-, -, update, -, -, hupdate, hseen⟩ := exists_process_wrapped parse?_noteTable
      hreadable (fun _ _ record => (record.opType, record.change.names)) ("U", ["id"])
      (by decide +kernel)
    obtain ⟨hop, hnames⟩ := Prod.mk.inj hseen
    obtain ⟨-, wrapper, schema, row, -, -, hschema, hrow, hcode, -, hpart⟩ :=
      process_isPartOf hcache hupdate
    rw [Row.source, ← hcode, hop, if_pos (Or.inr rfl)] at hpart
    exact ⟨update, wrapper, schema, row, hupdate, hop, hnames, hschema, hrow, hpart⟩
  · have hreadable : noteDelete.IsReadable := ⟨by decide +kernel, by decide +kernel⟩
    obtain ⟨-, -, deletion, -, -, hdeletion, hseen⟩ := exists_process_wrapped parse?_noteTable
      hreadable (fun _ _ record => (record.opType, record.change.names)) ("D", ["id", "note"])
      (by decide +kernel)
    obtain ⟨hop, hnames⟩ := Prod.mk.inj hseen
    obtain ⟨-, wrapper, schema, row, -, -, hschema, hrow, hcode, -, hpart⟩ :=
      process_isPartOf hcache hdeletion
    rw [Row.source, ← hcode, hop, if_neg (by decide), if_pos rfl] at hpart
    exact ⟨deletion, wrapper, schema, row, hdeletion, hop, hnames, hschema, hrow, hpart⟩

end Normalizer

end ChangeCapture.Change
