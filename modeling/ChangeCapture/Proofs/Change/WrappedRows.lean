import ChangeCapture.Proofs.Change.Caches
import ChangeCapture.Proofs.Change.Coverage
import ChangeCapture.Proofs.Change.Wrappers

/-!
# Rows in their wrappers

A record that wraps a row, and the change that comes of it: the wrapper is read, its fingerprint
finds the schema, and the row is read with that schema.
-/

namespace ChangeCapture.Change

theorem eq_of_normalizeRow {row : Row} {columns : Columns} {strict : Bool} {record : DmlRecord}
    (h : normalizeRow row columns strict = .ok record) :
    record.schema = columns.document ∧ record.opType = row.opType ∧
      record.change = ⟨typedFields columns (row.selected record.operation)⟩ := by
  obtain ⟨-, rfl⟩ := normalizeRow_eq_ok_iff.mp h
  exact ⟨rfl, rfl, rfl⟩

theorem DecodedChange.decode_eq_ok {cache : SchemaCache} {bytes : List UInt8} {wrapper : Wrapper}
    {schema : CachedSchema} {row : Row} (hwrapper : Wrapper.decode bytes = .ok wrapper)
    (hschema : cache.resolve wrapper.fingerprint = .ok schema)
    (hrow : Row.decode schema.avro wrapper.payload = .ok row) :
    decode cache bytes = .ok ⟨wrapper.tableName, row, schema⟩ := by
  simp only [decode, hwrapper, hschema, hrow]

theorem DecodedChange.exists_wrapper_of_decode {cache : SchemaCache} {bytes : List UInt8}
    {d : DecodedChange} (h : decode cache bytes = .ok d) :
    ∃ wrapper, Wrapper.decode bytes = .ok wrapper ∧
      cache.resolve wrapper.fingerprint = .ok d.schema ∧
      Row.decode d.schema.avro wrapper.payload = .ok d.row := by
  unfold decode at h
  split at h
  · exact nomatch h
  · next wrapper hwrapper =>
      split at h
      · exact nomatch h
      · next schema hschema =>
          split at h
          · exact nomatch h
          · next row hrow =>
              obtain rfl := Except.ok.inj h
              exact ⟨wrapper, hwrapper, hschema, hrow⟩

namespace SchemaCache

theorem resolve_eq_ok_iff {cache : SchemaCache} {f : Fingerprint} {s : CachedSchema} :
    cache.resolve f = .ok s ↔ cache.find? f = some (.ok s) := by
  unfold resolve
  split
  · next s' hs => rw [hs, Except.ok.injEq, Option.some.injEq, Except.ok.injEq]
  · next fault hs => simp [hs]
  · next hs => simp [hs]

theorem resolve_singleton {f : Fingerprint} {document : String} {s : CachedSchema}
    (h : CachedSchema.parse f document = .ok s) :
    (ofDocuments [(f, document)]).resolve f = .ok s := by
  rw [resolve_eq_ok_iff, find?_ofDocuments]
  simp [h]

theorem exists_parse_of_resolve {documents : List (Fingerprint × String)} {f : Fingerprint}
    {s : CachedSchema} (h : (ofDocuments documents).resolve f = .ok s) :
    ∃ document, CachedSchema.parse f document = .ok s := by
  have hfind := resolve_eq_ok_iff.mp h
  rw [find?_ofDocuments] at hfind
  obtain ⟨document, -, hparse⟩ := Option.map_eq_some_iff.mp hfind
  exact ⟨document, hparse⟩

end SchemaCache

namespace Normalizer

@[simp] theorem new_cache (settings : Settings) (cache : SchemaCache) :
    (new settings cache).cache = cache := rfl

@[simp] theorem new_settings (settings : Settings) (cache : SchemaCache) :
    (new settings cache).settings = settings := rfl

theorem recordOf_eq_ok {settings : Settings} {cache : SchemaCache} {r : InboundRecord}
    {bytes : List UInt8} {d : DecodedChange} {record : DmlRecord}
    (hbytes : Envelope.classify r settings.effectiveField = .ok (.row bytes))
    (hd : DecodedChange.decode cache bytes = .ok d)
    (hrecord : normalizeRow d.row d.schema.columns settings.strictOpTypes = .ok record) :
    recordOf settings cache r = .ok (some (.dml record)) := by
  simp only [recordOf, changeOf, hbytes, hd, hrecord]
  rfl

theorem exists_decoded_of_recordOf {settings : Settings} {cache : SchemaCache}
    {r : InboundRecord} {record : DmlRecord}
    (h : recordOf settings cache r = .ok (some (.dml record))) :
    ∃ bytes d, Envelope.classify r settings.effectiveField = .ok (.row bytes) ∧
      DecodedChange.decode cache bytes = .ok d ∧
      normalizeRow d.row d.schema.columns settings.strictOpTypes = .ok record := by
  unfold recordOf at h
  split at h
  · exact nomatch h
  · exact nomatch h
  · next payload _ => cases hddl : normalizeDdl payload <;> simp [hddl, Except.map] at h
  · next bytes hbytes =>
      unfold changeOf at h
      cases hd : DecodedChange.decode cache bytes with
      | error e => simp [hd, Except.map] at h
      | ok d =>
          simp only [hd] at h
          cases hrecord : normalizeRow d.row d.schema.columns settings.strictOpTypes with
          | error e => simp [hrecord, Except.map] at h
          | ok record' =>
              obtain rfl : record' = record := by simpa [hrecord, Except.map] using h
              exact ⟨bytes, d, hbytes, hd, hrecord⟩

/-- A record that wraps a row under a fingerprint, read with the schema of that fingerprint. -/
def HoldsRow (n : Normalizer) (r : InboundRecord) (f : Fingerprint) (s : CachedSchema)
    (row : Row) : Prop :=
  ∃ bytes tableName payload, Envelope.classify r n.settings.effectiveField = .ok (.row bytes) ∧
    Wrapper.decode bytes = .ok ⟨tableName, f, payload⟩ ∧ n.cache.resolve f = .ok s ∧
    Row.decode s.avro payload = .ok row

variable {n : Normalizer} {r : InboundRecord} {f : Fingerprint} {s : CachedSchema} {row : Row}

theorem HoldsRow.process_eq_ok_iff (h : n.HoldsRow r f s row) {record : DmlRecord} :
    (n.process r).1 = .ok (some (.dml record)) ↔
      normalizeRow row s.columns n.settings.strictOpTypes = .ok record := by
  obtain ⟨bytes, tableName, payload, hbytes, hwrapper, hs, hrow⟩ := h
  have hdecode : DecodedChange.decode n.cache bytes = .ok ⟨tableName, row, s⟩ :=
    DecodedChange.decode_eq_ok hwrapper hs hrow
  rw [process_fst]
  constructor
  · intro hrecord
    obtain ⟨bytes', d, hbytes', hd, hrecord⟩ := exists_decoded_of_recordOf hrecord
    obtain rfl : bytes = bytes' := by simpa [hbytes] using hbytes'
    obtain rfl : ⟨tableName, row, s⟩ = d := by simpa [hdecode] using hd
    exact hrecord
  · exact recordOf_eq_ok hbytes hdecode

theorem HoldsRow.resolve_eq_ok (h : n.HoldsRow r f s row) : n.cache.resolve f = .ok s := by
  obtain ⟨-, -, -, -, -, hs, -⟩ := h
  exact hs

/-- A normalizer that knows one schema. -/
def ofSchema (f : Fingerprint) (v : Json) : Normalizer :=
  new .default (.ofDocuments [(f, v.compress)])

def wrapped (w : Wrapper) : InboundRecord := ⟨none, [("message", w.encode)]⟩

theorem classify_wrapped (w : Wrapper) :
    Envelope.classify (wrapped w) Settings.default.effectiveField = .ok (.row w.encode) := by
  have hfield : Settings.default.effectiveField = "message" := rfl
  rw [hfield]
  rfl

/-- What comes of a wrapped row, from the parts that are computed on the way. -/
theorem exists_process_wrapped {v : Json} (hv : Json.parse? v.compress = some v) {w : Wrapper}
    (hw : w.IsReadable) {α : Type} (look : Avro.Schema → Row → DmlRecord → α) (seen : α)
    (hparts : ((Avro.Schema.ofJson? v).bind fun avro =>
      (Columns.ofJson v).toOption.bind fun columns =>
        (Row.decode avro w.payload).toOption.bind fun row =>
          (normalizeRow row columns false).toOption.map (look avro row)) = some seen) :
    ∃ s row record, CachedSchema.parse w.fingerprint v.compress = .ok s ∧
      (ofSchema w.fingerprint v).HoldsRow (wrapped w) w.fingerprint s row ∧
      ((ofSchema w.fingerprint v).process (wrapped w)).1 = .ok (some (.dml record)) ∧
      look s.avro row record = seen := by
  obtain ⟨avro, havro, hparts⟩ := Option.bind_eq_some_iff.mp hparts
  obtain ⟨columns, hcolumns, hparts⟩ := Option.bind_eq_some_iff.mp hparts
  obtain ⟨row, hrow, hparts⟩ := Option.bind_eq_some_iff.mp hparts
  obtain ⟨record, hrecord, hseen⟩ := Option.map_eq_some_iff.mp hparts
  have hparse : CachedSchema.parse w.fingerprint v.compress =
      .ok ⟨w.fingerprint, v.compress, avro, columns⟩ :=
    CachedSchema.parse_eq_ok_iff.mpr ⟨v, hv, havro, eq_ok_of_toOption hcolumns, rfl, rfl⟩
  have hwrapper : Wrapper.decode w.encode = .ok w := by
    rw [← List.append_nil w.encode]
    exact Wrapper.decode_encode hw []
  have hholds : (ofSchema w.fingerprint v).HoldsRow (wrapped w) w.fingerprint
      ⟨w.fingerprint, v.compress, avro, columns⟩ row :=
    ⟨w.encode, w.tableName, w.payload, classify_wrapped w, hwrapper,
      SchemaCache.resolve_singleton hparse, eq_ok_of_toOption hrow⟩
  have hprocess := hholds.process_eq_ok_iff.mpr (eq_ok_of_toOption hrecord)
  exact ⟨_, row, record, hparse, hholds, hprocess, hseen⟩

/-! ## A note without its text -/

def noteCache : SchemaCache := .ofDocuments [(⟨0⟩, noteTable.compress)]

def noteWrapper : Wrapper := ⟨"T", ⟨0⟩, noteUpdate⟩

def noteRecord : InboundRecord := ⟨none, [("message", noteWrapper.encode)]⟩

end Normalizer

end ChangeCapture.Change
