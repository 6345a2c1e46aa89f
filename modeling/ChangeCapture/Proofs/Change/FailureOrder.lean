import ChangeCapture.Proofs.Change.Selections
import ChangeCapture.Proofs.Change.WrappedRows

/-!
# The order of failures

A record can be wrong in more than one way at once. The first stage that fails decides which error
comes out: the input field, then what the record's name says it holds, and of a wrapped row the
wrapper, its schema, the payload, and the operation.
-/

namespace ChangeCapture

/-- Errors that no further attempt avoids, and that neither a connection nor a database caused. -/
structure Error.IsLasting (e : Error) : Prop where
  notRetriable : e.isRetriable = false
  notNetwork : e.category ≠ .network
  notDatabase : e.category ≠ .database

namespace Change

/-- Why no columns come out of the document that announces a table. -/
inductive DocumentFails (document : String) : Error → Prop
  | notJson (h : Json.parse? document = none) : DocumentFails document .json
  | noNamespace {v : Json} (hv : Json.parse? document = some v)
      (h : v.text? "namespace" = none) : DocumentFails document (.schema .noNamespace)
  | noName {v : Json} {space : String} (hv : Json.parse? document = some v)
      (hspace : v.text? "namespace" = some space) (h : v.text? "name" = none) :
      DocumentFails document (.schema .noName)
  | noColumns {v : Json} {space name : String} {fault : SchemaFault}
      (hv : Json.parse? document = some v) (hspace : v.text? "namespace" = some space)
      (hname : v.text? "name" = some name) (h : Columns.ofJson v = .error fault) :
      DocumentFails document (.schema fault)

/-- Why an announced table has no record. -/
inductive AnnouncementFails (payload : List UInt8) : Error → Prop
  | notUtf8 {fault : Text.Utf8.Fault} (h : Text.Utf8.decode payload = .error fault) :
      AnnouncementFails payload (.data (.notUtf8 fault))
  | document {cs : List Char} {e : Error} (hcs : Text.Utf8.decode payload = .ok cs)
      (h : DocumentFails (String.ofList cs) e) : AnnouncementFails payload e

theorem DocumentFails.normalizeDdl_eq {payload : List UInt8} {cs : List Char} {e : Error}
    (hcs : Text.Utf8.decode payload = .ok cs) (h : DocumentFails (String.ofList cs) e) :
    normalizeDdl payload = .error e := by
  simp only [normalizeDdl, TableDefinition.parse, hcs, TableDefinition.ofDocument]
  cases h with
  | notJson h => simp only [h]
  | noNamespace hv h => simp only [hv, h]
  | noName hv hspace h => simp only [hv, hspace, h]
  | noColumns hv hspace hname h =>
      simp only [hv, hspace, hname, normalizeSchema, Columns.ofDocument, h, Except.map]

theorem AnnouncementFails.normalizeDdl_eq {payload : List UInt8} {e : Error}
    (h : AnnouncementFails payload e) : normalizeDdl payload = .error e := by
  cases h with
  | notUtf8 h => simp only [normalizeDdl, TableDefinition.parse, h]
  | document hcs h => exact h.normalizeDdl_eq hcs

/-- There is no other cause. -/
theorem normalizeDdl_ok_or_fails (payload : List UInt8) :
    (∃ record, normalizeDdl payload = .ok record) ∨ ∃ e, AnnouncementFails payload e := by
  cases hcs : Text.Utf8.decode payload with
  | error fault => exact Or.inr ⟨_, .notUtf8 hcs⟩
  | ok cs =>
      cases hv : Json.parse? (String.ofList cs) with
      | none => exact Or.inr ⟨_, .document hcs (.notJson hv)⟩
      | some v =>
          cases hspace : v.text? "namespace" with
          | none => exact Or.inr ⟨_, .document hcs (.noNamespace hv hspace)⟩
          | some space =>
              cases hname : v.text? "name" with
              | none => exact Or.inr ⟨_, .document hcs (.noName hv hspace hname)⟩
              | some name =>
                  cases h : Columns.ofJson v with
                  | error fault =>
                      exact Or.inr ⟨_, .document hcs (.noColumns hv hspace hname h)⟩
                  | ok columns =>
                      refine Or.inl ⟨⟨space ++ "_" ++ name, columns.document⟩, ?_⟩
                      simp only [normalizeDdl, TableDefinition.parse, hcs,
                        TableDefinition.ofDocument, hv, hspace, hname, normalizeSchema,
                        Columns.ofDocument, h, Except.map]

namespace Normalizer

section Causes

variable (n : Normalizer) (r : InboundRecord)

/-- A record that announces a table. -/
structure Announces (payload : List UInt8) : Prop where
  field : r.field? n.settings.effectiveField = some payload
  name : r.name = some Envelope.ddlName

/-- A record of data: neither a marker nor the announcement of a table. -/
structure HoldsData (bytes : List UInt8) : Prop where
  field : r.field? n.settings.effectiveField = some bytes
  notMarker : r.name ≠ some Envelope.markerName
  notDdl : r.name ≠ some Envelope.ddlName

/-- A record of data whose bytes are a wrapper. -/
def Wraps (wrapper : Wrapper) : Prop :=
  ∃ bytes, n.HoldsData r bytes ∧ Wrapper.decode bytes = .ok wrapper

/-- Why a record is not processed. Each cause asks that all stages before it went well. -/
inductive Fails : Error → Prop
  | noInput (h : r.field? n.settings.effectiveField = none) :
      Fails (.missingInputField n.settings.effectiveField)
  | announcement {payload : List UInt8} {e : Error} (hr : n.Announces r payload)
      (h : AnnouncementFails payload e) : Fails e
  | wrapper {bytes : List UInt8} {fault : DataFault} (hr : n.HoldsData r bytes)
      (h : Wrapper.decode bytes = .error fault) : Fails (.data fault)
  | absent {wrapper : Wrapper} (hr : n.Wraps r wrapper)
      (h : n.cache.find? wrapper.fingerprint = none) :
      Fails (.schemaNotFound wrapper.fingerprint)
  | unusable {wrapper : Wrapper} {fault : SchemaFault} (hr : n.Wraps r wrapper)
      (h : n.cache.find? wrapper.fingerprint = some (.error fault)) :
      Fails (.schema (.unusable wrapper.fingerprint fault))
  | row {wrapper : Wrapper} {schema : CachedSchema} {fault : DataFault} (hr : n.Wraps r wrapper)
      (hs : n.cache.find? wrapper.fingerprint = some (.ok schema))
      (h : Row.decode schema.avro wrapper.payload = .error fault) : Fails (.data fault)
  | operation {wrapper : Wrapper} {schema : CachedSchema} {row : Row} (hr : n.Wraps r wrapper)
      (hs : n.cache.find? wrapper.fingerprint = some (.ok schema))
      (hrow : Row.decode schema.avro wrapper.payload = .ok row)
      (hstrict : n.settings.strictOpTypes) (h : row.opType ∉ ["I", "U", "D"]) :
      Fails (.unrecognizedOperation row.opType)

end Causes

section Stages

variable {n : Normalizer} {r : InboundRecord}

theorem Announces.classify_eq {payload : List UInt8} (h : n.Announces r payload) :
    Envelope.classify r n.settings.effectiveField = .ok (.ddl payload) := by
  have hname : Envelope.ddlName ≠ Envelope.markerName := by decide
  simp only [Envelope.classify, h.field, h.name, Option.some.injEq, if_neg hname, if_true]

theorem HoldsData.classify_eq {bytes : List UInt8} (h : n.HoldsData r bytes) :
    Envelope.classify r n.settings.effectiveField = .ok (.row bytes) := by
  simp only [Envelope.classify, h.field, if_neg h.notMarker, if_neg h.notDdl]

theorem HoldsData.process_fst {bytes : List UInt8} (h : n.HoldsData r bytes) :
    (n.process r).1 = (changeOf n.settings n.cache bytes).map (some ∘ .dml) := by
  rw [Normalizer.process_fst, recordOf, h.classify_eq]

/-- What comes of a wrapper is decided by the entry of its fingerprint. -/
theorem Wraps.process_fst {wrapper : Wrapper} (h : n.Wraps r wrapper) :
    (n.process r).1 =
      match SchemaCache.resolution wrapper.fingerprint (n.cache.find? wrapper.fingerprint) with
      | .error e => .error e
      | .ok schema =>
          match Row.decode schema.avro wrapper.payload with
          | .error fault => .error (.data fault)
          | .ok row =>
              (normalizeRow row schema.columns n.settings.strictOpTypes).map (some ∘ .dml) := by
  obtain ⟨bytes, hbytes, hwrapper⟩ := h
  rw [hbytes.process_fst, changeOf, DecodedChange.decode, hwrapper,
    ← SchemaCache.resolve_eq_resolution]
  dsimp only
  cases n.cache.resolve wrapper.fingerprint with
  | error e => rfl
  | ok schema =>
      dsimp only
      cases Row.decode schema.avro wrapper.payload <;> rfl

theorem Fails.process_fst {e : Error} (h : n.Fails r e) : (n.process r).1 = .error e := by
  cases h with
  | noInput h => rw [Normalizer.process_fst, recordOf, Envelope.classify, h]
  | announcement hr h =>
      rw [Normalizer.process_fst, recordOf, hr.classify_eq]
      dsimp only
      rw [h.normalizeDdl_eq]
      rfl
  | wrapper hr h =>
      rw [hr.process_fst, changeOf, DecodedChange.decode, h]
      rfl
  | absent hr h =>
      rw [hr.process_fst, h]
      rfl
  | unusable hr h =>
      rw [hr.process_fst, h]
      rfl
  | row hr hs h =>
      rw [hr.process_fst, hs]
      dsimp only [SchemaCache.resolution]
      rw [h]
  | operation hr hs hrow hstrict h =>
      rw [hr.process_fst, hs]
      dsimp only [SchemaCache.resolution]
      rw [hrow]
      dsimp only
      rw [normalizeRow_eq_error_iff.mpr ⟨⟨hstrict, h⟩, rfl⟩]
      rfl

theorem Wraps.ok_or_fails {wrapper : Wrapper} (hr : n.Wraps r wrapper) :
    (∃ result, (n.process r).1 = .ok result) ∨ ∃ e, n.Fails r e := by
  cases hs : n.cache.find? wrapper.fingerprint with
  | none => exact Or.inr ⟨_, .absent hr hs⟩
  | some entry =>
      cases entry with
      | error fault => exact Or.inr ⟨_, .unusable hr hs⟩
      | ok schema =>
          cases hrow : Row.decode schema.avro wrapper.payload with
          | error fault => exact Or.inr ⟨_, .row hr hs hrow⟩
          | ok row =>
              cases h : normalizeRow row schema.columns n.settings.strictOpTypes with
              | error e =>
                  obtain ⟨⟨hstrict, hop⟩, -⟩ := normalizeRow_eq_error_iff.mp h
                  exact Or.inr ⟨_, .operation hr hs hrow hstrict hop⟩
              | ok record =>
                  refine Or.inl ⟨some (.dml record), ?_⟩
                  rw [hr.process_fst, hs]
                  dsimp only [SchemaCache.resolution]
                  rw [hrow]
                  dsimp only
                  rw [h]
                  rfl

/-- There is no other cause. -/
theorem process_ok_or_fails (n : Normalizer) (r : InboundRecord) :
    (∃ result, (n.process r).1 = .ok result) ∨ ∃ e, n.Fails r e := by
  cases hfield : r.field? n.settings.effectiveField with
  | none => exact Or.inr ⟨_, .noInput hfield⟩
  | some bytes =>
      by_cases hmarker : r.name = some Envelope.markerName
      · refine Or.inl ⟨none, ?_⟩
        simp only [Normalizer.process_fst, recordOf, Envelope.classify, hfield, if_pos hmarker]
      · by_cases hddl : r.name = some Envelope.ddlName
        · have hr : n.Announces r bytes := ⟨hfield, hddl⟩
          rcases normalizeDdl_ok_or_fails bytes with ⟨record, hrecord⟩ | ⟨e, he⟩
          · refine Or.inl ⟨some (.ddl record), ?_⟩
            rw [Normalizer.process_fst, recordOf, hr.classify_eq]
            dsimp only
            rw [hrecord]
            rfl
          · exact Or.inr ⟨e, .announcement hr he⟩
        · have hr : n.HoldsData r bytes := ⟨hfield, hmarker, hddl⟩
          cases hwrapper : Wrapper.decode bytes with
          | error fault => exact Or.inr ⟨_, .wrapper hr hwrapper⟩
          | ok wrapper => exact Wraps.ok_or_fails ⟨bytes, hr, hwrapper⟩

theorem process_eq_error_iff {e : Error} : (n.process r).1 = .error e ↔ n.Fails r e := by
  constructor
  · intro h
    rcases process_ok_or_fails n r with ⟨result, hresult⟩ | ⟨e', he'⟩
    · exact nomatch h.symm.trans hresult
    · obtain rfl := Except.error.inj (h.symm.trans he'.process_fst)
      exact he'
  · exact Fails.process_fst

end Stages

end Normalizer

theorem AnnouncementFails.isLasting {payload : List UInt8} {e : Error}
    (h : AnnouncementFails payload e) : e.IsLasting := by
  cases h with
  | notUtf8 h => exact ⟨rfl, nofun, nofun⟩
  | document hcs h => cases h <;> exact ⟨rfl, nofun, nofun⟩

namespace Normalizer

theorem Fails.isLasting {n : Normalizer} {r : InboundRecord} {e : Error} (h : n.Fails r e) :
    e.IsLasting := by
  cases h with
  | announcement hr h => exact h.isLasting
  | _ => exact ⟨rfl, nofun, nofun⟩

/-- Which error comes out where several stages could fail. -/
structure FailsInOrder (n : Normalizer) : Prop where
  noInput : ∀ r, r.field? n.settings.effectiveField = none →
    (n.process r).1 = .error (.missingInputField n.settings.effectiveField)
  notWrapper : ∀ r bytes fault, n.HoldsData r bytes → Wrapper.decode bytes = .error fault →
    ∀ cache, ((n.withCache cache).process r).1 = .error (.data fault)
  absent : ∀ r wrapper, n.Wraps r wrapper → n.cache.find? wrapper.fingerprint = none →
    (n.process r).1 = .error (.schemaNotFound wrapper.fingerprint)
  unusable : ∀ r wrapper fault, n.Wraps r wrapper →
    n.cache.find? wrapper.fingerprint = some (.error fault) →
    (n.process r).1 = .error (.schema (.unusable wrapper.fingerprint fault))
  /-- Without a usable schema no two payloads are told apart. -/
  payload : ∀ r r' wrapper wrapper', n.Wraps r wrapper → n.Wraps r' wrapper' →
    wrapper.fingerprint = wrapper'.fingerprint →
    (∀ schema, n.cache.find? wrapper.fingerprint ≠ some (.ok schema)) →
    (n.process r).1 = (n.process r').1
  row : ∀ r wrapper fault, n.Wraps r wrapper → ((n.process r).1 = .error (.data fault) ↔
    ∃ schema, n.cache.find? wrapper.fingerprint = some (.ok schema) ∧
      Row.decode schema.avro wrapper.payload = .error fault)
  operation : ∀ r op, (n.process r).1 = .error (.unrecognizedOperation op) ↔
    (n.settings.strictOpTypes ∧ op ∉ ["I", "U", "D"]) ∧ ∃ wrapper schema row,
      n.Wraps r wrapper ∧ n.cache.find? wrapper.fingerprint = some (.ok schema) ∧
      Row.decode schema.avro wrapper.payload = .ok row ∧ row.opType = op
  isLasting : ∀ r e, (n.process r).1 = .error e → e.IsLasting

section Wrapped

variable {n : Normalizer} {r : InboundRecord} {wrapper : Wrapper}

theorem HoldsData.unique {bytes bytes' : List UInt8} (h : n.HoldsData r bytes)
    (h' : n.HoldsData r bytes') : bytes = bytes' :=
  Option.some.inj (h.field.symm.trans h'.field)

theorem Wraps.unique {wrapper' : Wrapper} (h : n.Wraps r wrapper) (h' : n.Wraps r wrapper') :
    wrapper = wrapper' := by
  obtain ⟨bytes, hbytes, hwrapper⟩ := h
  obtain ⟨bytes', hbytes', hwrapper'⟩ := h'
  obtain rfl := hbytes.unique hbytes'
  exact Except.ok.inj (hwrapper.symm.trans hwrapper')

/-- Of an unusable entry the result tells the fault and the fingerprint only. -/
theorem Wraps.process_eq_of_unusable {r' : InboundRecord} {wrapper' : Wrapper}
    (h : n.Wraps r wrapper) (h' : n.Wraps r' wrapper')
    (hf : wrapper.fingerprint = wrapper'.fingerprint)
    (hs : ∀ schema, n.cache.find? wrapper.fingerprint ≠ some (.ok schema)) :
    (n.process r).1 = (n.process r').1 := by
  rw [h.process_fst, h'.process_fst, ← hf]
  cases hentry : n.cache.find? wrapper.fingerprint with
  | none => rfl
  | some entry =>
      cases entry with
      | error fault => rfl
      | ok schema => exact absurd hentry (hs schema)

theorem Wraps.process_eq_data_iff (h : n.Wraps r wrapper) {fault : DataFault} :
    (n.process r).1 = .error (.data fault) ↔
      ∃ schema, n.cache.find? wrapper.fingerprint = some (.ok schema) ∧
        Row.decode schema.avro wrapper.payload = .error fault := by
  constructor
  · intro hfault
    obtain ⟨bytes, hbytes, hwrapper⟩ := id h
    cases process_eq_error_iff.mp hfault with
    | announcement hr _ => exact absurd hr.name hbytes.notDdl
    | wrapper hr hdecode =>
        obtain rfl := hbytes.unique hr
        exact nomatch hwrapper.symm.trans hdecode
    | row hr hs hrow =>
        obtain rfl := h.unique hr
        exact ⟨_, hs, hrow⟩
  · rintro ⟨schema, hs, hrow⟩
    exact Fails.process_fst (.row h hs hrow)

theorem process_eq_unrecognizedOperation_iff {op : String} :
    (n.process r).1 = .error (.unrecognizedOperation op) ↔
      (n.settings.strictOpTypes ∧ op ∉ ["I", "U", "D"]) ∧ ∃ wrapper schema row,
        n.Wraps r wrapper ∧ n.cache.find? wrapper.fingerprint = some (.ok schema) ∧
        Row.decode schema.avro wrapper.payload = .ok row ∧ row.opType = op := by
  constructor
  · intro hop
    cases process_eq_error_iff.mp hop with
    | announcement hr h =>
        cases h with
        | document hcs h => exact nomatch h
    | operation hr hs hrow hstrict h => exact ⟨⟨hstrict, h⟩, _, _, _, hr, hs, hrow, rfl⟩
  · rintro ⟨⟨hstrict, h⟩, wrapper, schema, row, hr, hs, hrow, rfl⟩
    exact Fails.process_fst (.operation hr hs hrow hstrict h)

end Wrapped

/-- A failing record tells the first stage that fails: its input, its wrapper, the schema of the
wrapper, and only with a schema the row and its operation. -/
theorem process_failsInOrder (n : Normalizer) : n.FailsInOrder where
  noInput _ h := Fails.process_fst (.noInput h)
  notWrapper _ _ _ hr h _ := Fails.process_fst (.wrapper ⟨hr.field, hr.notMarker, hr.notDdl⟩ h)
  absent _ _ hr h := Fails.process_fst (.absent hr h)
  unusable _ _ _ hr h := Fails.process_fst (.unusable hr h)
  payload _ _ _ _ hr hr' hf hs := hr.process_eq_of_unusable hr' hf hs
  row _ _ _ hr := hr.process_eq_data_iff
  operation _ _ := process_eq_unrecognizedOperation_iff
  isLasting _ _ h := (process_eq_error_iff.mp h).isLasting

theorem holdsData_message (cache : SchemaCache) (bytes : List UInt8) :
    (new .default cache).HoldsData ⟨none, [("message", bytes)]⟩ bytes := by
  have hfield : Settings.default.effectiveField = "message" := rfl
  refine ⟨?_, nofun, nofun⟩
  rw [new_settings, hfield]
  rfl

theorem wraps_wrapped {w : Wrapper} (hw : w.IsReadable) (cache : SchemaCache) :
    (new .default cache).Wraps (wrapped w) w := by
  refine ⟨w.encode, holdsData_message cache w.encode, ?_⟩
  rw [← List.append_nil w.encode]
  exact Wrapper.decode_encode hw []

/-- A normalizer with a text that is no schema. -/
def illegible : Normalizer := new .default (.ofDocuments [(⟨0⟩, "")])

/-- A payload that is missing altogether is not found out before the schema. -/
theorem process_failsInOrder_noteRecord :
    ((new .default .empty).process ⟨some Envelope.ddlName, []⟩).1 =
        .error (.missingInputField "message") ∧
      (illegible.process ⟨none, [("message", [])]⟩).1 = .error (.data .notAvro) ∧
      ((new .default .empty).process noteRecord).1 = .error (.schemaNotFound ⟨0⟩) ∧
      (illegible.process noteRecord).1 = .error (.schema (.unusable ⟨0⟩ (.notAvro ⟨0⟩))) ∧
      (illegible.process (wrapped ⟨"T", ⟨0⟩, []⟩)).1 = (illegible.process noteRecord).1 := by
  have hempty := process_failsInOrder (new .default .empty)
  have hillegible := process_failsInOrder illegible
  have hnote : noteWrapper.IsReadable := ⟨by decide +kernel, by decide +kernel⟩
  have hbare : (⟨"T", ⟨0⟩, []⟩ : Wrapper).IsReadable := ⟨by decide +kernel, by decide +kernel⟩
  have hfault : illegible.cache.find? ⟨0⟩ = some (.error (.notAvro ⟨0⟩)) := by
    have havro : Avro.Schema.parse? "" = none := by decide +kernel
    rw [illegible, new_cache, SchemaCache.find?_ofDocuments]
    simp [CachedSchema.parse, havro]
  refine ⟨hempty.noInput _ rfl, ?_, ?_, ?_, ?_⟩
  · exact hillegible.notWrapper _ [] .notAvro (holdsData_message _ _) rfl _
  · exact hempty.absent _ noteWrapper (wraps_wrapped hnote _) rfl
  · exact hillegible.unusable _ noteWrapper _ (wraps_wrapped hnote _) hfault
  · refine hillegible.payload _ _ _ noteWrapper (wraps_wrapped hbare _) (wraps_wrapped hnote _) rfl
      fun schema h => ?_
    exact nomatch hfault.symm.trans h

end Normalizer

end Change

end ChangeCapture
