import ChangeCapture.Change.Normalizer

/-!
# Outcomes of records

What becomes of a record depends on the settings and the schemas alone, and the counters depend on
what became of it alone.
-/

namespace ChangeCapture.Change

/-- All that is decided about a row: whether it is refused, and otherwise its record. -/
theorem normalizeRow_eq_ok_iff {row : Row} {columns : Columns} {strict : Bool}
    {record : DmlRecord} : normalizeRow row columns strict = .ok record ↔
      (strict → (Operation.ofCode row.opType).isKnown) ∧
        record = ⟨flattenTable row.table, columns.document, row.opType, row.primaryKeys,
          ⟨typedFields columns (row.selected (.ofCode row.opType))⟩⟩ := by
  rw [normalizeRow]
  split
  · next hrefused =>
      obtain ⟨hstrict, hknown⟩ := Bool.and_eq_true_iff.mp hrefused
      have hunknown : ¬ (Operation.ofCode row.opType).isKnown := by simpa using hknown
      constructor
      · intro h
        cases h
      · rintro ⟨h, -⟩
        exact absurd (h hstrict) hunknown
  · next hkept =>
      have hknown : strict → (Operation.ofCode row.opType).isKnown := by simpa using hkept
      rw [Except.ok.injEq, and_iff_right hknown]
      exact eq_comm

namespace Normalizer

/-- The change that wrapped bytes hold. -/
def changeOf (settings : Settings) (cache : SchemaCache) (wrapper : List UInt8) :
    Except Error DmlRecord :=
  match DecodedChange.decode cache wrapper with
  | .error e => .error e
  | .ok d => normalizeRow d.row d.schema.columns settings.strictOpTypes

/-- What becomes of a record, apart from counting. -/
def recordOf (settings : Settings) (cache : SchemaCache) (r : InboundRecord) :
    Except Error (Option CanonicalRecord) :=
  match Envelope.classify r settings.effectiveField with
  | .error e => .error e
  | .ok .marker => .ok none
  | .ok (.ddl payload) => (normalizeDdl payload).map (some ∘ .ddl)
  | .ok (.row wrapper) => (changeOf settings cache wrapper).map (some ∘ .dml)

/-- The counters after a result that is not an error; an error is counted later. -/
def countResult (c : Counters) : Except Error (Option CanonicalRecord) → Counters
  | .error _ => c
  | .ok none => c.countMarker
  | .ok (some (.ddl _)) => c.countDdl
  | .ok (some (.dml r)) =>
      if r.operation.isKnown then c.countDml else c.countUnknownOp.countDml

/-- The counters after a received record of the given outcome. -/
def count (c : Counters) : Except Error (Option CanonicalRecord) → Counters
  | .error _ => c.countReceived.countError
  | .ok result => countResult c.countReceived (.ok result)

/-- The counters that a conversion leaves tell no more of the record than its result does. -/
theorem convert_eq (settings : Settings) (cache : SchemaCache) (r : InboundRecord)
    (c : Counters) : convert settings cache r c =
      (recordOf settings cache r, countResult c (recordOf settings cache r)) := by
  unfold convert recordOf
  cases hclass : Envelope.classify r settings.effectiveField with
  | error e => rfl
  | ok envelope =>
      cases envelope with
      | marker => rfl
      | ddl payload =>
          dsimp only
          cases normalizeDdl payload <;> rfl
      | row wrapper =>
          dsimp only
          unfold changeOf
          cases DecodedChange.decode cache wrapper with
          | error e => rfl
          | ok d =>
              dsimp only
              cases hrecord : normalizeRow d.row d.schema.columns settings.strictOpTypes with
              | error e => rfl
              | ok record =>
                  -- The row's code of its operation is kept, so the record tells what was counted.
                  have hop : record.operation = .ofCode d.row.opType := by
                    rw [(normalizeRow_eq_ok_iff.mp hrecord).2]
                    rfl
                  simp only [Except.map, Function.comp_apply, countResult, hop]
                  split <;> rfl

theorem process_eq (n : Normalizer) (r : InboundRecord) : n.process r =
    (recordOf n.settings n.cache r,
      { n with counters := count n.counters (recordOf n.settings n.cache r) }) := by
  unfold process
  rw [convert_eq]
  cases recordOf n.settings n.cache r <;> rfl

theorem process_fst (n : Normalizer) (r : InboundRecord) :
    (n.process r).1 = recordOf n.settings n.cache r := by
  rw [process_eq]

end Normalizer

end ChangeCapture.Change
