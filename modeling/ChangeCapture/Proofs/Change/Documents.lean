import ChangeCapture.Change.SchemaCache
import ChangeCapture.Proofs.Json.Equality

/-!
# Documents that are accepted

A document is accepted if it is JSON and if both the schema and the columns can be read from it.
-/

namespace ChangeCapture.Change

namespace CachedSchema

variable {fingerprint : Fingerprint} {document : String} {cached : CachedSchema}

theorem parse_eq_ok_iff : parse fingerprint document = .ok cached ↔
    ∃ v, Json.parse? document = some v ∧ Avro.Schema.ofJson? v = some cached.avro ∧
      Columns.ofJson v = .ok cached.columns ∧ cached.fingerprint = fingerprint ∧
      cached.document = document := by
  obtain ⟨fingerprint', document', avro, columns⟩ := cached
  unfold parse Avro.Schema.parse? Columns.ofDocument
  cases hv : Json.parse? document with
  | none => simp
  | some v =>
      cases havro : Avro.Schema.ofJson? v with
      | none => simp [havro]
      | some s =>
          cases hcolumns : Columns.ofJson v with
          | error fault => simp [havro, hcolumns]
          | ok c => simp [havro, hcolumns, and_assoc, and_comm, and_left_comm, eq_comm]

end CachedSchema

/-- Changes of a table with the columns `id` and `note`, of which the second may be missing. -/
def noteTable : Json :=
  .ofMembers [("type", .str "record"), ("name", .str "change"), ("fields", .arr [
    .ofMembers [("name", .str "table"), ("type", .str "string")],
    .ofMembers [("name", .str "op_type"), ("type", .str "string")],
    .ofMembers [("name", .str "before"), ("type", .arr [.str "null",
      .ofMembers [("type", .str "record"), ("name", .str "row"), ("fields", .arr [
        .ofMembers [("name", .str "id"), ("type", .str "long")],
        .ofMembers [("name", .str "note"), ("type", .str "string")],
        .ofMembers [("name", .str "note_isMissing"), ("type", .str "boolean")]])]])],
    .ofMembers [("name", .str "after"), ("type", .arr [.str "null", .str "row"])]])]

theorem parse?_noteTable : Json.parse? noteTable.compress = some noteTable := by
  simp only [Json.parse?, Json.compress, String.toList_ofList]
  decide +kernel

theorem parse_noteTable {avro : Avro.Schema} {columns : Columns}
    (havro : Avro.Schema.ofJson? noteTable = some avro)
    (hcolumns : Columns.ofJson noteTable = .ok columns) :
    CachedSchema.parse ⟨0⟩ noteTable.compress = .ok ⟨⟨0⟩, noteTable.compress, avro, columns⟩ :=
  CachedSchema.parse_eq_ok_iff.mpr ⟨noteTable, parse?_noteTable, havro, hcolumns, rfl, rfl⟩

theorem exists_parse_noteTable :
    ∃ cached, CachedSchema.parse ⟨0⟩ noteTable.compress = .ok cached := by
  obtain ⟨columns, hcolumns⟩ : ∃ columns, Columns.ofJson noteTable = .ok columns := ⟨_, rfl⟩
  have hsome : (Avro.Schema.ofJson? noteTable).isSome := by decide +kernel
  obtain ⟨avro, havro⟩ := Option.isSome_iff_exists.mp hsome
  exact ⟨_, parse_noteTable havro hcolumns⟩

end ChangeCapture.Change
