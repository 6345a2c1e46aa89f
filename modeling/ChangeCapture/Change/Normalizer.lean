import ChangeCapture.Change.Basic
import ChangeCapture.Change.Canonical
import ChangeCapture.Change.Inbound
import ChangeCapture.Change.SchemaCache

/-!
# Normalizers

Turns inbound records into canonical ones, with the schemas of the current batch, and counts them.
-/

namespace ChangeCapture.Change

/-- A wrapped row with the schema it was decoded with. -/
structure DecodedChange where
  tableName : String
  row : Row
  schema : CachedSchema

namespace DecodedChange

/-- Decodes a wrapper and its row. The schema is found before the payload is looked at. -/
def decode (cache : SchemaCache) (bytes : List UInt8) : Except Error DecodedChange :=
  match Wrapper.decode bytes with
  | .error fault => .error (.data fault)
  | .ok wrapper =>
      match cache.resolve wrapper.fingerprint with
      | .error e => .error e
      | .ok schema =>
          match Row.decode schema.avro wrapper.payload with
          | .error fault => .error (.data fault)
          | .ok row => .ok ⟨wrapper.tableName, row, schema⟩

end DecodedChange

structure Normalizer where
  settings : Settings
  cache : SchemaCache
  counters : Counters

namespace Normalizer

def new (settings : Settings) (cache : SchemaCache) : Normalizer := ⟨settings, cache, .zero⟩

/-- The same normalizer with the schemas of another batch. -/
def withCache (n : Normalizer) (cache : SchemaCache) : Normalizer := { n with cache := cache }

/-- What becomes of a record, and the counters after it. Each kind of result is counted where it
arises; an error leaves the counters as they are. -/
def convert (settings : Settings) (cache : SchemaCache) (r : InboundRecord) (counters : Counters) :
    Except Error (Option CanonicalRecord) × Counters :=
  match Envelope.classify r settings.effectiveField with
  | .error e => (.error e, counters)
  | .ok .marker => (.ok none, counters.countMarker)
  | .ok (.ddl payload) =>
      match normalizeDdl payload with
      | .error e => (.error e, counters)
      | .ok record => (.ok (some (.ddl record)), counters.countDdl)
  | .ok (.row wrapper) =>
      match DecodedChange.decode cache wrapper with
      | .error e => (.error e, counters)
      | .ok d =>
          match normalizeRow d.row d.schema.columns settings.strictOpTypes with
          | .error e => (.error e, counters)
          | .ok record =>
              let counters :=
                if (Operation.ofCode d.row.opType).isKnown then counters
                else counters.countUnknownOp
              (.ok (some (.dml record)), counters.countDml)

/-- The canonical record of an inbound one; a marker has none. -/
def process (n : Normalizer) (r : InboundRecord) :
    Except Error (Option CanonicalRecord) × Normalizer :=
  match convert n.settings n.cache r n.counters.countReceived with
  | (.error e, counters) => (.error e, { n with counters := counters.countError })
  | (.ok record, counters) => (.ok record, { n with counters := counters })

end Normalizer

end ChangeCapture.Change
