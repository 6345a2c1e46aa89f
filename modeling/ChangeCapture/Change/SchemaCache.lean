import ChangeCapture.Avro.Declaration
import ChangeCapture.Change.Columns

/-!
# Schema caches

The schemas of a batch by their fingerprints. A document with a fault stays in the cache as such: it
harms only the rows that need it.
-/

namespace ChangeCapture.Change

/-- A schema document with what is read from it. -/
structure CachedSchema where
  fingerprint : Fingerprint
  document : String
  avro : Avro.Schema
  columns : Columns

def CachedSchema.parse (fingerprint : Fingerprint) (document : String) :
    Except SchemaFault CachedSchema :=
  match Avro.Schema.parse? document with
  | none => .error (.notAvro fingerprint)
  | some avro =>
      match Columns.ofDocument document with
      | .error fault => .error fault
      | .ok columns => .ok ⟨fingerprint, document, avro, columns⟩

/-- Schema documents by the texts of their fingerprints. -/
structure StateRecord where
  data : List (String × String)

namespace StateRecord

/-- Texts by keys, of which the last counts for each key. -/
def textMembers? : List (String × Json.Written) → Option (List (String × String))
  | [] => some []
  | (key, v) :: rest =>
      match v.text?, textMembers? rest with
      | some s, some pairs => some ((key, s) :: pairs)
      | _, _ => none

def data? : Json.Written → Option (List (String × String))
  | .object members => ((Json.Written.keyed? members).bind textMembers?).map Keyed.ofList
  | _ => none

def ofWritten? (w : Json.Written) : Option StateRecord :=
  match w.slots? ["data"] with
  | some [data] => (Json.Written.orElse? data? [] data).map StateRecord.mk
  | _ => none

def parse? (text : String) : Option StateRecord :=
  (Json.Written.ofChars? text.toList).bind ofWritten?

def toJson (r : StateRecord) : Json :=
  .ofMembers [("data", .ofMembers (r.data.map fun p => (p.1, .str p.2)))]

/-- The fingerprints and documents, if every key is a fingerprint. -/
def documents : List (String × String) → Except Error (List (Fingerprint × String))
  | [] => .ok []
  | (key, document) :: rest =>
      match Fingerprint.ofText key with
      | .error fault => .error (.settings (.fingerprint key fault))
      | .ok fingerprint =>
          match documents rest with
          | .ok pairs => .ok ((fingerprint, document) :: pairs)
          | .error e => .error e

end StateRecord

/-- The outcome of reading each document, each fingerprint once. -/
structure SchemaCache where
  entries : List (Fingerprint × Except SchemaFault CachedSchema)

namespace SchemaCache

def empty : SchemaCache := ⟨[]⟩

/-- Puts an entry into a list; an older entry of the fingerprint gives way. -/
def insert {α : Type} (fingerprint : Fingerprint) (entry : α) :
    List (Fingerprint × α) → List (Fingerprint × α)
  | [] => [(fingerprint, entry)]
  | (f, e) :: rest =>
      if f = fingerprint then (fingerprint, entry) :: rest
      else (f, e) :: insert fingerprint entry rest

/-- Reads each document once. Of pairs with one fingerprint the last counts. -/
def ofDocuments (documents : List (Fingerprint × String)) : SchemaCache :=
  ⟨documents.foldl (fun entries p => insert p.1 (CachedSchema.parse p.1 p.2) entries) []⟩

/-- The cache of a state record whose entries come in the given order. -/
def ofState (data : List (String × String)) : Except Error SchemaCache :=
  (StateRecord.documents data).map ofDocuments

def ofStateText (text : String) : Except Error SchemaCache :=
  match StateRecord.parse? text with
  | none => .error .json
  | some r => ofState r.data

def find? (c : SchemaCache) (fingerprint : Fingerprint) :
    Option (Except SchemaFault CachedSchema) := c.entries.lookup fingerprint

def resolve (c : SchemaCache) (fingerprint : Fingerprint) : Except Error CachedSchema :=
  match c.find? fingerprint with
  | some (.ok cached) => .ok cached
  | some (.error fault) => .error (.schema (.unusable fingerprint fault))
  | none => .error (.schemaNotFound fingerprint)

/-- Whether a fingerprint has a schema without fault. -/
def contains (c : SchemaCache) (fingerprint : Fingerprint) : Bool :=
  match c.find? fingerprint with
  | some (.ok _) => true
  | _ => false

/-- The number of fingerprints, those of faulty documents included. -/
def size (c : SchemaCache) : Nat := c.entries.length

def isEmpty (c : SchemaCache) : Bool := c.entries.isEmpty

def fingerprints (c : SchemaCache) : List Fingerprint := c.entries.map Prod.fst

end SchemaCache

end ChangeCapture.Change
