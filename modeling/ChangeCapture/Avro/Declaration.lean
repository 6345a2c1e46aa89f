import ChangeCapture.Avro.Resolution
import ChangeCapture.Json.Reading

/-!
# Declarations

Reading a schema from its JSON document. A type is a word, a union of types, or an object with a
`type` member; named types may be referred to from inside their own definition and from everything
that follows it.
-/

namespace ChangeCapture.Avro

/-- The named types met so far: those whose definition is complete, and those being defined, with
the name that an alias belongs to. -/
structure Scope where
  complete : Definitions
  pending : List (Name × Name)

namespace Scope

def empty : Scope := ⟨[], []⟩

/-- Opens the definition of a type. -/
def start (scope : Scope) (name : Name) (aliases : List Name) : Scope :=
  { scope with pending := aliases.map (·, name) ++ (name, name) :: scope.pending }

/-- Closes the definition of a type. -/
def finish (scope : Scope) (name : Name) (aliases : List Name) (s : Schema) : Scope :=
  let names := name :: aliases
  ⟨(names.map (·, s)).reverse ++ scope.complete, scope.pending.filter fun p => !names.contains p.1⟩

/-- What a written name refers to. A type that is being defined goes by its own name, a complete one
by the name that is written. -/
def reference? (scope : Scope) (space : Option String) (word : String) : Option Schema :=
  match (Name.ofText? word).map (Name.within space) with
  | none => none
  | some name =>
      match scope.complete.lookup name with
      | some _ => some (.ref name)
      | none => (scope.pending.lookup name).map .ref

/-- The type that goes by the word for its kind, for an object without the members of a
definition. -/
def sameWord? (scope : Scope) (space : Option String) (word : String) : Option (Schema × Scope) :=
  let name := Name.within space ⟨word, none⟩
  match scope.pending.lookup name with
  | some target => some (.ref target, scope)
  | none => (scope.complete.lookup name).map (·, scope)

end Scope

/-- The types that are known by a word. -/
def primitive? (word : String) : Option Schema :=
  if word = "null" then some .null
  else if word = "boolean" then some .boolean
  else if word = "int" then some .int
  else if word = "long" then some .long
  else if word = "float" then some .float
  else if word = "double" then some .double
  else if word = "bytes" then some .bytes
  else if word = "string" then some .string
  else none

/-- Marks that give the data of a type another meaning. -/
inductive Logical
  | decimal
  | bigDecimal
  | uuid
  | date
  | timeMillis
  | instant (unit : Instant)
  | duration
  deriving DecidableEq, Repr

namespace Logical

def ofText? (word : String) : Option Logical :=
  if word = "decimal" then some .decimal
  else if word = "big-decimal" then some .bigDecimal
  else if word = "uuid" then some .uuid
  else if word = "date" then some .date
  else if word = "time-millis" then some .timeMillis
  else if word = "time-micros" then some (.instant .timeMicros)
  else if word = "timestamp-millis" then some (.instant .timestampMillis)
  else if word = "timestamp-micros" then some (.instant .timestampMicros)
  else if word = "local-timestamp-millis" then some (.instant .localTimestampMillis)
  else if word = "local-timestamp-micros" then some (.instant .localTimestampMicros)
  else if word = "duration" then some .duration
  else none

/-- The precision and the scale of a decimal, if they make sense together. -/
def precisionAndScale? (attributes : Json) : Option (Nat × Nat) := do
  let precision ← (attributes.get? "precision").bind Json.asNat?
  let scale ←
    match attributes.get? "scale" with
    | none => some 0
    | some v => v.asNat?
  if 1 ≤ precision ∧ scale ≤ precision then some (precision, scale) else none

/-- The marked type; a mark that does not fit the type is passed over. -/
def apply (attributes : Json) : Logical → Schema → Schema
  | .decimal, .bytes =>
      match precisionAndScale? attributes with
      | some (precision, scale) => .decimal .bytes precision scale
      | none => .bytes
  | .decimal, .fixed name size =>
      match precisionAndScale? attributes with
      | some (precision, scale) => .decimal (.fixed name size) precision scale
      | none => .fixed name size
  | .bigDecimal, .bytes => .bigDecimal
  | .uuid, .string => .uuid
  | .uuid, .fixed name size => if size = 16 then .uuid else .fixed name size
  | .date, .int => .date
  | .timeMillis, .int => .timeMillis
  | .instant unit, .long => .instant unit
  | .duration, .fixed _ _ => .duration
  | _, s => s

end Logical

namespace Declaration

/-- Reads a type in the scope of the types before it. -/
abbrev Reader := Scope → Json → Option (Schema × Scope)

/-- The name of a definition: a namespace in the name counts before the `namespace` member, and this
before the namespace around the definition. -/
def name? (space : Option String) (attributes : Json) : Option Name := do
  let written ← (attributes.text? "name").bind Spelling.ofText?
  let space := Name.nonempty ((written.space.or (attributes.text? "namespace")).or space)
  if isNamespace (space.getD "").toList then some ⟨written.label, space⟩ else none

/-- The aliases of a definition. They are passed over unless they are a list of texts. -/
def aliases? (name : Name) (attributes : Json) : Option (List Name) :=
  match ((attributes.get? "aliases").bind Json.asArr?).bind (·.mapM Json.asStr?) with
  | none => some []
  | some words => words.mapM fun w => (Name.ofText? w).map (Name.within name.space)

/-- Types one after the other, each in the scope that the one before leaves. -/
def branches? (read : Reader) : Scope → List Json → Option (List Schema × Scope)
  | scope, [] => some ([], scope)
  | scope, v :: rest =>
      match read scope v with
      | none => none
      | some (s, scope) =>
          match branches? read scope rest with
          | some (ss, scope) => some (s :: ss, scope)
          | none => none

/-- A union holds no union, and no kind twice unless it is a named one. -/
def isUnion (branches : List Schema) : Bool :=
  let kinds := branches.map Schema.kind
  !kinds.contains .union && decide (kinds.filter (!·.isNamed)).Nodup

def union? (read : Reader) (scope : Scope) (branches : List Json) : Option (Schema × Scope) :=
  match branches? read scope branches with
  | some (ss, scope) => if isUnion ss then some (.union ss, scope) else none
  | none => none

/-- A field, whose type is read from the field's own members. -/
def field? (read : Reader) (budget : Nat) (scope : Scope) (v : Json) :
    Option (Field Schema × Scope) := do
  let name ← v.text? "name"
  if !isIdentifier name.toList then none
  let (type, scope) ← read scope v
  match v.get? "default" with
  | none => some (⟨name, type, none⟩, scope)
  | some default =>
      if type.suits scope.complete budget default then some (⟨name, type, some default⟩, scope)
      else none

def fields? (read : Reader) (budget : Nat) :
    Scope → List Json → Option (List (Field Schema) × Scope)
  | scope, [] => some ([], scope)
  | scope, v :: rest =>
      match field? read budget scope v with
      | none => none
      | some (f, scope) =>
          match fields? read budget scope rest with
          | some (fs, scope) => some (f :: fs, scope)
          | none => none

/-- The other names of a field. -/
def fieldAliases (v : Json) : List String :=
  (((v.get? "aliases").bind Json.asArr?).getD []).filterMap Json.asStr?

/-- No field has the name or another name of one before it. -/
def areDistinct : List String → List Json → Bool
  | _, [] => true
  | taken, v :: rest =>
      match v.text? "name" with
      | none => areDistinct taken rest
      | some name => !taken.contains name && areDistinct (name :: fieldAliases v ++ taken) rest

def isObject (v : Json) : Bool := v.asObj?.isSome

/-- A record. Entries of its list of fields that are no objects are passed over. -/
def record? (read : Option String → Reader) (budget : Nat) (space : Option String) (scope : Scope)
    (attributes : Json) : Option (Schema × Scope) :=
  match attributes.get? "fields" with
  | none => scope.sameWord? space "record"
  | some members => do
      let name ← name? space attributes
      let aliases ← aliases? name attributes
      let entries := (← members.asArr?).filter isObject
      let (fields, scope) ← fields? (read name.space) budget (scope.start name aliases) entries
      if areDistinct [] entries then
        let s := .record name fields
        some (s, scope.finish name aliases s)
      else none

/-- The default symbol of an enumeration has to be one of its symbols. -/
def defaultSymbol? (symbols : List String) (attributes : Json) : Option (Option String) :=
  match attributes.get? "default" with
  | none => some none
  | some (.str s) => if symbols.contains s then some (some s) else none
  | some _ => none

def enumeration? (space : Option String) (scope : Scope) (attributes : Json) :
    Option (Schema × Scope) :=
  match attributes.get? "symbols" with
  | none => scope.sameWord? space "enum"
  | some members => do
      let name ← name? space attributes
      let aliases ← aliases? name attributes
      let symbols ← (← members.asArr?).mapM Json.asStr?
      if !symbols.all fun s => isIdentifier s.toList then none
      if !decide symbols.Nodup then none
      let default ← defaultSymbol? symbols attributes
      let s := .enumeration name symbols default
      some (s, scope.finish name aliases s)

/-- A default text of a fixed type has as many bytes as the type. -/
def fixedDefaultSuits (size : Nat) (attributes : Json) : Bool :=
  match attributes.text? "default" with
  | none => true
  | some s => s.utf8ByteSize = size

def fixed? (space : Option String) (scope : Scope) (attributes : Json) : Option (Schema × Scope) :=
  match attributes.get? "size" with
  | none => scope.sameWord? space "fixed"
  | some v => do
      let size ← v.asNat?
      if !fixedDefaultSuits size attributes then none
      let name ← name? space attributes
      let aliases ← aliases? name attributes
      let s := .fixed name size
      some (s, scope.finish name aliases s)

def word? (space : Option String) (scope : Scope) (word : String) : Option (Schema × Scope) :=
  match primitive? word with
  | some s => some (s, scope)
  | none => (scope.reference? space word).map (·, scope)

/-- An object with a mark that is known: the type under the mark is written in full or is
`fixed`. -/
def marked? (read : Option String → Reader) (space : Option String) (scope : Scope) (mark : Logical)
    (attributes : Json) : Option (Schema × Scope) := do
  let type ← attributes.get? "type"
  let (s, scope) ←
    match type with
    | .str "fixed" => fixed? space scope attributes
    | v => read space scope v
  return (mark.apply attributes s, scope)

/-- An object without such a mark. -/
def plain? (read : Option String → Reader) (budget : Nat) (space : Option String) (scope : Scope)
    (attributes : Json) : Option (Schema × Scope) :=
  match attributes.get? "type" with
  | some (.str "record") => record? read budget space scope attributes
  | some (.str "enum") => enumeration? space scope attributes
  | some (.str "array") => do
      let (items, scope) ← read space scope (← attributes.get? "items")
      return (.array items, scope)
  | some (.str "map") => do
      let (values, scope) ← read space scope (← attributes.get? "values")
      return (.map values, scope)
  | some (.str "fixed") => fixed? space scope attributes
  | some (.str word) => word? space scope word
  | some (.obj members) => read space scope (.obj members)
  | some (.arr branches) => read space scope (.arr branches)
  | _ => none

/-- Reads a type that stands inside a namespace. `fuel` bounds how deep it nests, `budget` the steps
of one check of a default. -/
def read? (budget : Nat) : Nat → Option String → Reader
  | 0, _, _, _ => none
  | fuel + 1, space, scope, v =>
      match v with
      | .str word => word? space scope word
      | .arr branches => union? (read? budget fuel space) scope branches
      | .obj _ =>
          match v.get? "logicalType" with
          | none => plain? (read? budget fuel) budget space scope v
          | some (.str mark) =>
              match Logical.ofText? mark with
              | some mark => marked? (read? budget fuel) space scope mark v
              | none => plain? (read? budget fuel) budget space scope v
          | some _ => none
      | _ => none

end Declaration

namespace Schema

/-- The schema that a JSON value describes. A check of a default that ends meets each pair of a type
and a part of a default at most once on its way, and there are fewer of them than the budget. -/
def ofJson? (v : Json) : Option Schema :=
  (Declaration.read? (4 * ((v.size + 1) * (v.size + 1))) v.height none .empty v).map Prod.fst

/-- The schema that a document describes. -/
def parse? (document : String) : Option Schema := (Json.parse? document).bind ofJson?

end Schema

end ChangeCapture.Avro
