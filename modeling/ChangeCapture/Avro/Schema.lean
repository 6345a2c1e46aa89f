import ChangeCapture.Avro.Name
import ChangeCapture.Json.Basic

/-!
# Schemas

The types of Avro data. Logical types that change how data is read or shown are types of their own.
-/

namespace ChangeCapture.Avro

/-- Points in time and times of day that are held in 64 bits. -/
inductive Instant
  | timeMicros
  | timestampMillis
  | timestampMicros
  | timestampNanos
  | localTimestampMillis
  | localTimestampMicros
  | localTimestampNanos
  deriving DecidableEq, Repr

/-- A field of a record of types `σ`. -/
structure Field (σ : Type) where
  name : String
  type : σ
  default : Option Json

inductive Schema
  | null
  | boolean
  | int
  | long
  | float
  | double
  | bytes
  | string
  | array (items : Schema)
  | map (values : Schema)
  | union (branches : List Schema)
  | record (name : Name) (fields : List (Field Schema))
  | enumeration (name : Name) (symbols : List String) (default : Option String)
  | fixed (name : Name) (size : Nat)
  /-- A decimal held in the bytes of another type. -/
  | decimal (inner : Schema) (precision : Nat) (scale : Nat)
  | bigDecimal
  | uuid
  | date
  | timeMillis
  | instant (unit : Instant)
  | duration
  /-- A type that is defined elsewhere in the same schema. -/
  | ref (name : Name)
  deriving Inhabited

/-- What tells the branches of a union apart. -/
inductive Kind
  | null | boolean | int | long | float | double | bytes | string
  | array | map | union | record | enumeration | fixed
  | decimal | bigDecimal | uuid | date | timeMillis | instant (unit : Instant) | duration
  | ref
  deriving DecidableEq, Repr

/-- Kinds that a union may hold more than once. -/
def Kind.isNamed : Kind → Bool
  | .record | .enumeration | .fixed | .ref => true
  | _ => false

namespace Schema

def kind : Schema → Kind
  | .null => .null
  | .boolean => .boolean
  | .int => .int
  | .long => .long
  | .float => .float
  | .double => .double
  | .bytes => .bytes
  | .string => .string
  | .array _ => .array
  | .map _ => .map
  | .union _ => .union
  | .record _ _ => .record
  | .enumeration _ _ _ => .enumeration
  | .fixed _ _ => .fixed
  | .decimal _ _ _ => .decimal
  | .bigDecimal => .bigDecimal
  | .uuid => .uuid
  | .date => .date
  | .timeMillis => .timeMillis
  | .instant unit => .instant unit
  | .duration => .duration
  | .ref _ => .ref

/-- The name of a type that has one. -/
def name? : Schema → Option Name
  | .record name _ => some name
  | .enumeration name _ _ => some name
  | .fixed name _ => some name
  | .ref name => some name
  | _ => none

/-- The namespace of a type that has a name. -/
def space? (s : Schema) : Option String := s.name?.bind Name.space

mutual

/-- The number of types within a type, itself included. -/
def size : Schema → Nat
  | .array items => items.size + 1
  | .map values => values.size + 1
  | .union branches => sizeBranches branches + 1
  | .record _ fields => sizeFields fields + 1
  | .decimal inner _ _ => inner.size + 1
  | _ => 1

def sizeBranches : List Schema → Nat
  | [] => 0
  | s :: rest => s.size + sizeBranches rest

def sizeFields : List (Field Schema) → Nat
  | [] => 0
  | f :: rest => sizeField f + sizeFields rest

def sizeField : Field Schema → Nat
  | ⟨_, type, _⟩ => type.size

end

end Schema

/-- The definitions of named types. -/
abbrev Definitions := List (Name × Schema)

namespace Schema

mutual

/-- Adds the types that a schema defines, in the order in which they are met. A name may be defined
once, and a reference has to follow the definition it refers to unless it is `known` from
elsewhere. -/
def define? (known : Definitions) (space : Option String) (defs : Definitions) :
    Schema → Option Definitions
  | .array items => define? known space defs items
  | .map values => define? known space defs values
  | .union branches => defineBranches? known space defs branches
  | .record name fields =>
      let full := name.within space
      if (defs.lookup full).isSome then none
      else defineFields? known full.space ((full, .record name fields) :: defs) fields
  | .enumeration name symbols default =>
      let full := name.within space
      if (defs.lookup full).isSome then none
      else some ((full, .enumeration name symbols default) :: defs)
  | .fixed name size =>
      let full := name.within space
      if (defs.lookup full).isSome then none else some ((full, .fixed name size) :: defs)
  | .ref name =>
      let full := name.within space
      if (defs.lookup full).isSome || (known.lookup full).isSome then some defs else none
  | _ => some defs

def defineBranches? (known : Definitions) (space : Option String) (defs : Definitions) :
    List Schema → Option Definitions
  | [] => some defs
  | s :: rest =>
      match define? known space defs s with
      | none => none
      | some defs => defineBranches? known space defs rest

def defineFields? (known : Definitions) (space : Option String) (defs : Definitions) :
    List (Field Schema) → Option Definitions
  | [] => some defs
  | f :: rest =>
      match defineField? known space defs f with
      | none => none
      | some defs => defineFields? known space defs rest

def defineField? (known : Definitions) (space : Option String) (defs : Definitions) :
    Field Schema → Option Definitions
  | ⟨_, type, _⟩ => define? known space defs type

end

/-- All types that a schema defines, if each is defined once and before it is referred to. -/
def definitions? (s : Schema) : Option Definitions := define? [] none [] s

end Schema

end ChangeCapture.Avro
