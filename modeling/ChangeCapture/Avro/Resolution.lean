import ChangeCapture.Avro.Decoder

/-!
# Resolution

Reading a value as a value of a type. It decides whether the default of a field suits the field's
type, and it is lenient: integers pass for floating point numbers, large integers for small ones,
texts for bytes, and a record takes its missing fields from their defaults.
-/

namespace ChangeCapture.Avro

namespace Value

mutual

/-- A JSON value as data. Integers of 32 bits are small ones, and those beyond 64 bits wrap. -/
def ofJson : Json → Value
  | .null => .null
  | .bool b => .boolean b
  | .int n =>
      if -0x80000000 ≤ n ∧ n < 0x80000000 then .int (Int32.ofInt n) else .long (Int64.ofInt n)
  | .double x => .double x.toBits
  | .str s => .string s
  | .arr items => .array (ofItems items)
  | .obj members => .map (ofMembers members)

def ofItems : List Json → List Value
  | [] => []
  | v :: rest => ofJson v :: ofItems rest

def ofMembers : List (String × Json) → List (String × Value)
  | [] => []
  | (k, v) :: rest => (k, ofJson v) :: ofMembers rest

end

/-- Only a value of a union type keeps its union. -/
def stripFor (s : Schema) (v : Value) : Value :=
  match v, s with
  | .union i inner, .union _ => .union i inner
  | .union _ inner, _ => inner
  | v, _ => v

/-- An integer of either width. -/
def asInt? : Value → Option Int
  | .int n => some n.toInt
  | .long n => some n.toInt
  | _ => none

def asDouble? : Value → Option Float
  | .int n => some (Float.ofInt n.toInt)
  | .long n => some (Float.ofInt n.toInt)
  | .double bits => some (Float.ofBits bits)
  | _ => none

/-- An integer of 32 bits; of a larger one the low 32 bits are kept. -/
def toInt32? (v : Value) : Option Int32 := v.asInt?.map Int32.ofInt

/-- An integer that is a byte once it is cut to 32 bits, also one in a union. -/
def toByte? (v : Value) : Option UInt8 :=
  match (stripFor .int v).toInt32? with
  | some n => if 0 ≤ n.toInt ∧ n.toInt < 256 then some n.toInt.toNat.toUInt8 else none
  | none => none

def utf8 (s : String) : List UInt8 := Text.Utf8.encode s.toList

def toFloat? : Value → Option Value
  | .float bits => some (.float bits)
  | v => v.asDouble?.map fun x => .float x.toFloat32.toBits

def toDouble? : Value → Option Value
  | .float bits => some (.double (Float32.ofBits bits).toFloat.toBits)
  | v => v.asDouble?.map fun x => .double x.toBits

def toBytes? : Value → Option Value
  | .bytes data => some (.bytes data)
  | .string s => some (.bytes (utf8 s))
  | .array items => (items.mapM toByte?).map .bytes
  | _ => none

def textOf? (data : List UInt8) : Option Value :=
  (Text.Utf8.decode data).toOption.map fun cs => .string (String.ofList cs)

def toString? : Value → Option Value
  | .string s => some (.string s)
  | .bytes data => textOf? data
  | .fixed _ data => textOf? data
  | _ => none

def toFixed? (size : Nat) : Value → Option Value
  | .fixed n data => if n = size then some (.fixed n data) else none
  | .bytes data => if data.length = size then some (.fixed size data) else none
  | .string s => some (.fixed (utf8 s).length (utf8 s))
  | _ => none

/-- A symbol of the list, or the default in place of a symbol that is not in it. -/
def toSymbol? (symbols : List String) (default : Option String) : Value → Option Value
  | .enumeration _ s => pick s
  | .string s => pick s
  | _ => none
where
  pick (s : String) : Option Value :=
    match symbols.idxOf? s with
    | some i => some (.enumeration i s)
    | none =>
        match default with
        | none => none
        | some d => (symbols.idxOf? d).map fun i => .enumeration i d

/-- Bytes as a decimal, if they have room for its digits, and so have the bytes that its type is
held in. -/
def toDecimal? (inner : Schema) (precision : Nat) (v : Value) : Option Value :=
  let bytes? : Option (List UInt8) :=
    match v with
    | .decimal d => some d.bytes
    | .bytes data => some data
    | .fixed _ data => some data
    | _ => none
  let declared : Bool :=
    match inner with
    | .fixed _ size => Decimal.hasRoom size precision
    | _ => true
  match bytes? with
  | some data =>
      if declared && Decimal.hasRoom data.length precision then some (.decimal ⟨data⟩) else none
  | none => none

def toBigDecimal? : Value → Option Value
  | .bigDecimal d => some (.bigDecimal d)
  | .bytes data => (Reader.unscaledAndScale? data).map fun p => .bigDecimal p.1
  | _ => none

/-- Twelve bytes are a duration, whatever the size of its type. -/
def toDuration? : Value → Option Value
  | .duration d => some (.duration d)
  | .fixed 12 data => (Reader.duration? data).map fun p => .duration p.1
  | _ => none

def toInstant? (unit : Instant) : Value → Option Value
  | .instant u n => if u = unit then some (.instant u n) else none
  | v => v.asInt?.map fun n => .instant unit (Int64.ofInt n)

/-- The members of a map or a record; of fields with one name the last counts. -/
def asMembers? : Value → Option (List (String × Value))
  | .map entries => some entries
  | .record fields => some fields.reverse
  | _ => none

/-- The value that a missing field takes, before it is seen as the field's type. For a union it is
read as the first branch. -/
def ofDefault? (resolve : Schema → Value → Option Value) (type : Schema) (default : Json) :
    Option Value :=
  match type with
  | .enumeration _ symbols d => toSymbol? symbols d (ofJson default)
  | .union (.null :: _) => some (.union 0 .null)
  | .union (first :: _) => (resolve first (ofJson default)).map (.union 0)
  | .union [] => none
  | _ => some (ofJson default)

/-- The fields of a record, each from the member of its name or from its default. -/
def toFields? (resolve : Schema → Value → Option Value) (members : List (String × Value)) :
    List (Field Schema) → Option (List (String × Value))
  | [] => some []
  | f :: rest => do
      let given ←
        match members.lookup f.name with
        | some v => some v
        | none => f.default.bind (ofDefault? resolve f.type)
      let v ← resolve f.type given
      let vs ← toFields? resolve members rest
      return (f.name, v) :: vs

/-- The first branch that the value can be read as. The types that a branch defines are known from
then on, in place of others with their names. -/
def firstBranch? (resolve : Definitions → Option String → Schema → Value → Option Value)
    (space : Option String) (v : Value) : Definitions → List (Nat × Schema) → Option (Nat × Schema)
  | _, [] => none
  | defs, (i, b) :: rest =>
      match b.define? defs space [] with
      | none => none
      | some own =>
          if (resolve (own ++ defs) (b.space?.or space) b v).isSome then some (i, b)
          else firstBranch? resolve space v (own ++ defs) rest

/-- The branch whose kind is that of the value, or else the first that the value can be read as. -/
def branch? (resolve : Definitions → Option String → Schema → Value → Option Value)
    (defs : Definitions) (space : Option String) (branches : List Schema) (v : Value) :
    Option (Nat × Schema) :=
  let numbered := branches.zipIdx.map fun p => (p.2, p.1)
  match numbered.find? fun p => p.2.kind = v.kind ∧ ¬p.2.kind.isNamed with
  | some p => some p
  | none => firstBranch? resolve space v defs numbered

/-- The value as one of a type that stands inside a namespace. References are looked up in `defs`;
`fuel` bounds the steps into types and values. -/
def resolve? : Nat → Definitions → Option String → Schema → Value → Option Value
  | 0, _, _, _, _ => none
  | fuel + 1, defs, space, s, v =>
      let v := stripFor s v
      match s with
      | .null =>
          match v with
          | .null => some .null
          | _ => none
      | .boolean =>
          match v with
          | .boolean b => some (.boolean b)
          | _ => none
      | .int => v.toInt32?.map .int
      | .long => v.asInt?.map fun n => .long (Int64.ofInt n)
      | .float => v.toFloat?
      | .double => v.toDouble?
      | .bytes => v.toBytes?
      | .string => v.toString?
      | .array items =>
          match v with
          | .array xs => (xs.mapM (resolve? fuel defs space items)).map .array
          | _ => none
      | .map values =>
          match v with
          | .map entries =>
              (entries.mapM fun e =>
                (resolve? fuel defs space values e.2).map fun x => (e.1, x)).map .map
          | _ => none
      | .union branches =>
          let inner :=
            match v with
            | .union _ w => w
            | w => w
          match branch? (resolve? fuel) defs space branches inner with
          | none => none
          | some (i, b) => (resolve? fuel defs space b inner).map (.union i)
      | .record _ fields =>
          match v.asMembers? with
          | none => none
          | some members => (toFields? (resolve? fuel defs space) members fields).map .record
      | .enumeration _ symbols default => v.toSymbol? symbols default
      | .fixed _ size => v.toFixed? size
      | .decimal inner precision _ => v.toDecimal? inner precision
      | .bigDecimal => v.toBigDecimal?
      | .uuid =>
          match v with
          | .uuid u => some (.uuid u)
          | .string t => (Uuid.ofChars? t.toList).map .uuid
          | _ => none
      | .date =>
          match v with
          | .date n => some (.date n)
          | .int n => some (.date n)
          | _ => none
      | .timeMillis =>
          match v with
          | .timeMillis n => some (.timeMillis n)
          | .int n => some (.timeMillis n)
          | _ => none
      | .instant unit => v.toInstant? unit
      | .duration => v.toDuration?
      | .ref name =>
          let full := name.within space
          match defs.lookup full with
          | some target => resolve? fuel defs full.space target v
          | none => none

end Value

/-- Whether a default suits a type: for a union it may suit any branch. -/
def Schema.suits (defs : Definitions) (fuel : Nat) (s : Schema) (default : Json) : Bool :=
  let v := Value.ofJson default
  match s with
  | .union branches => branches.any fun b => (Value.resolve? fuel defs b.space? b v).isSome
  | _ => (Value.resolve? fuel defs s.space? s v).isSome

end ChangeCapture.Avro
