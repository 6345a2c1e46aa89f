import ChangeCapture.Avro.Value
import ChangeCapture.Avro.Varint
import ChangeCapture.Keyed
import ChangeCapture.Text.Bytes

/-!
# Binary data

Decoding the binary form of a value with the schema it was written with. Three kinds of data may end
early without an error: a boolean that is cut off is null, a string whose text is cut short is null,
and a union whose index is cut off is null in its first branch. All else that does not decode is an
error, and bytes after the value are left alone.
-/

namespace ChangeCapture.Avro

/-- Reads something from the front of the input and gives what is left. -/
abbrev Reader (α : Type) := List UInt8 → Option (α × List UInt8)

namespace Reader

/-- The greatest length of anything that is read. -/
def lengthLimit : Int := 0x20000000

def long? : Reader Int64 := fun bytes => (Varint.readLong bytes).toOption

def int? : Reader Int32 := fun bytes =>
  match long? bytes with
  | some (n, rest) =>
      if -0x80000000 ≤ n.toInt ∧ n.toInt < 0x80000000 then some (Int32.ofInt n.toInt, rest)
      else none
  | none => none

def length? : Reader Nat := fun bytes =>
  match long? bytes with
  | some (n, rest) =>
      if 0 ≤ n.toInt ∧ n.toInt ≤ lengthLimit then some (n.toInt.toNat, rest) else none
  | none => none

/-- The count of items of a block. A negative count is followed by the size of the block, which is
not needed. -/
def blockCount? : Reader Nat := fun bytes =>
  match long? bytes with
  | none => none
  | some (n, rest) =>
      if 0 ≤ n.toInt then
        if n.toInt ≤ lengthLimit then some (n.toInt.toNat, rest) else none
      else
        match long? rest with
        | none => none
        | some (_, rest) =>
            if -n.toInt ≤ lengthLimit then some ((-n.toInt).toNat, rest) else none

/-- Exactly `n` bytes. -/
def take? : Nat → Reader (List UInt8)
  | 0, bytes => some ([], bytes)
  | _ + 1, [] => none
  | n + 1, b :: bytes =>
      match take? n bytes with
      | some (taken, rest) => some (b :: taken, rest)
      | none => none

/-- Bytes with their length in front. -/
def blob? : Reader (List UInt8) := fun bytes =>
  match length? bytes with
  | some (n, rest) => take? n rest
  | none => none

/-- A text with its length in front; null if fewer bytes are left than it has. -/
def string? : Reader Value := fun bytes =>
  match length? bytes with
  | none => none
  | some (n, rest) =>
      match take? n rest with
      | none => some (.null, [])
      | some (taken, rest) =>
          match Text.Utf8.decode taken with
          | .ok cs => some (.string (String.ofList cs), rest)
          | .error _ => none

def boolean? : Reader Value
  | [] => some (.null, [])
  | b :: rest =>
      if b = 0 then some (.boolean false, rest)
      else if b = 1 then some (.boolean true, rest)
      else none

/-- The number written by bytes from the least significant one on. -/
def littleEndian : List UInt8 → Nat
  | [] => 0
  | b :: rest => b.toNat + 256 * littleEndian rest

/-- A number of `n` bytes, the least significant first. -/
def word? (n : Nat) : Reader Nat := fun bytes =>
  match take? n bytes with
  | some (taken, rest) => some (littleEndian taken, rest)
  | none => none

/-- Sixteen raw bytes, or a text of another length. -/
def uuid? : Reader Uuid := fun bytes =>
  match blob? bytes with
  | none => none
  | some (data, rest) =>
      match Uuid.ofBytes? data with
      | some u => some (u, rest)
      | none =>
          match Text.Utf8.decode data with
          | .ok cs => (Uuid.ofChars? cs).map fun u => (u, rest)
          | .error _ => none

/-- The two's-complement bytes of the unscaled value with their length in front, and the scale. -/
def unscaledAndScale? : Reader BigDecimal := fun bytes =>
  match blob? bytes with
  | none => none
  | some (digits, rest) =>
      match long? rest with
      | none => none
      | some (scale, rest) => some (⟨twosComplement digits, scale⟩, rest)

/-- A decimal with its scale in a blob of their own, in which more bytes may follow them. -/
def bigDecimal? : Reader BigDecimal := fun bytes =>
  match blob? bytes with
  | none => none
  | some (data, rest) => (unscaledAndScale? data).map fun p => (p.1, rest)

def duration? : Reader Duration := fun bytes =>
  match word? 4 bytes with
  | none => none
  | some (months, bytes) =>
      match word? 4 bytes with
      | none => none
      | some (days, bytes) =>
          match word? 4 bytes with
          | none => none
          | some (millis, bytes) =>
              some (⟨UInt32.ofNat months, UInt32.ofNat days, UInt32.ofNat millis⟩, bytes)

/-- `n` items, one after the other. -/
def items? {α : Type} (item : Reader α) : Nat → Reader (List α)
  | 0, bytes => some ([], bytes)
  | n + 1, bytes =>
      match item bytes with
      | none => none
      | some (x, rest) =>
          match items? item n rest with
          | some (xs, rest) => some (x :: xs, rest)
          | none => none

/-- Blocks of items up to an empty block. Each block takes at least one byte, which bounds their
number by the length of the input. -/
def blocks? {α : Type} (item : Reader α) : Nat → Reader (List α)
  | 0, _ => none
  | fuel + 1, bytes =>
      match blockCount? bytes with
      | none => none
      | some (0, rest) => some ([], rest)
      | some (n, rest) =>
          match items? item n rest with
          | none => none
          | some (xs, rest) =>
              match blocks? item fuel rest with
              | some (ys, rest) => some (xs ++ ys, rest)
              | none => none

/-- All blocks that the input can hold. -/
def sequence? {α : Type} (item : Reader α) : Reader (List α) := fun bytes =>
  blocks? item (bytes.length + 1) bytes

/-- A key, which has to be there in full, and its value. -/
def member? (value : Reader Value) : Reader (String × Value) := fun bytes =>
  match string? bytes with
  | some (.string key, rest) =>
      match value rest with
      | some (v, rest) => some ((key, v), rest)
      | none => none
  | _ => none

/-- The fields of a record in their order. -/
def fields? (value : Schema → Reader Value) : List (Field Schema) → Reader (List (String × Value))
  | [], bytes => some ([], bytes)
  | f :: fs, bytes =>
      match value f.type bytes with
      | none => none
      | some (v, rest) =>
          match fields? value fs rest with
          | some (vs, rest) => some ((f.name, v) :: vs, rest)
          | none => none

def enumeration? (symbols : List String) : Reader Value := fun bytes =>
  match int? bytes with
  | none => none
  | some (n, rest) =>
      if n.toInt < 0 then none
      else (symbols[n.toInt.toNat]?).map fun s => (.enumeration n.toInt.toNat s, rest)

def union? (value : Schema → Reader Value) (branches : List Schema) : Reader Value := fun bytes =>
  match Varint.readLong bytes with
  | .error .truncated => some (.union 0 .null, [])
  | .error .overlong => none
  | .ok (n, rest) =>
      if n.toInt < 0 then none
      else
        match branches[n.toInt.toNat]? with
        | none => none
        | some s =>
            match value s rest with
            | some (v, rest) => some (.union n.toInt.toNat v, rest)
            | none => none

/-- Gives what is read another form. -/
def as {α β : Type} (f : α → β) (r : Reader α) : Reader β := fun bytes =>
  (r bytes).map fun p => (f p.1, p.2)

end Reader

namespace Schema

open Reader in
/-- Reads a value of a type that stands inside a namespace. References are looked up in `defs`;
`fuel` bounds how deep types nest. -/
def read? (defs : Definitions) : Nat → Option String → Schema → Reader Value
  | 0, _, _ => fun _ => none
  | fuel + 1, space, s =>
      match s with
      | .null => fun bytes => some (.null, bytes)
      | .boolean => boolean?
      | .int => int?.as .int
      | .long => long?.as .long
      | .float => (word? 4).as fun n => .float (UInt32.ofNat n)
      | .double => (word? 8).as fun n => .double (UInt64.ofNat n)
      | .bytes => blob?.as .bytes
      | .string => string?
      | .array items => (sequence? (read? defs fuel space items)).as .array
      | .map values =>
          (sequence? (member? (read? defs fuel space values))).as fun es => .map (Keyed.ofList es)
      | .union branches => union? (read? defs fuel space) branches
      | .record name fields =>
          (fields? (read? defs fuel (name.within space).space) fields).as .record
      | .enumeration _ symbols _ => enumeration? symbols
      | .fixed _ size => (take? size).as fun data => .fixed size data
      | .decimal inner _ _ => fun bytes =>
          match read? defs fuel space inner bytes with
          | some (.bytes data, rest) => some (.decimal ⟨data⟩, rest)
          | some (.fixed _ data, rest) => some (.decimal ⟨data⟩, rest)
          | _ => none
      | .bigDecimal => bigDecimal?.as .bigDecimal
      | .uuid => uuid?.as .uuid
      | .date => int?.as .date
      | .timeMillis => int?.as .timeMillis
      | .instant unit => long?.as (.instant unit)
      | .duration => duration?.as .duration
      | .ref name =>
          match defs.lookup (name.within space) with
          | some target => read? defs fuel (name.within space).space target
          | none => fun _ => none

/-- The value at the front of the input. Between two bytes a path through the schema meets each of
its types at most once, which bounds the nesting. -/
def decode? (s : Schema) (bytes : List UInt8) : Option Value :=
  match s.definitions? with
  | none => none
  | some defs =>
      (read? defs ((bytes.length + 1) * (s.size + 1) + 1) none s bytes).map Prod.fst

end Schema

end ChangeCapture.Avro
