import ChangeCapture.Change.Inbound
import ChangeCapture.Proofs.Avro.Extension
import ChangeCapture.Proofs.Avro.Varint
import ChangeCapture.Proofs.Change.Rows

/-!
# Wrappers from their bytes

A wrapper is read back from its encoding, whatever follows it. So no two wrappers have one encoding,
and none begins the encoding of another.
-/

namespace ChangeCapture

namespace Avro.Reader

theorem take?_append (data rest : List UInt8) :
    take? data.length (data ++ rest) = some (data, rest) := by
  induction data with
  | nil => rfl
  | cons b data ih => simp only [List.length_cons, List.cons_append, take?, ih]

theorem long?_writeLong (n : Int64) (rest : List UInt8) :
    long? (Varint.writeLong n ++ rest) = some (n, rest) := by
  rw [long?, Varint.readLong_writeLong]
  rfl

end Avro.Reader

namespace Change.Wrapper

open Avro (Schema)
open Avro.Reader

/-- The texts and bytes of a wrapper are short enough to be read. -/
structure IsReadable (w : Wrapper) : Prop where
  name_le : (Text.Utf8.encode w.tableName.toList).length ≤ lengthLimit
  payload_le : w.payload.length ≤ lengthLimit

theorem length?_encodeBlob {data : List UInt8} (h : data.length ≤ lengthLimit)
    (rest : List UInt8) : length? (encodeBlob data ++ rest) = some (data.length, data ++ rest) := by
  have hlimit : data.length ≤ 0x20000000 := Int.ofNat_le.mp h
  have hvalue : (Int64.ofNat data.length).toInt = data.length :=
    Int64.toInt_ofNat_of_lt (by omega)
  rw [length?, encodeBlob, List.append_assoc, long?_writeLong]
  dsimp only
  rw [hvalue, if_pos ⟨Int.natCast_nonneg _, h⟩]
  rfl

theorem blob?_encodeBlob {data : List UInt8} (h : data.length ≤ lengthLimit)
    (rest : List UInt8) : blob? (encodeBlob data ++ rest) = some (data, rest) := by
  rw [blob?, length?_encodeBlob h]
  exact take?_append data rest

theorem string?_encodeBlob {s : String}
    (h : (Text.Utf8.encode s.toList).length ≤ lengthLimit) (rest : List UInt8) :
    string? (encodeBlob (Text.Utf8.encode s.toList) ++ rest) = some (.string s, rest) := by
  apply string?_of_text?
  refine andThen_eq_some.mpr ⟨_, rest, blob?_encodeBlob h rest, ?_⟩
  rw [Text.Utf8.decode_encode]
  simp [given, Except.toOption]

/-- What the encoding of a wrapper is read as. -/
def toValue (w : Wrapper) : Avro.Value :=
  .record [("table_name", .string w.tableName), ("schema_fingerprint", .long w.fingerprint.value),
    ("payload", .bytes w.payload)]

theorem ofValue_toValue (w : Wrapper) : ofValue w.toValue = .ok w := rfl

theorem read?_encode {w : Wrapper} (h : w.IsReadable) (defs : Avro.Definitions) (fuel : Nat)
    (t : List UInt8) :
    schema.read? defs (fuel + 2) none (w.encode ++ t) = some (w.toValue, t) := by
  have hname := string?_encodeBlob h.name_le
    (Avro.Varint.writeLong w.fingerprint.value ++ (encodeBlob w.payload ++ t))
  have hfingerprint := long?_writeLong w.fingerprint.value (encodeBlob w.payload ++ t)
  have hpayload := blob?_encodeBlob h.payload_le t
  rw [encode, List.append_assoc, List.append_assoc]
  simp only [schema, Schema.read?, as, fields?, hname, hfingerprint, hpayload, Option.map_some]
  rfl

theorem decode_encode {w : Wrapper} (h : w.IsReadable) (t : List UInt8) :
    decode (w.encode ++ t) = .ok w := by
  obtain ⟨defs, hdefs⟩ : ∃ defs, schema.definitions? = some defs := ⟨_, rfl⟩
  obtain ⟨fuel, hfuel⟩ : ∃ fuel,
      ((w.encode ++ t).length + 1) * (schema.size + 1) + 1 = fuel + 2 := by
    have hpos := Nat.mul_pos (Nat.succ_pos (w.encode ++ t).length) (Nat.succ_pos schema.size)
    exact ⟨_, congrArg (· + 1) (Nat.sub_add_cancel hpos).symm⟩
  have hvalue : schema.decode? (w.encode ++ t) = some w.toValue := by
    rw [Schema.decode?, hdefs]
    dsimp only
    rw [hfuel, read?_encode h]
    rfl
  rw [decode, hvalue]
  exact ofValue_toValue w

/-- Nothing that follows a wrapper changes how it is read. -/
theorem decode_encode_append {w : Wrapper} (h : w.IsReadable) :
    (∀ t, decode (w.encode ++ t) = .ok w) ∧
      ∀ w' : Wrapper, w'.IsReadable → ∀ t, w'.encode = w.encode ++ t → w' = w ∧ t = [] := by
  refine ⟨decode_encode h, fun w' h' t heq => ?_⟩
  have hread : decode w'.encode = .ok w' := by simpa using decode_encode h' []
  rw [heq, decode_encode h t] at hread
  obtain rfl := Except.ok.inj hread
  exact ⟨rfl, List.self_eq_append_right.mp heq⟩

/-- The least fingerprint, which takes ten bytes, beside a name that is not plain ASCII. -/
def officeWrapper : Wrapper := ⟨"HR.Ä", ⟨Int64.minValue⟩, [0, 0xFF]⟩

theorem decode_encode_append_office :
    officeWrapper.IsReadable ∧
      officeWrapper.encode = [10, 0x48, 0x52, 0x2E, 0xC3, 0x84, 0xFF, 0xFF, 0xFF, 0xFF, 0xFF, 0xFF,
        0xFF, 0xFF, 0xFF, 1, 4, 0, 0xFF] ∧
      decode (officeWrapper.encode ++ [7]) = .ok officeWrapper ∧
      ∀ t, officeWrapper.encode = officeWrapper.encode ++ t → t = [] := by
  have hreadable : officeWrapper.IsReadable := ⟨by decide +kernel, by decide +kernel⟩
  obtain ⟨hdecode, hfront⟩ := decode_encode_append hreadable
  exact ⟨hreadable, by decide +kernel, hdecode [7], fun t ht => (hfront _ hreadable t ht).2⟩

end Change.Wrapper

end ChangeCapture
