import ChangeCapture.Avro.Rendering
import ChangeCapture.Proofs.Text.Integers

/-!
# Decimals as texts

A decimal is written exactly: the whole part without needless zeros, then as many digits as its
scale says, and the number is read back when the point is left out.
-/

namespace ChangeCapture.Avro

/-! ## Two's complement -/

theorem foldl_unsigned (bytes : List UInt8) (acc : Nat) :
    bytes.foldl (fun acc b => acc * 256 + b.toNat) acc =
      acc * 256 ^ bytes.length + unsigned bytes := by
  unfold unsigned
  induction bytes generalizing acc with
  | nil => simp
  | cons b rest ih =>
      rw [List.foldl_cons, List.foldl_cons, ih, ih (0 * 256 + b.toNat), Nat.zero_mul, Nat.zero_add,
        Nat.add_mul, Nat.mul_assoc, List.length_cons, Nat.pow_succ', Nat.add_assoc]

theorem unsigned_cons (b : UInt8) (rest : List UInt8) :
    unsigned (b :: rest) = b.toNat * 256 ^ rest.length + unsigned rest := by
  rw [unsigned, List.foldl_cons, foldl_unsigned, Nat.zero_mul, Nat.zero_add]

theorem unsigned_lt (bytes : List UInt8) : unsigned bytes < 256 ^ bytes.length := by
  induction bytes with
  | nil => exact Nat.one_pos
  | cons b rest ih =>
      have hb : b.toNat * 256 ^ rest.length ≤ 255 * 256 ^ rest.length :=
        Nat.mul_le_mul_right _ (Nat.le_of_lt_succ b.toNat_lt)
      rw [unsigned_cons, List.length_cons, Nat.pow_succ]
      omega

/-- The value of bytes is that of the word that they make up. -/
theorem twosComplement_eq_toInt (bytes : List UInt8) :
    twosComplement bytes = (BitVec.ofNat (8 * bytes.length) (unsigned bytes)).toInt := by
  have hpow : 2 ^ (8 * bytes.length) = 256 ^ bytes.length := by rw [Nat.pow_mul]
  have hword : (BitVec.ofNat (8 * bytes.length) (unsigned bytes)).toNat = unsigned bytes := by
    rw [BitVec.toNat_ofNat, hpow, Nat.mod_eq_of_lt (unsigned_lt bytes)]
  rw [BitVec.toInt_eq_toNat_cond, hword, hpow]
  cases bytes with
  | nil => rfl
  | cons b rest =>
      have hrest := unsigned_lt rest
      rw [twosComplement, unsigned_cons, List.length_cons, Nat.pow_succ]
      -- the first byte decides which half of the range the word is in
      by_cases hb : b.toNat < 128
      · have hlow : b.toNat * 256 ^ rest.length ≤ 127 * 256 ^ rest.length :=
          Nat.mul_le_mul_right _ (Nat.le_of_lt_succ hb)
        rw [if_pos hb, if_pos (by omega)]
      · have hhigh : 128 * 256 ^ rest.length ≤ b.toNat * 256 ^ rest.length :=
          Nat.mul_le_mul_right _ (Nat.not_lt.mp hb)
        rw [if_neg hb, if_neg (by omega)]
        rfl

/-- The byte that carries the sign of a number on to the left. -/
def signByte : List UInt8 → UInt8
  | [] => 0
  | b :: _ => if b.toNat < 128 then 0 else 0xff

theorem signByte_cons (bytes : List UInt8) :
    signByte (signByte bytes :: bytes) = signByte bytes := by
  cases bytes with
  | nil => rfl
  | cons b rest =>
      simp only [signByte]
      split <;> rfl

theorem twosComplement_signByte_cons (bytes : List UInt8) :
    twosComplement (signByte bytes :: bytes) = twosComplement bytes := by
  cases bytes with
  | nil => rfl
  | cons b rest =>
      by_cases hb : b.toNat < 128
      · rw [signByte, twosComplement, twosComplement, if_pos hb, if_pos hb, unsigned_cons 0]
        simp
      · have hpow : Nat.pow 256 ((b :: rest).length + 1) = 256 * 256 ^ (b :: rest).length :=
          Nat.pow_succ'
        have hbyte : ¬ (0xff : UInt8).toNat < 128 := by decide
        rw [signByte, twosComplement, twosComplement, if_neg hb, if_neg hb, if_neg hbyte,
          unsigned_cons 0xff, hpow]
        change ((255 * 256 ^ (b :: rest).length + unsigned (b :: rest) : Nat) : Int) -
          ((256 * 256 ^ (b :: rest).length : Nat) : Int) =
            (unsigned (b :: rest) : Int) - ((256 ^ (b :: rest).length : Nat) : Int)
        omega

theorem twosComplement_replicate_signByte (k : Nat) (bytes : List UInt8) :
    twosComplement (List.replicate k (signByte bytes) ++ bytes) = twosComplement bytes := by
  induction k generalizing bytes with
  | zero => rfl
  | succ k ih =>
      -- the last of the new bytes is put in front first
      have hrest := ih (signByte bytes :: bytes)
      rw [signByte_cons, twosComplement_signByte_cons] at hrest
      rw [List.replicate_succ', List.append_assoc]
      exact hrest

/-! ## Digits -/

/-- The digits of a number, after zeros until there are more than `scale` of them. -/
def paddedDigits (n scale : Nat) : List Char :=
  List.replicate (scale + 1 - (Text.digits n).length) '0' ++ Text.digits n

theorem lt_length_paddedDigits (n scale : Nat) : scale < (paddedDigits n scale).length := by
  rw [paddedDigits, List.length_append, List.length_replicate]
  omega

theorem isDigit_of_mem_paddedDigits {n scale : Nat} {c : Char} (h : c ∈ paddedDigits n scale) :
    c.isDigit := by
  rcases List.mem_append.mp h with h | h
  · obtain ⟨-, rfl⟩ := List.mem_replicate.mp h
    decide
  · exact Text.isDigit_of_mem_digits h

theorem point_notMem_paddedDigits (n scale : Nat) : '.' ∉ paddedDigits n scale := by
  intro h
  exact absurd (isDigit_of_mem_paddedDigits h) (by decide)

theorem ofDigitChars_paddedDigits (n scale : Nat) :
    Nat.ofDigitChars 10 (paddedDigits n scale) 0 = n := by
  rw [paddedDigits, Nat.ofDigitChars_append, Nat.ofDigitChars_replicate_zero, Nat.mul_zero]
  exact Nat.ofDigitChars_ten_toDigits

theorem paddedDigits_eq {n scale : Nat} (h : scale < (Text.digits n).length) :
    paddedDigits n scale = Text.digits n := by
  rw [paddedDigits, Nat.sub_eq_zero_of_le h, List.replicate_zero, List.nil_append]

/-- The digits in front of the point are those of the whole part. -/
theorem take_paddedDigits (n scale : Nat) :
    (paddedDigits n scale).take ((paddedDigits n scale).length - scale) =
      Text.digits (n / 10 ^ scale) := by
  rcases Nat.eq_zero_or_pos scale with rfl | hscale
  · rw [paddedDigits_eq (Text.length_digits_pos n), Nat.sub_zero, List.take_length, Nat.pow_zero,
      Nat.div_one]
  · have hlength : (Text.digits n).length ≤ scale ↔ n < 10 ^ scale :=
      Nat.length_toDigits_le_iff (by decide) hscale
    by_cases hn : n < 10 ^ scale
    · -- all digits stand after the point, and a zero in front of it
      have hle := hlength.mpr hn
      have htotal : (paddedDigits n scale).length = scale + 1 := by
        rw [paddedDigits, List.length_append, List.length_replicate]
        omega
      obtain ⟨k, hk⟩ : ∃ k, scale + 1 - (Text.digits n).length = k + 1 :=
        Nat.exists_eq_add_one.mpr (by omega)
      rw [htotal, Nat.add_sub_cancel_left, Nat.div_eq_of_lt hn, paddedDigits, hk,
        List.replicate_succ]
      rfl
    · have hlt : scale < (Text.digits n).length := Nat.lt_of_not_ge fun h => hn (hlength.mp h)
      rw [paddedDigits_eq hlt, Text.take_digits (Nat.not_lt.mp hn)]

/-! ## Texts -/

/-- The text of `n / 10 ^ scale`: a minus sign if the number is negative, the digits of the whole
part without needless zeros, and, if there is a scale, a point with as many digits. Without the
point the text is read as `n`. -/
structure IsScaledText (n : Int) (scale : Nat) (text : List Char) : Prop where
  shape : ∃ fraction : List Char, fraction.length = scale ∧ (∀ c ∈ fraction, c.isDigit) ∧
    text = (if n < 0 then ['-'] else []) ++ Text.digits (n.natAbs / 10 ^ scale) ++
      if scale = 0 then [] else '.' :: fraction
  reads : ∀ low high : Nat, -low ≤ n → n ≤ high →
    Text.readSigned low high (text.filter (· ≠ '.')) = .ok n

theorem writeScaled_eq (n : Int) (scale : Nat) :
    writeScaled n scale = Text.sign n ++ Text.digits (n.natAbs / 10 ^ scale) ++
      if scale = 0 then []
      else
        '.' :: (paddedDigits n.natAbs scale).drop
          ((paddedDigits n.natAbs scale).length - scale) := by
  rw [← take_paddedDigits]
  unfold writeScaled Text.sign
  dsimp only
  by_cases hscale : scale = 0
  · subst hscale
    rw [if_pos rfl, if_pos rfl, List.append_nil, Nat.sub_zero, List.take_length,
      paddedDigits_eq (Text.length_digits_pos _)]
  · rw [if_neg hscale, if_neg hscale]
    rfl

theorem point_notMem_sign (n : Int) : '.' ∉ Text.sign n := by
  unfold Text.sign
  split
  · decide
  · exact List.not_mem_nil

theorem filter_of_notMem {cs : List Char} (h : '.' ∉ cs) : cs.filter (· ≠ '.') = cs := by
  rw [List.filter_eq_self]
  intro c hc
  rw [decide_eq_true_iff]
  rintro rfl
  exact h hc

theorem filter_writeScaled (n : Int) (scale : Nat) :
    (writeScaled n scale).filter (· ≠ '.') = Text.sign n ++ paddedDigits n.natAbs scale := by
  have hdigits : ∀ ds ⊆ paddedDigits n.natAbs scale, ds.filter (· ≠ '.') = ds := fun ds hds =>
    filter_of_notMem fun h => point_notMem_paddedDigits _ _ (hds h)
  rw [writeScaled_eq, List.filter_append, List.filter_append,
    filter_of_notMem (point_notMem_sign n), ← take_paddedDigits, hdigits _ (List.take_subset _ _),
    List.append_assoc]
  by_cases hscale : scale = 0
  · rw [if_pos hscale, hscale, Nat.sub_zero, List.take_length]
    exact congrArg _ (List.append_nil _)
  · rw [if_neg hscale, List.filter_cons_of_neg (by decide), hdigits _ (List.drop_subset _ _),
      List.take_append_drop]

theorem isScaledText_writeScaled (n : Int) (scale : Nat) :
    IsScaledText n scale (writeScaled n scale) where
  shape := by
    refine ⟨_, ?_, ?_, writeScaled_eq n scale⟩
    · have hlength := lt_length_paddedDigits n.natAbs scale
      rw [List.length_drop]
      omega
    · intro c hc
      exact isDigit_of_mem_paddedDigits (List.mem_of_mem_drop hc)
  reads low high hlow hhigh := by
    rw [filter_writeScaled]
    refine Text.readSigned_sign ?_ (fun c hc => isDigit_of_mem_paddedDigits hc)
      (ofDigitChars_paddedDigits _ _) hlow hhigh
    exact List.ne_nil_of_length_pos (Nat.zero_lt_of_lt (lt_length_paddedDigits _ _))

example : writeScaled (-5) 2 = ['-', '0', '.', '0', '5'] := by decide

theorem writeScaled_injective (scale : Nat) : Function.Injective (writeScaled · scale) := by
  intro n m h
  have hread := (isScaledText_writeScaled n scale).reads (n.natAbs + m.natAbs)
    (n.natAbs + m.natAbs) (by omega) (by omega)
  have hread' := (isScaledText_writeScaled m scale).reads (n.natAbs + m.natAbs)
    (n.natAbs + m.natAbs) (by omega) (by omega)
  have htext : writeScaled n scale = writeScaled m scale := h
  rw [htext, hread'] at hread
  exact (Except.ok.inj hread).symm

/-- The number of characters after the first point. -/
def fractionDigits (cs : List Char) : Nat := ((cs.dropWhile (· ≠ '.')).drop 1).length

theorem dropWhile_of_notMem {cs : List Char} (h : '.' ∉ cs) (ds : List Char) :
    (cs ++ ds).dropWhile (· ≠ '.') = ds.dropWhile (· ≠ '.') := by
  apply List.dropWhile_append_of_pos
  intro c hc
  rw [decide_eq_true_iff]
  rintro rfl
  exact h hc

theorem fractionDigits_of_notMem {cs : List Char} (h : '.' ∉ cs) : fractionDigits cs = 0 := by
  have hnone := dropWhile_of_notMem h []
  rw [List.append_nil] at hnone
  rw [fractionDigits, hnone]
  rfl

theorem fractionDigits_append {cs : List Char} (h : '.' ∉ cs) (ds : List Char) :
    fractionDigits (cs ++ '.' :: ds) = ds.length := by
  rw [fractionDigits, dropWhile_of_notMem h]
  rfl

theorem IsScaledText.fractionDigits_eq {n : Int} {scale : Nat} {text : List Char}
    (h : IsScaledText n scale text) : fractionDigits text = scale := by
  obtain ⟨fraction, hlength, -, rfl⟩ := h.shape
  have hwhole : '.' ∉ Text.sign n ++ Text.digits (n.natAbs / 10 ^ scale) := by
    rw [← take_paddedDigits, List.mem_append, not_or]
    exact ⟨point_notMem_sign n, fun h => point_notMem_paddedDigits _ _ (List.mem_of_mem_take h)⟩
  by_cases hscale : scale = 0
  · rw [if_pos hscale, List.append_nil, hscale]
    rw [hscale] at hwhole
    exact fractionDigits_of_notMem hwhole
  · rw [if_neg hscale]
    exact (fractionDigits_append hwhole fraction).trans hlength

theorem fractionDigits_writeScaled (n : Int) (scale : Nat) :
    fractionDigits (writeScaled n scale) = scale :=
  (isScaledText_writeScaled n scale).fractionDigits_eq

/-- A number is written with one scale only. -/
theorem isScaledText_writeScaled_iff {n : Int} {scale shown : Nat} :
    IsScaledText n scale (writeScaled n shown) ↔ scale = shown := by
  constructor
  · intro h
    rw [← h.fractionDigits_eq, fractionDigits_writeScaled]
  · rintro rfl
    exact isScaledText_writeScaled n scale

/-! ## Values as JSON -/

theorem Decimal.toJson?_eq_ok_iff {d : Decimal} {scale : Nat} {v : Json} :
    d.toJson? scale = .ok v ↔ d.bytes ≠ [] ∧ d.bytes.length ≤ 16 ∧
      v = .str (String.ofList (writeScaled d.value scale)) := by
  unfold Decimal.toJson? Decimal.write
  by_cases hempty : d.bytes = []
  · simp [hempty, Except.map]
  · by_cases hwide : 16 < d.bytes.length
    · simp [hempty, hwide, Nat.not_le.mpr hwide, Except.map]
    · simp only [List.isEmpty_iff, hempty, hwide, Except.map, Nat.not_lt.mp hwide, if_false,
        Except.ok.injEq, ne_eq, not_false_eq_true, true_and]
      exact eq_comm

namespace Value

theorem columnToJson?_decimal {v : Value} {d : Decimal} (h : v.unwrap = .decimal d)
    (type : Json) : v.columnToJson? type = d.toJson? (decimalScale type) := by
  rw [columnToJson?, h]

theorem columnToJson?_congr {type type' : Json} (h : decimalScale type = decimalScale type')
    (v : Value) : v.columnToJson? type = v.columnToJson? type' := by
  unfold columnToJson?
  rw [h]

theorem toJson?_unwrap : (v : Value) → v.unwrap.toJson? = v.toJson?
  | .union _ inner => by rw [unwrap, toJson?, toJson?_unwrap inner]
  | .null | .boolean _ | .int _ | .long _ | .float _ | .double _ | .bytes _ | .string _ | .fixed _ _
  | .enumeration _ _ | .array _ | .map _ | .record _ | .date _ | .timeMillis _ | .instant _ _
  | .decimal _ | .bigDecimal _ | .duration _ | .uuid _ => rfl

/-- A decimal of at most 128 bits, within any unions, is written exactly: in a column with the scale
that is found in the column's type, elsewhere as an integer. Its number is that of the word that its
bytes make up, so more bytes of the same sign change nothing. Two columns of one scale have the same
text exactly if they hold the same number. -/
theorem columnToJson?_isScaledText {v : Value} {d : Decimal} (hv : v.unwrap = .decimal d)
    (hsome : 1 ≤ d.bytes.length) (hfits : d.bytes.length ≤ 16) (type : Json) :
    d.value = (BitVec.ofNat (8 * d.bytes.length) (unsigned d.bytes)).toInt ∧
    (∀ k, Decimal.value ⟨List.replicate k (signByte d.bytes) ++ d.bytes⟩ = d.value) ∧
    (∃ text, v.columnToJson? type = .ok (.str (String.ofList text)) ∧
      IsScaledText d.value (decimalScale type) text) ∧
    (∃ text, v.toJson? = .ok (.str (String.ofList text)) ∧ IsScaledText d.value 0 text) ∧
    ∀ (v' : Value) (d' : Decimal) (type' : Json), v'.unwrap = .decimal d' →
      1 ≤ d'.bytes.length → d'.bytes.length ≤ 16 → decimalScale type' = decimalScale type →
      (v'.columnToJson? type' = v.columnToJson? type ↔ d'.value = d.value) := by
  have hne : d.bytes ≠ [] := List.ne_nil_of_length_pos hsome
  have hwritten : ∀ scale,
      d.toJson? scale = .ok (.str (String.ofList (writeScaled d.value scale))) :=
    fun scale => Decimal.toJson?_eq_ok_iff.mpr ⟨hne, hfits, rfl⟩
  refine ⟨twosComplement_eq_toInt d.bytes, fun k => twosComplement_replicate_signByte k d.bytes,
    ⟨_, ?_, isScaledText_writeScaled d.value (decimalScale type)⟩,
    ⟨_, ?_, isScaledText_writeScaled d.value 0⟩, ?_⟩
  · rw [columnToJson?_decimal hv, hwritten]
  · rw [← toJson?_unwrap, hv, toJson?, hwritten]
  · intro v' d' type' hv' hsome' hfits' hscale
    have hwritten' : d'.toJson? (decimalScale type) =
        .ok (.str (String.ofList (writeScaled d'.value (decimalScale type)))) :=
      Decimal.toJson?_eq_ok_iff.mpr ⟨List.ne_nil_of_length_pos hsome', hfits', rfl⟩
    rw [columnToJson?_decimal hv, columnToJson?_decimal hv', hscale, hwritten, hwritten']
    constructor
    · intro h
      have htext := Json.str.inj (Except.ok.inj h)
      exact writeScaled_injective (decimalScale type) (String.ofList_injective htext)
    · intro h
      rw [h]

/-- The type of an optional amount with two places. -/
def amount : Json :=
  .arr [.str "null", .obj [("logicalType", .str "decimal"), ("scale", .int 2),
    ("type", .str "bytes")]]

/-- Five hundredths less than nothing, in two bytes within a union and in one byte. -/
theorem columnToJson?_isScaledText_amount :
    (∃ text, (union 1 (decimal ⟨[0xff, 0xfb]⟩)).columnToJson? amount =
      .ok (.str (String.ofList text)) ∧ IsScaledText (-5) 2 text) ∧
    (decimal ⟨[0xfb]⟩).columnToJson? amount =
      (union 1 (decimal ⟨[0xff, 0xfb]⟩)).columnToJson? amount := by
  have hvalue : Decimal.value ⟨[0xff, 0xfb]⟩ = -5 := by decide
  have hscale : decimalScale amount = 2 := by decide
  obtain ⟨-, -, hcolumn, -, halike⟩ :=
    columnToJson?_isScaledText (v := union 1 (decimal ⟨[0xff, 0xfb]⟩)) rfl (by decide) (by decide)
      amount
  rw [hvalue, hscale] at hcolumn
  exact ⟨hcolumn, (halike (decimal ⟨[0xfb]⟩) ⟨[0xfb]⟩ amount rfl (by decide) (by decide) rfl).mpr
    (by decide)⟩

end Value

end ChangeCapture.Avro
