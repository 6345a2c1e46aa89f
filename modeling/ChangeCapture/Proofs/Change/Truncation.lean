import ChangeCapture.Proofs.Avro.Truncation
import ChangeCapture.Proofs.Change.Documents
import ChangeCapture.Proofs.Change.Rows

/-!
# Rows of payloads that were cut

What a row keeps when its payload is cut short and still decodes.
-/

namespace ChangeCapture.Change

open Avro (Value)

namespace Fields

variable {fs gs : Fields}

theorem dropLast_areCutOf (h : Value.AreCutOf fs gs) :
    Value.AreCutOf fs.dropLast gs.dropLast := by
  induction fs generalizing gs with
  | nil =>
      cases h
      exact .nil
  | cons f fs ih =>
      cases h with
      | cons name value later =>
          have hrest := ih later
          cases later with
          | nil => exact .nil
          | cons name' value' later' => exact .cons name value hrest

theorem getLast?_areCutOf (h : Value.AreCutOf fs gs) :
    (fs = [] ∧ gs = []) ∨ ∃ name v w,
      fs.getLast? = some (name, v) ∧ gs.getLast? = some (name, w) ∧ v.IsCutOf w := by
  induction fs generalizing gs with
  | nil =>
      cases h
      exact Or.inl ⟨rfl, rfl⟩
  | cons f fs ih =>
      cases h with
      | cons name value later =>
          right
          rcases ih later with ⟨rfl, rfl⟩ | hlast
          · exact ⟨name, _, _, rfl, rfl, value⟩
          · cases later with
            | nil => simp at hlast
            | cons name' value' later' =>
                simpa only [List.getLast?_cons_cons] using hlast

theorem lastFirst_areCutOf (h : Value.AreCutOf fs gs) :
    Value.AreCutOf (lastFirst fs) (lastFirst gs) := by
  rcases getLast?_areCutOf h with ⟨rfl, rfl⟩ | ⟨name, v, w, hv, hw, hcut⟩
  · exact .nil
  · simp only [lastFirst, hv, hw]
    exact .cons name hcut (dropLast_areCutOf h)

/-- The same field is taken of both, if any. -/
theorem take?_cases (name : String) (h : Value.AreCutOf fs gs) :
    (take? name fs = none ∧ take? name gs = none) ∨ ∃ v w fs' gs',
      take? name fs = some (v, fs') ∧ take? name gs = some (w, gs') ∧
        v.IsCutOf w ∧ Value.AreCutOf fs' gs' := by
  induction fs generalizing gs with
  | nil =>
      cases h
      exact Or.inl ⟨rfl, rfl⟩
  | cons f fs ih =>
      cases h with
      | cons n value later =>
          by_cases hn : n = name
          · simp only [take?, if_pos hn]
            exact Or.inr ⟨_, _, _, _, rfl, rfl, value, lastFirst_areCutOf later⟩
          · simp only [take?, if_neg hn]
            rcases ih later with ⟨hfs, hgs⟩ | ⟨v, w, fs', gs', hfs, hgs, hcut, hrest⟩
            · exact Or.inl (by simp [hfs, hgs])
            · refine Or.inr ⟨v, w, _, _, ?_, ?_, hcut, .cons n value hrest⟩
              · rw [hfs, Option.map_some]
              · rw [hgs, Option.map_some]

theorem take?_eq_none_iff {name : String} (h : Value.AreCutOf fs gs) :
    take? name fs = none ↔ take? name gs = none := by
  rcases take?_cases name h with ⟨hfs, hgs⟩ | ⟨v, w, fs', gs', hfs, hgs, -⟩
  · simp [hfs, hgs]
  · simp [hfs, hgs]

theorem take?_areCutOf {name : String} {v w : Value} {fs' gs' : Fields}
    (h : Value.AreCutOf fs gs) (hv : take? name fs = some (v, fs'))
    (hw : take? name gs = some (w, gs')) : v.IsCutOf w ∧ Value.AreCutOf fs' gs' := by
  rcases take?_cases name h with ⟨hfs, -⟩ | ⟨v', w', fs'', gs'', hfs, hgs, hcut, hrest⟩
  · simp [hfs] at hv
  · obtain ⟨rfl, rfl⟩ : v' = v ∧ fs'' = fs' := by simpa [hfs] using hv
    obtain ⟨rfl, rfl⟩ : w' = w ∧ gs'' = gs' := by simpa [hgs] using hw
    exact ⟨hcut, hrest⟩

theorem takeString_areCutOf {name s s' : String} {fs' gs' : Fields}
    (h : Value.AreCutOf fs gs) (hs : takeString name fs = .ok (s, fs'))
    (hs' : takeString name gs = .ok (s', gs')) : s = s' ∧ Value.AreCutOf fs' gs' := by
  obtain ⟨v, hfs, hv⟩ := takeString_eq_ok hs
  obtain ⟨w, hgs, hw⟩ := takeString_eq_ok hs'
  obtain ⟨hcut, hrest⟩ := take?_areCutOf h hfs hgs
  refine ⟨?_, hrest⟩
  rcases hv with hv | ⟨i, hv⟩
  · have hw' := (hcut.unwrap_eq (by rw [hv]; rfl)).trans hv
    rcases hw with hw | ⟨j, hw⟩
    · simpa [hw, eq_comm] using hw'
    · simp [hw] at hw'
  · have hw' := (hcut.unwrap_eq (by rw [hv]; rfl)).trans hv
    rcases hw with hw | ⟨j, hw⟩
    · simp [hw] at hw'
    · exact (by simpa [hw] using hw' : j = i ∧ s' = s).2.symm

theorem takeStrings_areCutOf {name : String} {ss ss' : List String} {fs' gs' : Fields}
    (h : Value.AreCutOf fs gs) (hs : takeStrings name fs = .ok (ss, fs'))
    (hs' : takeStrings name gs = .ok (ss', gs')) :
    (ss = ss' ∨ ss = []) ∧ Value.AreCutOf fs' gs' := by
  rcases takeStrings_eq_ok hs with ⟨hfs, rfl, rfl⟩ | ⟨v, hfs, hv⟩
  · rcases takeStrings_eq_ok hs' with ⟨-, rfl, rfl⟩ | ⟨w, hgs, -⟩
    · exact ⟨Or.inl rfl, h⟩
    · simp [(take?_eq_none_iff h).mp hfs] at hgs
  · rcases takeStrings_eq_ok hs' with ⟨hgs, -⟩ | ⟨w, hgs, hw⟩
    · simp [(take?_eq_none_iff h).mpr hgs] at hfs
    · obtain ⟨hcut, hrest⟩ := take?_areCutOf h hfs hgs
      refine ⟨?_, hrest⟩
      rcases hv with ⟨-, hempty⟩ | ⟨items, hv, hitems⟩
      · exact Or.inr hempty
      · have hw' := hcut.unwrap_eq (by rw [hv]; rfl)
        rcases hw with ⟨hnull, -⟩ | ⟨items', hw, hitems'⟩
        · simp [hnull, hv] at hw'
        · obtain rfl : items' = items := by simpa [hw, hv] using hw'
          exact Or.inl (Except.ok.inj (hitems.symm.trans hitems'))

end Fields

namespace Row

/-- The image of a payload that was cut is missing, or it has the same columns with values that may
be cut. -/
def ImageIsCutOf (image? image'? : Option RowImage) : Prop :=
  ∀ image, image? = some image →
    ∃ image', image'? = some image' ∧ Value.AreCutOf image.fields image'.fields

theorem takeImage_isCutOf {name : String} {fs gs fs' gs' : Fields}
    {image? image'? : Option RowImage}
    (h : Value.AreCutOf fs gs) (hs : takeImage name fs = .ok (image?, fs'))
    (hs' : takeImage name gs = .ok (image'?, gs')) :
    ImageIsCutOf image? image'? ∧ Value.AreCutOf fs' gs' := by
  rcases takeImage_eq_ok hs with ⟨hfs, rfl, rfl⟩ | ⟨v, hfs, hv⟩
  · rcases takeImage_eq_ok hs' with ⟨-, rfl, rfl⟩ | ⟨w, hgs, -⟩
    · exact ⟨fun image himage => (nomatch himage), h⟩
    · simp [(Fields.take?_eq_none_iff h).mp hfs] at hgs
  · rcases takeImage_eq_ok hs' with ⟨hgs, -⟩ | ⟨w, hgs, hw⟩
    · simp [(Fields.take?_eq_none_iff h).mpr hgs] at hfs
    · obtain ⟨hcut, hrest⟩ := Fields.take?_areCutOf h hfs hgs
      refine ⟨fun image himage => ?_, hrest⟩
      rcases hv with ⟨-, hnone⟩ | ⟨fields, hv, hsome⟩
      · simp [hnone] at himage
      · obtain rfl : ⟨fields⟩ = image := by simpa [hsome] using himage
        obtain ⟨fields', hw', hfields⟩ := hcut.unwrap_record hv
        rcases hw with ⟨hnull, -⟩ | ⟨fields'', hw, hsome'⟩
        · simp [hnull] at hw'
        · obtain rfl : fields'' = fields' := by simpa [hw] using hw'
          exact ⟨⟨fields''⟩, hsome', hfields⟩

/-- The first row is the second as far as its payload tells it. -/
structure IsCutOf (row row' : Row) : Prop where
  table : row.table = row'.table
  opType : row.opType = row'.opType
  primaryKeys : row.primaryKeys = row'.primaryKeys ∨ row.primaryKeys = []
  before : ImageIsCutOf row.before row'.before
  after : ImageIsCutOf row.after row'.after

theorem ofValue_isCutOf {v w : Value} {row row' : Row} (h : v.IsCutOf w)
    (hrow : ofValue v = .ok row) (hrow' : ofValue w = .ok row') : row.IsCutOf row' := by
  obtain ⟨fs, fs₁, fs₂, fs₃, fs₄, fs₅, hfs, htable, hkeys, hop, hbefore, hafter⟩ :=
    ofValue_eq_ok hrow
  obtain ⟨gs, gs₁, gs₂, gs₃, gs₄, gs₅, hgs, htable', hkeys', hop', hbefore', hafter'⟩ :=
    ofValue_eq_ok hrow'
  obtain ⟨gs', hgs', hcut⟩ := h.unwrap_record (Fields.ofValue_eq_ok hfs)
  obtain rfl : gs = gs' := by simpa [Fields.ofValue_eq_ok hgs] using hgs'
  obtain ⟨htable, hcut⟩ := Fields.takeString_areCutOf hcut htable htable'
  obtain ⟨hkeys, hcut⟩ := Fields.takeStrings_areCutOf hcut hkeys hkeys'
  obtain ⟨hop, hcut⟩ := Fields.takeString_areCutOf hcut hop hop'
  obtain ⟨hbefore, hcut⟩ := takeImage_isCutOf hcut hbefore hbefore'
  obtain ⟨hafter, -⟩ := takeImage_isCutOf hcut hafter hafter'
  exact ⟨htable, hop, hkeys, hbefore, hafter⟩

/-- What a payload that was cut still decodes to is the row as far as the payload tells it, and all
of the row if nothing of it was cut off. -/
theorem decode_append {schema : Avro.Schema} {payload : List UInt8} {row : Row}
    (h : decode schema payload = .ok row) (t : List UInt8) :
    (∀ row', decode schema (payload ++ t) = .ok row' → row.IsCutOf row') ∧
      ((schema.decodeWhole? payload).isSome → decode schema (payload ++ t) = .ok row) := by
  obtain ⟨v, hv, hrow⟩ := decode_eq_ok_iff.mp h
  constructor
  · intro row' h'
    obtain ⟨w, hw, hrow'⟩ := decode_eq_ok_iff.mp h'
    exact ofValue_isCutOf (Avro.Schema.isCutOf_of_decode?_append hv hw) hrow hrow'
  · intro hwhole
    obtain ⟨w, hw⟩ := Option.isSome_iff_exists.mp hwhole
    have hshort := Avro.Schema.decode?_append_of_decodeWhole? hw []
    rw [List.append_nil, hv, Option.some.injEq] at hshort
    rw [← hshort] at hw
    exact decode_eq_ok_iff.mpr ⟨v, Avro.Schema.decode?_append_of_decodeWhole? hw t, hrow⟩

/-- Insertions into a table with one column. -/
def noteSchema : Avro.Schema :=
  .record ⟨"change", none⟩ [⟨"table", .string, none⟩, ⟨"op_type", .string, none⟩,
    ⟨"after", .union [.null, .record ⟨"row", none⟩ [⟨"note", .string, none⟩]], none⟩]

def noteRow (note : Value) : Row := ⟨"T", [], "I", none, some ⟨[("note", note)]⟩⟩

/-- A note that is cut after the first of its two letters is read as null. -/
theorem decode_append_half_note :
    decode noteSchema [2, 0x54, 2, 0x49, 2, 4, 0x61] = .ok (noteRow .null) ∧
      (noteRow .null).IsCutOf (noteRow (.string "ab")) := by
  have hhalf : decode noteSchema [2, 0x54, 2, 0x49, 2, 4, 0x61] = .ok (noteRow .null) := by rfl
  have hfull : decode noteSchema [2, 0x54, 2, 0x49, 2, 4, 0x61, 0x62] =
      .ok (noteRow (.string "ab")) := by rfl
  exact ⟨hhalf, (decode_append hhalf [0x62]).1 _ hfull⟩

/-- Whether a payload decodes to a row with an image after the change. -/
def hasAfter? (schema : Avro.Schema) (payload : List UInt8) : Option Bool :=
  (decode schema payload).toOption.map fun row => row.after.isSome

theorem hasAfter?_eq_some {schema : Avro.Schema} {payload : List UInt8} {b : Bool}
    (h : hasAfter? schema payload = some b) :
    ∃ row, decode schema payload = .ok row ∧ row.after.isSome = b := by
  obtain ⟨row, hrow, hafter⟩ := Option.map_eq_some_iff.mp h
  exact ⟨row, eq_ok_of_toOption hrow, hafter⟩

/-- An insertion that ends in front of its second image is an insertion without one. -/
theorem decode_append_differs :
    ¬ ∀ (fingerprint : Fingerprint) (document : String) (cached : CachedSchema)
      (payload t : List UInt8) (row row' : Row),
      CachedSchema.parse fingerprint document = .ok cached → t ≠ [] →
      decode cached.avro payload = .ok row → decode cached.avro (payload ++ t) = .ok row' →
      row = row' := by
  intro hsame
  have himages : (Avro.Schema.ofJson? noteTable).map (fun s =>
      (hasAfter? s [2, 0x54, 2, 0x49, 0],
        hasAfter? s ([2, 0x54, 2, 0x49, 0] ++ [2, 2, 2, 0x61, 0]))) =
        some (some false, some true) := by decide +kernel
  obtain ⟨avro, havro, himages⟩ := Option.map_eq_some_iff.mp himages
  obtain ⟨row, hrow, hbefore⟩ := hasAfter?_eq_some (Prod.mk.inj himages).1
  obtain ⟨row', hrow', hafter⟩ := hasAfter?_eq_some (Prod.mk.inj himages).2
  obtain ⟨columns, hcolumns⟩ : ∃ columns, Columns.ofJson noteTable = .ok columns := ⟨_, rfl⟩
  have hparse := parse_noteTable havro hcolumns
  have heq := hsame _ _ _ _ _ row row' hparse (by decide) hrow hrow'
  rw [heq, hafter] at hbefore
  exact nomatch hbefore

end Row

end ChangeCapture.Change
