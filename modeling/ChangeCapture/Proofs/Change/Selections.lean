import ChangeCapture.Proofs.Change.Accounting

/-!
# Selections by operation

A change is what remains of one image of the row when each field is asked on its own: whether it is
a flag, whether the table has the column, and, for an update, whether the column was captured.
-/

namespace ChangeCapture.Change

namespace RowImage

/-- What makes a field of an image part of the change. -/
structure Selects (image : RowImage) (opType : String) (columns : Columns) (name : String) :
    Prop where
  noFlag : ¬ "_isMissing".toList <:+ name.toList
  declared : name ∈ columns.names
  captured : opType = "U" → ¬ image.Flags name

instance (image : RowImage) (opType : String) (columns : Columns) (name : String) :
    Decidable (image.Selects opType columns name) :=
  decidable_of_iff (¬ "_isMissing".toList <:+ name.toList ∧ name ∈ columns.names ∧
      (opType = "U" → ¬ image.Flags name))
    ⟨fun h => ⟨h.1, h.2.1, h.2.2⟩, fun h => ⟨h.noFlag, h.declared, h.captured⟩⟩

theorem columns_filter {opType : String} (hop : opType ≠ "U") (image : RowImage)
    (columns : Columns) : (image.columns.filter fun f => f.1 ∈ columns.names) =
      image.fields.filter fun f => image.Selects opType columns f.1 := by
  rw [RowImage.columns, List.filter_filter]
  apply List.filter_congr
  intro f _
  rw [Bool.eq_iff_iff, Bool.and_eq_true, decide_eq_true_iff, decide_eq_true_iff, Bool.not_eq_true',
    ← Bool.not_eq_true, isMissingFlag_iff]
  exact ⟨fun h => ⟨h.2, h.1, fun h => absurd h hop⟩, fun h => ⟨h.declared, h.noFlag⟩⟩

theorem presentColumns_filter (image : RowImage) (columns : Columns) :
    (image.presentColumns.filter fun f => f.1 ∈ columns.names) =
      image.fields.filter fun f => image.Selects "U" columns f.1 := by
  rw [presentColumns_eq_filter, List.filter_filter]
  apply List.filter_congr
  intro f _
  rw [Bool.eq_iff_iff, Bool.and_eq_true, Bool.and_eq_true, decide_eq_true_iff, decide_eq_true_iff,
    Bool.not_eq_true', Bool.not_eq_true', ← Bool.not_eq_true, ← Bool.not_eq_true,
    isMissingFlag_iff, isMissing_iff]
  exact ⟨fun h => ⟨h.2.1, h.1, fun _ => h.2.2⟩, fun h => ⟨h.declared, h.noFlag, h.captured rfl⟩⟩

/-- The image without the fields that are named like the flag of a column. -/
def withoutFlag (a : String) (image : RowImage) : RowImage :=
  ⟨image.fields.filter fun f => f.1 ≠ a ++ "_isMissing"⟩

theorem selects_withoutFlag {image : RowImage} {opType a name : String} {columns : Columns}
    (h : name ≠ a) :
    (image.withoutFlag a).Selects opType columns name ↔ image.Selects opType columns name := by
  have hflag : name ++ missingSuffix ≠ a ++ "_isMissing" := fun heq =>
    h ((String.append_left_inj missingSuffix).mp heq)
  have hget : (image.withoutFlag a).get? (name ++ missingSuffix) =
      image.get? (name ++ missingSuffix) :=
    lookup_filter (p := fun n => decide (n ≠ a ++ "_isMissing")) (decide_eq_true hflag) image.fields
  have hflags : (image.withoutFlag a).Flags name ↔ image.Flags name := by
    rw [← isMissing_iff, ← isMissing_iff, isMissing, isMissing, hget]
  constructor
  · intro hs
    exact ⟨hs.noFlag, hs.declared, fun hop => mt hflags.mpr (hs.captured hop)⟩
  · intro hs
    exact ⟨hs.noFlag, hs.declared, fun hop => mt hflags.mp (hs.captured hop)⟩

theorem filter_withoutFlag (image : RowImage) (opType a : String) (columns : Columns) :
    (((image.withoutFlag a).fields.filter fun f =>
        (image.withoutFlag a).Selects opType columns f.1).filter fun f => f.1 ≠ a) =
      (image.fields.filter fun f => image.Selects opType columns f.1).filter fun f => f.1 ≠ a := by
  rw [withoutFlag, List.filter_filter, List.filter_filter, List.filter_filter]
  apply List.filter_congr
  intro f _
  simp only [← Bool.decide_and, decide_eq_decide]
  constructor
  · rintro ⟨⟨hname, hs⟩, -⟩
    exact ⟨hname, (selects_withoutFlag hname).mp hs⟩
  · rintro ⟨hname, hs⟩
    refine ⟨⟨hname, (selects_withoutFlag hname).mpr hs⟩, ?_⟩
    -- a field that is named like a flag is selected from no image
    intro hflag
    apply hs.noFlag
    rw [hflag, String.toList_append]
    exact List.suffix_append _ _

end RowImage

namespace Row

/-- The fields that belong to the change of a row. -/
def kept (row : Row) (columns : Columns) : Fields :=
  match row.source with
  | none => []
  | some image => image.fields.filter fun f => image.Selects row.opType columns f.1

theorem selected_filter (row : Row) (columns : Columns) :
    ((row.selected (.ofCode row.opType)).filter fun f => f.1 ∈ columns.names) =
      row.kept columns := by
  unfold kept source
  rcases Operation.ofCode_cases row.opType with
    ⟨hcode, hop⟩ | ⟨hcode, hop⟩ | ⟨hcode, hop⟩ | ⟨hcode, hop⟩
  · rw [hop, if_pos (Or.inl hcode), selected]
    cases row.after with
    | none => rfl
    | some image => exact image.columns_filter (by rw [hcode]; decide) columns
  · rw [hop, if_pos (Or.inr hcode), selected, hcode]
    cases row.after with
    | none => rfl
    | some image => exact image.presentColumns_filter columns
  · rw [hop, if_neg (by rw [hcode]; decide), if_pos hcode, selected]
    cases row.before with
    | none => rfl
    | some image => exact image.columns_filter (by rw [hcode]; decide) columns
  · simp only [List.mem_cons, List.not_mem_nil, or_false, not_or] at hcode
    obtain ⟨hinsert, hupdate, hdelete⟩ := hcode
    rw [hop, if_neg (not_or.mpr ⟨hinsert, hupdate⟩), if_neg hdelete]
    rfl

end Row

section TypedFields

variable (columns : Columns) (fields : Fields)

theorem typedFields_filter :
    typedFields columns (fields.filter fun f => f.1 ∈ columns.names) =
      typedFields columns fields := by
  unfold typedFields
  rw [List.filterMap_filter]
  apply List.filterMap_congr
  intro f _
  by_cases hname : f.1 ∈ columns.names
  · rw [if_pos (decide_eq_true hname)]
  · rw [Columns.find?_eq_none_iff.mpr hname, Option.map_none, ite_self]

/-- A condition on names can be asked before the types are looked up. -/
theorem filter_typedFields (p : String → Bool) :
    (typedFields columns fields).filter (fun f => p f.name) =
      typedFields columns (fields.filter fun f => p f.1) := by
  unfold typedFields
  rw [List.filter_filterMap, List.filterMap_filter]
  apply List.filterMap_congr
  intro f _
  cases columns.find? f.1 with
  | none => simp
  | some c =>
      rw [Option.map_some, Option.filter_some]

end TypedFields

theorem Operation.code_ofCode (code : String) : (Operation.ofCode code).code = code := by
  rcases ofCode_cases code with ⟨hcode, hop⟩ | ⟨hcode, hop⟩ | ⟨hcode, hop⟩ | ⟨-, hop⟩
  · rw [hop, hcode]
    rfl
  · rw [hop, hcode]
    rfl
  · rw [hop, hcode]
    rfl
  · rw [hop]
    rfl

section NormalizeRow

variable {row : Row} {columns : Columns} {strict : Bool}

theorem isKnown_iff : (Operation.ofCode row.opType).isKnown ↔ row.opType ∈ ["I", "U", "D"] := by
  rw [Operation.isKnown_ofCode, List.contains_iff_mem]

theorem normalizeRow_eq_error_iff {e : Error} : normalizeRow row columns strict = .error e ↔
    (strict ∧ row.opType ∉ ["I", "U", "D"]) ∧ e = .unrecognizedOperation row.opType := by
  have hrefused : (strict && !(Operation.ofCode row.opType).isKnown) = true ↔
      strict ∧ row.opType ∉ ["I", "U", "D"] := by
    rw [Bool.and_eq_true, Bool.not_eq_true', ← Bool.not_eq_true, isKnown_iff]
  rw [normalizeRow, Operation.code_ofCode, ← hrefused]
  split
  · next h => rw [and_iff_right h, Except.error.injEq, eq_comm]
  · next h => simp [h]

theorem normalizeRow_eq_ok_iff_kept {record : DmlRecord} :
    normalizeRow row columns strict = .ok record ↔
      (strict → row.opType ∈ ["I", "U", "D"]) ∧
        record = ⟨flattenTable row.table, columns.document, row.opType, row.primaryKeys,
          ⟨typedFields columns (row.kept columns)⟩⟩ := by
  rw [normalizeRow_eq_ok_iff, isKnown_iff, ← typedFields_filter, Row.selected_filter]

end NormalizeRow

namespace Row

/-- Rows that differ in the flags of one column at most. -/
structure SameButFlag (a : String) (row row' : Row) : Prop where
  opType : row.opType = row'.opType
  before : row.before.map (RowImage.withoutFlag a) = row'.before.map (RowImage.withoutFlag a)
  after : row.after.map (RowImage.withoutFlag a) = row'.after.map (RowImage.withoutFlag a)

theorem SameButFlag.source {a : String} {row row' : Row} (h : SameButFlag a row row') :
    row.source.map (RowImage.withoutFlag a) = row'.source.map (RowImage.withoutFlag a) := by
  unfold Row.source
  rw [h.opType]
  split
  · exact h.after
  · split
    · exact h.before
    · rfl

theorem SameButFlag.kept_filter {a : String} {row row' : Row} (h : SameButFlag a row row')
    (columns : Columns) : ((row.kept columns).filter fun f => f.1 ≠ a) =
      (row'.kept columns).filter fun f => f.1 ≠ a := by
  have hsource := h.source
  unfold kept
  cases himage : row.source with
  | none =>
      rw [himage, Option.map_none, eq_comm, Option.map_eq_none_iff] at hsource
      rw [hsource]
  | some image =>
      rw [himage, Option.map_some, eq_comm, Option.map_eq_some_iff] at hsource
      obtain ⟨image', himage', heq⟩ := hsource
      rw [himage']
      dsimp only
      rw [← image.filter_withoutFlag, ← image'.filter_withoutFlag, heq, h.opType]

theorem kept_update_sublist (row : Row) (columns : Columns) :
    (kept { row with opType := "U" } columns).Sublist
      (kept { row with opType := "I" } columns) := by
  have hsource : source { row with opType := "U" } = row.after := if_pos (Or.inr rfl)
  have hsource' : source { row with opType := "I" } = row.after := if_pos (Or.inl rfl)
  rw [kept, kept, hsource, hsource']
  cases row.after with
  | none => exact List.Sublist.refl _
  | some image =>
      refine List.monotone_filter_right _ fun f h => ?_
      have hs := of_decide_eq_true h
      have hinsert : "I" ≠ "U" := by decide
      exact decide_eq_true ⟨hs.noFlag, hs.declared, fun hop => absurd hop hinsert⟩

end Row

/-- A row gives a change exactly if its operation is known or need not be. Name by name, the change
holds what the operation selects from the image that it is taken from, in the order of the image. A
flag decides about its own column only, and an update changes no column that an insertion of the
same row would not. -/
theorem normalizeRow_selects (row : Row) (columns : Columns) (strict : Bool) :
    (∀ e, normalizeRow row columns strict = .error e ↔
      (strict ∧ row.opType ∉ ["I", "U", "D"]) ∧ e = .unrecognizedOperation row.opType) ∧
    (¬ (strict ∧ row.opType ∉ ["I", "U", "D"]) →
      ∃ record, normalizeRow row columns strict = .ok record ∧
        record.table.toList = row.table.toList.map (fun c => if c = '.' then '_' else c) ∧
        record.opType = row.opType ∧ record.primaryKeys = row.primaryKeys ∧
        record.schema = columns.document ∧
        record.change.fields.map (fun f => (f.name, f.value)) = row.kept columns ∧
        ∀ f ∈ record.change.fields, (columns.find? f.name).map Column.type = some f.type) ∧
    (∀ a row' record, row.SameButFlag a row' → normalizeRow row columns strict = .ok record →
      ∃ record', normalizeRow row' columns strict = .ok record' ∧
        (record.change.fields.filter fun f => f.name ≠ a) =
          record'.change.fields.filter fun f => f.name ≠ a) ∧
    ∃ update insertion, normalizeRow { row with opType := "U" } columns strict = .ok update ∧
      normalizeRow { row with opType := "I" } columns strict = .ok insertion ∧
      update.change.fields.Sublist insertion.change.fields := by
  refine ⟨fun e => normalizeRow_eq_error_iff, ?_, ?_, ?_⟩
  · intro h
    have hknown : strict → row.opType ∈ ["I", "U", "D"] := fun hstrict =>
      not_not.mp fun hunknown => h ⟨hstrict, hunknown⟩
    refine ⟨_, normalizeRow_eq_ok_iff_kept.mpr ⟨hknown, rfl⟩, ?_, rfl, rfl, rfl, ?_, ?_⟩
    · exact String.toList_ofList
    · dsimp only
      rw [← Row.selected_filter, typedFields_filter, map_typedFields]
    · exact fun f hf => (mem_typedFields.mp hf).2
  · intro a row' record hsame hrecord
    obtain ⟨hknown, rfl⟩ := normalizeRow_eq_ok_iff_kept.mp hrecord
    rw [hsame.opType] at hknown
    refine ⟨_, normalizeRow_eq_ok_iff_kept.mpr ⟨hknown, rfl⟩, ?_⟩
    dsimp only
    rw [filter_typedFields columns _ (fun name => name ≠ a), hsame.kept_filter,
      ← filter_typedFields columns _ (fun name => name ≠ a)]
  · have hupdate : "U" ∈ ["I", "U", "D"] := by decide
    have hinsert : "I" ∈ ["I", "U", "D"] := by decide
    refine ⟨_, _, normalizeRow_eq_ok_iff_kept.mpr ⟨fun _ => hupdate, rfl⟩,
      normalizeRow_eq_ok_iff_kept.mpr ⟨fun _ => hinsert, rfl⟩, ?_⟩
    exact (row.kept_update_sublist columns).filterMap _

def noteColumns : Columns := ⟨[⟨"id", .str "long", .null⟩, ⟨"note", .str "string", .null⟩]⟩

/-- An update of which the flag within a union says that `note` was not captured. -/
def lostNote : Row where
  table := "SALES.NOTES"
  primaryKeys := ["id"]
  opType := "U"
  before := none
  after := some ⟨[("id", .long 1), ("note", .string "old"),
    ("note_isMissing", .union 1 (.boolean true))]⟩

/-- The same without any flag. -/
def keptNote : Row :=
  { lostNote with after := some ⟨[("id", .long 1), ("note", .string "old")]⟩ }

/-- The flag keeps `note` out of the change, and nothing else is different without it. -/
theorem normalizeRow_selects_lostNote : ∃ record record',
    normalizeRow lostNote noteColumns true = .ok record ∧
      record.change.fields.map (fun f => (f.name, f.value)) = [("id", .long 1)] ∧
      normalizeRow keptNote noteColumns true = .ok record' ∧
      (record.change.fields.filter fun f => f.name ≠ "note") =
        record'.change.fields.filter fun f => f.name ≠ "note" := by
  obtain ⟨-, hselects, hflag, -⟩ := normalizeRow_selects lostNote noteColumns true
  obtain ⟨record, hrecord, -, -, -, -, hfields, -⟩ := hselects (by decide)
  obtain ⟨record', hrecord', hrest⟩ := hflag "note" keptNote record ⟨rfl, rfl, rfl⟩ hrecord
  exact ⟨record, record', hrecord, hfields, hrecord', hrest⟩

end ChangeCapture.Change
