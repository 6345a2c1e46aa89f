import ChangeCapture.Change.Canonical
import ChangeCapture.Proofs.Change.Rows
import Mathlib.Data.List.Basic

/-!
# Images of a row

Each column of an image is asked on its own: it was not captured if the field that is named like its
flag holds true. Which of the two images a change is taken from is told by the code of its
operation.
-/

namespace ChangeCapture.Change

/-- A value that is true, within any unions. -/
inductive HoldsTrue : Avro.Value → Prop
  | boolean : HoldsTrue (.boolean true)
  | union {index : Nat} {v : Avro.Value} (h : HoldsTrue v) : HoldsTrue (.union index v)

theorem holdsTrue_iff {v : Avro.Value} : HoldsTrue v ↔ v.unwrap = .boolean true := by
  constructor
  · intro h
    induction h with
    | boolean => rfl
    | union _ ih => exact ih
  · intro h
    fun_induction Avro.Value.unwrap v with
    | case1 index inner ih => exact .union (ih h)
    | case2 v _ =>
        rw [h]
        exact .boolean

namespace RowImage

/-! ## Columns that were captured -/

/-- Whether the first field that is named like the flag of a column is true. -/
def Flags (image : RowImage) (column : String) : Prop :=
  ∃ front v back, image.fields = front ++ (column ++ "_isMissing", v) :: back ∧
    (∀ f ∈ front, column ++ "_isMissing" ≠ f.1) ∧ HoldsTrue v

theorem isMissing_iff {image : RowImage} {column : String} :
    image.isMissing column ↔ image.Flags column := by
  have hlookup : image.isMissing column ↔
      ∃ v, image.fields.lookup (column ++ missingSuffix) = some v ∧ HoldsTrue v := by
    unfold isMissing get?
    cases image.fields.lookup (column ++ missingSuffix) with
    | none => simp
    | some v =>
        simp only [Option.map_some, Option.some.injEq, exists_eq_left', holdsTrue_iff]
        split <;> simp_all
  rw [hlookup]
  constructor
  · rintro ⟨v, hv, htrue⟩
    obtain ⟨front, back, hfields, hfront⟩ := List.lookup_eq_some_iff.mp hv
    exact ⟨front, v, back, hfields, fun f hf => bne_iff_ne.mp (hfront f hf), htrue⟩
  · rintro ⟨front, v, back, hfields, hfront, htrue⟩
    have hother : ∀ f ∈ front, column ++ missingSuffix != f.1 := fun f hf =>
      bne_iff_ne.mpr (hfront f hf)
    exact ⟨v, List.lookup_eq_some_iff.mpr ⟨front, back, hfields, hother⟩, htrue⟩

instance (image : RowImage) (column : String) : Decidable (image.Flags column) :=
  decidable_of_iff _ isMissing_iff

theorem isMissing_eq (image : RowImage) (column : String) :
    image.isMissing column = decide (image.Flags column) := by
  rw [Bool.eq_iff_iff, decide_eq_true_iff, isMissing_iff]

theorem columns_names (image : RowImage) :
    image.columns.map Prod.fst =
      (image.fields.map Prod.fst).filter fun name => !isMissingFlag name := by
  rw [List.filter_map]
  rfl

/-- What is said of each field beforehand can be asked of it when its turn comes. -/
theorem presentColumns_eq_filter (image : RowImage) : image.presentColumns =
    image.fields.filter fun f => !isMissingFlag f.1 && !image.isMissing f.1 := by
  unfold presentColumns captured
  generalize (fun f : String × Avro.Value => !isMissingFlag f.1 && !image.isMissing f.1) = keep
  induction image.fields with
  | nil => rfl
  | cons f rest ih =>
      rw [List.map_cons, List.zip_cons_cons, List.filterMap_cons, List.filter_cons, ih]
      cases keep f <;> rfl

theorem presentColumns_names (image : RowImage) :
    image.presentColumns.map Prod.fst =
      ((image.fields.map Prod.fst).filter fun name => !isMissingFlag name).filter
        fun name => ¬ image.Flags name := by
  rw [presentColumns_eq_filter, List.filter_filter, List.filter_map]
  congr 2
  funext f
  rw [Function.comp_apply, decide_not, ← isMissing_eq, Bool.and_comm]

theorem presentColumns_sublist (image : RowImage) :
    image.presentColumns.Sublist image.columns := by
  rw [presentColumns_eq_filter]
  refine List.monotone_filter_right _ fun _ h => ?_
  rw [Bool.and_eq_true] at h
  exact h.1

end RowImage

/-! ## The image of an operation -/

theorem Operation.ofCode_cases (code : String) :
    code = "I" ∧ ofCode code = insert ∨ code = "U" ∧ ofCode code = update ∨
      code = "D" ∧ ofCode code = delete ∨
      code ∉ ["I", "U", "D"] ∧ ofCode code = other code := by
  unfold ofCode
  by_cases hinsert : code = "I"
  · exact Or.inl ⟨hinsert, if_pos hinsert⟩
  · by_cases hupdate : code = "U"
    · exact Or.inr (Or.inl ⟨hupdate, (if_neg hinsert).trans (if_pos hupdate)⟩)
    · by_cases hdelete : code = "D"
      · rw [if_neg hinsert, if_neg hupdate, if_pos hdelete]
        exact Or.inr (Or.inr (Or.inl ⟨hdelete, rfl⟩))
      · rw [if_neg hinsert, if_neg hupdate, if_neg hdelete]
        exact Or.inr (Or.inr (Or.inr ⟨by simp [hinsert, hupdate, hdelete], rfl⟩))

namespace Row

/-- The image that a change is taken from: the one after an insertion or an update, the one before a
deletion, and none for any other code. -/
def source (row : Row) : Option RowImage :=
  if row.opType = "I" ∨ row.opType = "U" then row.after
  else if row.opType = "D" then row.before
  else none

/-- The image whose columns an operation selects. -/
def selectedImage (row : Row) : Operation → Option RowImage
  | .insert | .update => row.after
  | .delete => row.before
  | .other _ => none

theorem source_eq (row : Row) : row.source = row.selectedImage (.ofCode row.opType) := by
  unfold source
  rcases Operation.ofCode_cases row.opType with
    ⟨hcode, hop⟩ | ⟨hcode, hop⟩ | ⟨hcode, hop⟩ | ⟨hcode, hop⟩
  · rw [hop, if_pos (Or.inl hcode), selectedImage]
  · rw [hop, if_pos (Or.inr hcode), selectedImage]
  · rw [hop, if_neg (by rw [hcode]; decide), if_pos hcode, selectedImage]
  · simp only [List.mem_cons, List.not_mem_nil, or_false, not_or] at hcode
    obtain ⟨hinsert, hupdate, hdelete⟩ := hcode
    rw [hop, if_neg (not_or.mpr ⟨hinsert, hupdate⟩), if_neg hdelete, selectedImage]

end Row

end ChangeCapture.Change
