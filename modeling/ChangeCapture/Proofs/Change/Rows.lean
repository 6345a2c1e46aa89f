import ChangeCapture.Change.Row

/-!
# Taking a row out of a record

What each step of reading a row takes, and that what it leaves was there before.
-/

namespace ChangeCapture

@[simp] theorem Avro.Value.unwrap_unwrap (v : Avro.Value) : v.unwrap.unwrap = v.unwrap := by
  fun_induction Avro.Value.unwrap v with
  | case1 i inner ih => exact ih
  | case2 v hunion => rw [Avro.Value.unwrap.eq_2 v hunion]

namespace Change

theorem bind_eq_ok {ε α β : Type} {x : Except ε α} {f : α → Except ε β} {y : β} :
    x >>= f = .ok y ↔ ∃ a, x = .ok a ∧ f a = .ok y := by
  cases x <;> simp [bind, Except.bind]

theorem eq_ok_of_toOption {ε α : Type} {x : Except ε α} {a : α} (h : x.toOption = some a) :
    x = .ok a := by
  cases x with
  | error e => simp [Except.toOption] at h
  | ok b => simpa [Except.toOption] using h

namespace Fields

theorem lastFirst_append_singleton (fields : Fields) (last : String × Avro.Value) :
    lastFirst (fields ++ [last]) = last :: fields := by
  simp [lastFirst]

theorem lastFirst_subset (fields : Fields) : lastFirst fields ⊆ fields := by
  rcases List.eq_nil_or_concat fields with rfl | ⟨init, last, rfl⟩
  · simp [lastFirst]
  · rw [List.concat_eq_append, lastFirst_append_singleton]
    simp

theorem take?_eq_some {name : String} {fields rest : Fields} {v : Avro.Value}
    (h : take? name fields = some (v, rest)) : (name, v) ∈ fields ∧ rest ⊆ fields := by
  induction fields generalizing rest with
  | nil => simp [take?] at h
  | cons f fields ih =>
      obtain ⟨n, w⟩ := f
      unfold take? at h
      split at h
      · next hn =>
          obtain ⟨rfl, rfl⟩ : w = v ∧ lastFirst fields = rest := by simpa using h
          refine ⟨by simp [hn], ?_⟩
          exact List.Subset.trans (lastFirst_subset fields) (List.subset_cons_self _ _)
      · obtain ⟨⟨w', rest'⟩, htake, heq⟩ := Option.map_eq_some_iff.mp h
        obtain ⟨rfl, rfl⟩ : w' = v ∧ (n, w) :: rest' = rest := by simpa using heq
        obtain ⟨hmem, hsub⟩ := ih htake
        exact ⟨List.mem_cons_of_mem _ hmem, List.cons_subset_cons _ hsub⟩

theorem takeString_eq_ok {name : String} {fields rest : Fields} {s : String}
    (h : takeString name fields = .ok (s, rest)) :
    ∃ v, take? name fields = some (v, rest) ∧
      (v.unwrap = .string s ∨ ∃ i, v.unwrap = .enumeration i s) := by
  unfold takeString at h
  cases htake : take? name fields with
  | none => simp [htake] at h
  | some p =>
      obtain ⟨v, rest'⟩ := p
      simp only [htake] at h
      split at h
      · next s' hs =>
          obtain ⟨rfl, rfl⟩ : s' = s ∧ rest' = rest := by simpa using h
          exact ⟨v, rfl, Or.inl hs⟩
      · next i s' hs =>
          obtain ⟨rfl, rfl⟩ : s' = s ∧ rest' = rest := by simpa using h
          exact ⟨v, rfl, Or.inr ⟨i, hs⟩⟩
      · simp at h

theorem takeString_subset {name : String} {fields rest : Fields} {s : String}
    (h : takeString name fields = .ok (s, rest)) : rest ⊆ fields := by
  obtain ⟨v, htake, -⟩ := takeString_eq_ok h
  exact (take?_eq_some htake).2

theorem takeStrings_eq_ok {name : String} {fields rest : Fields} {ss : List String}
    (h : takeStrings name fields = .ok (ss, rest)) :
    (take? name fields = none ∧ ss = [] ∧ rest = fields) ∨
      ∃ v, take? name fields = some (v, rest) ∧
        ((v.unwrap = .null ∧ ss = []) ∨
          ∃ items, v.unwrap = .array items ∧ strings name items = .ok ss) := by
  unfold takeStrings at h
  cases htake : take? name fields with
  | none =>
      obtain ⟨rfl, rfl⟩ : [] = ss ∧ fields = rest := by simpa [htake] using h
      exact Or.inl ⟨rfl, rfl, rfl⟩
  | some p =>
      obtain ⟨v, rest'⟩ := p
      simp only [htake] at h
      refine Or.inr ⟨v, ?_⟩
      split at h
      · next items hitems =>
          cases hss : strings name items with
          | error fault => simp [hss, Except.map] at h
          | ok ss' =>
              obtain ⟨rfl, rfl⟩ : ss' = ss ∧ rest' = rest := by
                simpa [hss, Except.map] using h
              exact ⟨rfl, Or.inr ⟨items, hitems, hss⟩⟩
      · next hnull =>
          obtain ⟨rfl, rfl⟩ : [] = ss ∧ rest' = rest := by simpa using h
          exact ⟨rfl, Or.inl ⟨hnull, rfl⟩⟩
      · simp at h

theorem takeStrings_subset {name : String} {fields rest : Fields} {ss : List String}
    (h : takeStrings name fields = .ok (ss, rest)) : rest ⊆ fields := by
  rcases takeStrings_eq_ok h with ⟨-, -, rfl⟩ | ⟨v, htake, -⟩
  · exact List.Subset.refl _
  · exact (take?_eq_some htake).2

theorem ofValue_eq_ok {what : String} {v : Avro.Value} {fields : Fields}
    (h : ofValue what v = .ok fields) : v.unwrap = .record fields := by
  unfold ofValue at h
  split at h
  · next fs hfs =>
      obtain rfl : fs = fields := by simpa using h
      exact hfs
  · simp at h

end Fields

namespace Row

theorem takeImage_eq_ok {name : String} {fields rest : Fields} {image? : Option RowImage}
    (h : takeImage name fields = .ok (image?, rest)) :
    (Fields.take? name fields = none ∧ image? = none ∧ rest = fields) ∨
      ∃ v, Fields.take? name fields = some (v, rest) ∧
        ((v.unwrap = .null ∧ image? = none) ∨
          ∃ fs, v.unwrap = .record fs ∧ image? = some ⟨fs⟩) := by
  unfold takeImage at h
  cases htake : Fields.take? name fields with
  | none =>
      obtain ⟨rfl, rfl⟩ : none = image? ∧ fields = rest := by simpa [htake] using h
      exact Or.inl ⟨rfl, rfl, rfl⟩
  | some p =>
      obtain ⟨v, rest'⟩ := p
      simp only [htake] at h
      refine Or.inr ⟨v, ?_⟩
      split at h
      · next hnull =>
          obtain ⟨rfl, rfl⟩ : none = image? ∧ rest' = rest := by simpa using h
          exact ⟨rfl, Or.inl ⟨hnull, rfl⟩⟩
      · next hnull =>
          cases hfs : Fields.ofValue name v.unwrap with
          | error fault => simp [hfs, Except.map] at h
          | ok fs =>
              obtain ⟨rfl, rfl⟩ : some ⟨fs⟩ = image? ∧ rest' = rest := by
                simpa [hfs, Except.map] using h
              exact ⟨rfl, Or.inr ⟨fs, by simpa using Fields.ofValue_eq_ok hfs, rfl⟩⟩

theorem takeImage_subset {name : String} {fields rest : Fields} {image? : Option RowImage}
    (h : takeImage name fields = .ok (image?, rest)) : rest ⊆ fields := by
  rcases takeImage_eq_ok h with ⟨-, -, rfl⟩ | ⟨v, htake, -⟩
  · exact List.Subset.refl _
  · exact (Fields.take?_eq_some htake).2

/-- An image is the record that a field of its name holds. -/
theorem takeImage_eq_some {name : String} {fields rest : Fields} {image : RowImage}
    (h : takeImage name fields = .ok (some image, rest)) :
    ∃ v, (name, v) ∈ fields ∧ v.unwrap = .record image.fields := by
  rcases takeImage_eq_ok h with ⟨-, hnone, -⟩ | ⟨v, htake, ⟨-, hnone⟩ | ⟨fs, hv, himage⟩⟩
  · simp at hnone
  · simp at hnone
  · obtain rfl := Option.some.inj himage
    exact ⟨v, (Fields.take?_eq_some htake).1, hv⟩

theorem ofValue_eq_ok {v : Avro.Value} {row : Row} (h : ofValue v = .ok row) :
    ∃ fields fields₁ fields₂ fields₃ fields₄ fields₅,
      Fields.ofValue "row payload" v = .ok fields ∧
      fields.takeString "table" = .ok (row.table, fields₁) ∧
      fields₁.takeStrings "primary_keys" = .ok (row.primaryKeys, fields₂) ∧
      fields₂.takeString "op_type" = .ok (row.opType, fields₃) ∧
      takeImage beforeField fields₃ = .ok (row.before, fields₄) ∧
      takeImage "after" fields₄ = .ok (row.after, fields₅) := by
  obtain ⟨fields, hfields, h⟩ := bind_eq_ok.mp h
  obtain ⟨⟨table, fields₁⟩, htable, h⟩ := bind_eq_ok.mp h
  obtain ⟨⟨primaryKeys, fields₂⟩, hkeys, h⟩ := bind_eq_ok.mp h
  obtain ⟨⟨opType, fields₃⟩, hop, h⟩ := bind_eq_ok.mp h
  obtain ⟨⟨before, fields₄⟩, hbefore, h⟩ := bind_eq_ok.mp h
  obtain ⟨⟨after, fields₅⟩, hafter, h⟩ := bind_eq_ok.mp h
  obtain rfl : Row.mk table primaryKeys opType before after = row := Except.ok.inj h
  exact ⟨fields, fields₁, fields₂, fields₃, fields₄, fields₅, hfields, htable, hkeys, hop, hbefore,
    hafter⟩

theorem images_of_ofValue {v : Avro.Value} {row : Row} (h : ofValue v = .ok row) :
    ∃ fields, v.unwrap = .record fields ∧
      (∀ image, row.before = some image →
        ∃ w, (beforeField, w) ∈ fields ∧ w.unwrap = .record image.fields) ∧
      ∀ image, row.after = some image →
        ∃ w, ("after", w) ∈ fields ∧ w.unwrap = .record image.fields := by
  obtain ⟨fields, fields₁, fields₂, fields₃, fields₄, fields₅, hfields, htable, hkeys, hop, hbefore,
    hafter⟩ := ofValue_eq_ok h
  have hsub₃ : fields₃ ⊆ fields :=
    List.Subset.trans (Fields.takeString_subset hop)
      (List.Subset.trans (Fields.takeStrings_subset hkeys) (Fields.takeString_subset htable))
  have hsub₄ : fields₄ ⊆ fields := List.Subset.trans (takeImage_subset hbefore) hsub₃
  refine ⟨fields, Fields.ofValue_eq_ok hfields, fun image himage => ?_, fun image himage => ?_⟩
  · rw [himage] at hbefore
    obtain ⟨w, hw, hrecord⟩ := takeImage_eq_some hbefore
    exact ⟨w, hsub₃ hw, hrecord⟩
  · rw [himage] at hafter
    obtain ⟨w, hw, hrecord⟩ := takeImage_eq_some hafter
    exact ⟨w, hsub₄ hw, hrecord⟩

theorem decode_eq_ok_iff {schema : Avro.Schema} {payload : List UInt8} {row : Row} :
    decode schema payload = .ok row ↔
      ∃ v, schema.decode? payload = some v ∧ ofValue v = .ok row := by
  unfold decode
  cases schema.decode? payload <;> simp

end Row

end Change

end ChangeCapture
