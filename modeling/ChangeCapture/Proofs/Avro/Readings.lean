import ChangeCapture.Avro.Declaration

/-!
# How a declaration is read

What each part of a declaration has to be for it to be read, and what it is read as.
-/

namespace ChangeCapture.Avro.Declaration

variable {budget : Nat} {space : Option String} {scope scope' : Scope} {v : Json} {s : Schema}
  {read : Reader}

theorem branches?_nil {ss : List Schema} :
    branches? read scope [] = some (ss, scope') ↔ ss = [] ∧ scope' = scope := by
  rw [branches?]
  grind

theorem branches?_cons {rest : List Json} {ss : List Schema} :
    branches? read scope (v :: rest) = some (ss, scope') ↔
      ∃ t mid ts, read scope v = some (t, mid) ∧ branches? read mid rest = some (ts, scope') ∧
        ss = t :: ts := by
  rw [branches?]
  grind

theorem union?_eq_some_iff {branches : List Json} :
    union? read scope branches = some (s, scope') ↔
      ∃ ss, branches? read scope branches = some (ss, scope') ∧ isUnion ss ∧ s = .union ss := by
  unfold union?
  grind

theorem field?_eq_some_iff {f : Field Schema} :
    field? read budget scope v = some (f, scope') ↔
      v.text? "name" = some f.name ∧ isIdentifier f.name.toList ∧
        read scope v = some (f.type, scope') ∧ f.default = v.get? "default" ∧
        ∀ d, v.get? "default" = some d → f.type.suits scope'.complete budget d := by
  obtain ⟨name, type, default⟩ := f
  unfold field?
  simp only [Option.bind_eq_bind, Option.bind_eq_some_iff]
  cases v.text? "name" with
  | none => simp
  | some n =>
      cases read scope v with
      | none => simp
      | some p => cases v.get? "default" <;> simp <;> grind

theorem fields?_nil {fs : List (Field Schema)} :
    fields? read budget scope [] = some (fs, scope') ↔ fs = [] ∧ scope' = scope := by
  rw [fields?]
  grind

theorem fields?_cons {rest : List Json} {fs : List (Field Schema)} :
    fields? read budget scope (v :: rest) = some (fs, scope') ↔
      ∃ f mid gs, field? read budget scope v = some (f, mid) ∧
        fields? read budget mid rest = some (gs, scope') ∧ fs = f :: gs := by
  rw [fields?]
  grind

theorem record?_eq_some_iff {read : Option String → Reader} :
    record? read budget space scope v = some (s, scope') ↔
      (v.get? "fields" = none ∧ scope.sameWord? space "record" = some (s, scope')) ∨
      ∃ items name aliases fields mid, v.get? "fields" = some (.arr items) ∧
        name? space v = some name ∧ aliases? name v = some aliases ∧
        fields? (read name.space) budget (scope.start name aliases) (items.filter isObject) =
          some (fields, mid) ∧
        areDistinct [] (items.filter isObject) ∧ s = .record name fields ∧
        scope' = mid.finish name aliases s := by
  unfold record?
  simp only [Option.bind_eq_bind]
  cases v.get? "fields" with
  | none => simp
  | some members =>
      cases members with
      | arr items =>
          simp only [Json.asArr?, Option.bind_eq_some_iff]
          grind
      | _ => simp [Json.asArr?]

theorem enumeration?_eq_some_iff :
    enumeration? space scope v = some (s, scope') ↔
      (v.get? "symbols" = none ∧ scope.sameWord? space "enum" = some (s, scope')) ∨
      ∃ items name aliases symbols default, v.get? "symbols" = some (.arr items) ∧
        name? space v = some name ∧ aliases? name v = some aliases ∧
        items.mapM Json.asStr? = some symbols ∧ (symbols.all fun w => isIdentifier w.toList) ∧
        symbols.Nodup ∧ defaultSymbol? symbols v = some default ∧
        s = .enumeration name symbols default ∧ scope' = scope.finish name aliases s := by
  unfold enumeration?
  simp only [Option.bind_eq_bind]
  cases v.get? "symbols" with
  | none => simp
  | some members =>
      cases members with
      | arr items =>
          simp only [Json.asArr?, Option.bind_none, Option.bind_eq_some_iff,
            Option.ite_none_left_eq_some]
          grind
      | _ => simp [Json.asArr?]

theorem fixed?_eq_some_iff :
    fixed? space scope v = some (s, scope') ↔
      (v.get? "size" = none ∧ scope.sameWord? space "fixed" = some (s, scope')) ∨
      ∃ w size name aliases, v.get? "size" = some w ∧ w.asNat? = some size ∧
        fixedDefaultSuits size v ∧ name? space v = some name ∧ aliases? name v = some aliases ∧
        s = .fixed name size ∧ scope' = scope.finish name aliases s := by
  unfold fixed?
  simp only [Option.bind_eq_bind]
  cases v.get? "size" with
  | none => simp
  | some w =>
      simp only [Option.bind_none, Option.bind_eq_some_iff, Option.ite_none_left_eq_some]
      grind

theorem marked?_fixed {read : Option String → Reader} {mark : Logical}
    (h : v.get? "type" = some (.str "fixed")) :
    marked? read space scope mark v = some (s, scope') ↔
      ∃ t, fixed? space scope v = some (t, scope') ∧ s = mark.apply v t := by
  simp only [marked?, h, Option.bind_eq_bind, Option.bind_some]
  cases fixed? space scope v <;> grind

theorem marked?_type {read : Option String → Reader} {mark : Logical} {type : Json}
    (h : v.get? "type" = some type) (hfixed : type ≠ .str "fixed") :
    marked? read space scope mark v = some (s, scope') ↔
      ∃ t, read space scope type = some (t, scope') ∧ s = mark.apply v t := by
  simp only [marked?, h, Option.bind_eq_bind, Option.bind_some]
  cases read space scope type <;> grind

theorem marked?_eq_some {read : Option String → Reader} {mark : Logical}
    (h : marked? read space scope mark v = some (s, scope')) :
    ∃ t, ((v.get? "type" = some (.str "fixed") ∧ fixed? space scope v = some (t, scope')) ∨
      ∃ type, v.get? "type" = some type ∧ type ≠ .str "fixed" ∧
        read space scope type = some (t, scope')) ∧ s = mark.apply v t := by
  cases htype : v.get? "type" with
  | none => simp [marked?, htype] at h
  | some type =>
      by_cases hfixed : type = .str "fixed"
      · subst hfixed
        obtain ⟨t, ht, rfl⟩ := (marked?_fixed htype).mp h
        exact ⟨t, Or.inl ⟨rfl, ht⟩, rfl⟩
      · obtain ⟨t, ht, rfl⟩ := (marked?_type htype hfixed).mp h
        exact ⟨t, Or.inr ⟨type, rfl, hfixed, ht⟩, rfl⟩

theorem plain?_array {read : Option String → Reader} (h : v.get? "type" = some (.str "array")) :
    plain? read budget space scope v = some (s, scope') ↔
      ∃ items t, v.get? "items" = some items ∧ read space scope items = some (t, scope') ∧
        s = .array t := by
  simp only [plain?, h, Option.bind_eq_bind]
  cases v.get? "items" with
  | none => simp
  | some items =>
      simp only [Option.bind_some, Option.bind_eq_some_iff, Option.pure_def]
      grind

theorem plain?_map {read : Option String → Reader} (h : v.get? "type" = some (.str "map")) :
    plain? read budget space scope v = some (s, scope') ↔
      ∃ values t, v.get? "values" = some values ∧ read space scope values = some (t, scope') ∧
        s = .map t := by
  simp only [plain?, h, Option.bind_eq_bind]
  cases v.get? "values" with
  | none => simp
  | some values =>
      simp only [Option.bind_some, Option.bind_eq_some_iff, Option.pure_def]
      grind

/-- A type that stands where it is meant, and is not named by a word. -/
def IsNested : Json → Prop
  | .arr _ | .obj _ => True
  | _ => False

theorem plain?_nested {read : Option String → Reader} {type : Json}
    (h : v.get? "type" = some type) (hnested : IsNested type) :
    plain? read budget space scope v = read space scope type := by
  cases type with
  | arr | obj => simp only [plain?, h]
  | _ => exact hnested.elim

/-- The known mark of an object. -/
def mark? (v : Json) : Option Logical := (v.text? "logicalType").bind Logical.ofText?

theorem mark?_eq_none (h : v.get? "logicalType" = none) : mark? v = none := by
  rw [mark?, Json.text?, h]
  rfl

/-- An object without a mark, or with a mark that is a text. -/
def IsMarkedByText (v : Json) : Prop :=
  ∀ mark, v.get? "logicalType" = some mark → ∃ word, mark = .str word

theorem read?_obj_iff {fuel : Nat} {members : List (String × Json)} :
    read? budget (fuel + 1) space scope (.obj members) = some (s, scope') ↔
      IsMarkedByText (.obj members) ∧
        (match mark? (.obj members) with
        | some mark => marked? (read? budget fuel) space scope mark (.obj members)
        | none => plain? (read? budget fuel) budget space scope (.obj members)) =
          some (s, scope') := by
  cases hget : Json.get? "logicalType" (.obj members) with
  | none => simp [read?, IsMarkedByText, mark?, Json.text?, hget]
  | some mark =>
      cases mark with
      | str word =>
          have hmark : mark? (.obj members) = Logical.ofText? word := by
            rw [mark?, Json.text?, hget]
            rfl
          have htext : IsMarkedByText (.obj members) := by
            intro mark h
            exact ⟨word, Option.some.inj (h.symm.trans hget)⟩
          cases hword : Logical.ofText? word <;>
            simp only [read?, hget, hmark, hword, htext, true_and]
      | _ => simp [read?, IsMarkedByText, hget]

end ChangeCapture.Avro.Declaration
