import ChangeCapture.Avro.Schema

/-!
# Definitions of a schema

Definitions are only ever added, so that a name that was defined keeps its type. They are those of
the types that bring their names with them.
-/

namespace ChangeCapture.Avro

/-- Types that are defined where they are written. -/
def Schema.isDefinition : Schema → Bool
  | .record _ _ | .enumeration _ _ _ | .fixed _ _ => true
  | _ => false

namespace Definitions

/-- All that is defined stays as it is. -/
def Keeps (defs defs' : Definitions) : Prop :=
  ∀ ⦃name s⦄, defs.lookup name = some s → defs'.lookup name = some s

theorem Keeps.refl (defs : Definitions) : Keeps defs defs := fun _ _ h => h

theorem Keeps.trans {defs defs' defs'' : Definitions} (h : Keeps defs defs')
    (h' : Keeps defs' defs'') : Keeps defs defs'' := fun _ _ hname => h' (h hname)

theorem keeps_cons {defs : Definitions} {name : Name} (h : (defs.lookup name).isSome = false)
    (s : Schema) : Keeps defs ((name, s) :: defs) := by
  intro other t hother
  rw [List.lookup_cons]
  split
  · next heq =>
      obtain rfl : other = name := by simpa using heq
      simp [hother] at h
  · exact hother

/-- Definitions with others in front of them, each under a name that was free. -/
inductive Grows (defs : Definitions) : Definitions → Prop
  | refl : Grows defs defs
  | add {defs' : Definitions} {name : Name} {s : Schema} (h : Grows defs defs')
      (free : (defs'.lookup name).isSome = false) (hs : s.isDefinition) :
      Grows defs ((name, s) :: defs')

namespace Grows

theorem trans {defs defs' defs'' : Definitions} (h : Grows defs defs') (h' : Grows defs' defs'') :
    Grows defs defs'' := by
  induction h' with
  | refl => exact h
  | add _ free hs ih => exact ih.add free hs

theorem keeps {defs defs' : Definitions} (h : Grows defs defs') : Keeps defs defs' := by
  induction h with
  | refl => exact Keeps.refl defs
  | add _ free _ ih => exact ih.trans (keeps_cons free _)

theorem isDefinition {defs : Definitions} (h : Grows [] defs) {name : Name} {s : Schema}
    (hs : defs.lookup name = some s) : s.isDefinition := by
  induction h with
  | refl => exact nomatch hs
  | add _ _ hadded ih =>
      rw [List.lookup_cons] at hs
      split at hs
      · obtain rfl := Option.some.inj hs
        exact hadded
      · exact ih hs

end Grows

end Definitions

namespace Schema

open Definitions

variable {known : Definitions}

theorem defineNamed?_eq_some {defs defs' : Definitions} {name : Name} {added : Option Definitions}
    (h : (if (defs.lookup name).isSome then none else added) = some defs') :
    (defs.lookup name).isSome = false ∧ added = some defs' := by
  split at h
  · simp at h
  · next hnew => exact ⟨eq_false_of_ne_true hnew, h⟩

mutual

theorem define?_grows : ∀ (s : Schema) {space : Option String} {defs defs' : Definitions},
    define? known space defs s = some defs' → Grows defs defs'
  | .array items, _, _, _, h => define?_grows items h
  | .map values, _, _, _, h => define?_grows values h
  | .union branches, _, _, _, h => defineBranches?_grows branches h
  | .record name fields, _, _, _, h => by
      obtain ⟨hnew, hfields⟩ := defineNamed?_eq_some h
      exact (Grows.refl.add hnew rfl).trans (defineFields?_grows fields hfields)
  | .enumeration name symbols default, _, _, _, h => by
      obtain ⟨hnew, hadded⟩ := defineNamed?_eq_some h
      exact Option.some.inj hadded ▸ Grows.refl.add hnew rfl
  | .fixed name size, _, _, _, h => by
      obtain ⟨hnew, hadded⟩ := defineNamed?_eq_some h
      exact Option.some.inj hadded ▸ Grows.refl.add hnew rfl
  | .ref name, _, defs, _, h => by
      simp only [define?] at h
      split at h
      · exact Option.some.inj h ▸ Grows.refl
      · simp at h
  | .null, _, _, _, h | .boolean, _, _, _, h | .int, _, _, _, h | .long, _, _, _, h
  | .float, _, _, _, h | .double, _, _, _, h | .bytes, _, _, _, h | .string, _, _, _, h
  | .decimal _ _ _, _, _, _, h | .bigDecimal, _, _, _, h | .uuid, _, _, _, h
  | .date, _, _, _, h | .timeMillis, _, _, _, h | .instant _, _, _, _, h
  | .duration, _, _, _, h => Option.some.inj h ▸ Grows.refl

theorem defineBranches?_grows : ∀ (branches : List Schema) {space : Option String}
    {defs defs' : Definitions}, defineBranches? known space defs branches = some defs' →
    Grows defs defs'
  | [], _, _, _, h => Option.some.inj h ▸ Grows.refl
  | s :: rest, space, defs, _, h => by
      simp only [defineBranches?] at h
      cases hs : define? known space defs s with
      | none => simp [hs] at h
      | some mid =>
          simp only [hs] at h
          exact (define?_grows s hs).trans (defineBranches?_grows rest h)

theorem defineFields?_grows : ∀ (fields : List (Field Schema)) {space : Option String}
    {defs defs' : Definitions}, defineFields? known space defs fields = some defs' →
    Grows defs defs'
  | [], _, _, _, h => Option.some.inj h ▸ Grows.refl
  | f :: rest, space, defs, _, h => by
      simp only [defineFields?] at h
      cases hf : defineField? known space defs f with
      | none => simp [hf] at h
      | some mid =>
          simp only [hf] at h
          exact (defineField?_grows f hf).trans (defineFields?_grows rest h)

theorem defineField?_grows : ∀ (f : Field Schema) {space : Option String}
    {defs defs' : Definitions}, defineField? known space defs f = some defs' → Grows defs defs'
  | ⟨_, type, _⟩, _, _, _, h => define?_grows type h

end

theorem isDefinition_of_definitions? {s t : Schema} {defs : Definitions} {name : Name}
    (h : s.definitions? = some defs) (ht : defs.lookup name = some t) : t.isDefinition :=
  (define?_grows s h).isDefinition ht

theorem defineField?_eq (space : Option String) (defs : Definitions) (f : Field Schema) :
    defineField? known space defs f = define? known space defs f.type := by
  cases f
  rfl

theorem define?_of_mem {fields : List (Field Schema)} {space : Option String}
    {defs defs' : Definitions} (h : defineFields? known space defs fields = some defs')
    {f : Field Schema} (hf : f ∈ fields) :
    ∃ mid mid', define? known space mid f.type = some mid' ∧ Keeps mid' defs' := by
  induction fields generalizing defs with
  | nil => simp at hf
  | cons g rest ih =>
      simp only [defineFields?] at h
      cases hg : defineField? known space defs g with
      | none => simp [hg] at h
      | some mid =>
          simp only [hg] at h
          rcases List.mem_cons.mp hf with rfl | hrest
          · exact ⟨defs, mid, defineField?_eq space defs f ▸ hg, (defineFields?_grows rest h).keeps⟩
          · exact ih h hrest

theorem define?_record_eq_some {name : Name} {fields : List (Field Schema)}
    {space : Option String} {defs defs' : Definitions}
    (h : define? known space defs (.record name fields) = some defs') :
    defineFields? known (name.within space).space
      ((name.within space, .record name fields) :: defs) fields = some defs' :=
  (defineNamed?_eq_some h).2

theorem lookup_of_define?_record {name : Name} {fields : List (Field Schema)}
    {space : Option String} {defs defs' : Definitions}
    (h : define? known space defs (.record name fields) = some defs') :
    defs'.lookup (name.within space) = some (.record name fields) :=
  (defineFields?_grows fields (define?_record_eq_some h)).keeps (by simp)

/-- The type of what is there: of a union of null and another type the other one. -/
def nonNull : Schema → Schema
  | .union [.null, s] => s
  | .union [s, .null] => s
  | s => s

theorem eq_or_union_of_nonNull {s t : Schema} (h : s.nonNull = t) :
    s = t ∨ s = .union [.null, t] ∨ s = .union [t, .null] := by
  unfold nonNull at h
  split at h
  · exact Or.inr (Or.inl (by rw [h]))
  · exact Or.inr (Or.inr (by rw [h]))
  · exact Or.inl h

theorem kind_of_nonNull {s : Schema} {name : Name} {fields : List (Field Schema)}
    (h : s.nonNull = .record name fields) : s.kind ∈ [.record, .union] := by
  rcases eq_or_union_of_nonNull h with rfl | rfl | rfl <;> simp [kind]

theorem define?_nonNull (space : Option String) (defs : Definitions) (s : Schema) :
    define? known space defs s.nonNull = define? known space defs s := by
  generalize ht : s.nonNull = t
  rcases eq_or_union_of_nonNull ht with rfl | rfl | rfl
  · rfl
  · cases hdefine : define? known space defs t <;> simp [define?, defineBranches?, hdefine]
  · cases hdefine : define? known space defs t <;> simp [define?, defineBranches?, hdefine]

/-- A record that a field defines, alone or beside null, goes by its name in the whole schema. -/
theorem lookup_of_definitions? {top name : Name} {fields columns : List (Field Schema)}
    {defs : Definitions} (h : (record top fields).definitions? = some defs) {f : Field Schema}
    (hf : f ∈ fields) (hcolumns : f.type.nonNull = .record name columns) :
    defs.lookup (name.within (top.within none).space) = some (.record name columns) := by
  obtain ⟨mid, mid', hdefine, hkeeps⟩ := define?_of_mem (define?_record_eq_some h) hf
  rw [← define?_nonNull, hcolumns] at hdefine
  exact hkeeps (lookup_of_define?_record hdefine)

end Schema

end ChangeCapture.Avro
