import ChangeCapture.Proofs.Avro.DistinctFields
import ChangeCapture.Proofs.Keyed

/-!
# Values of a type

What is read with a type is a value of the type: the parts of an array, a map or a record are values
of the types that it has for them, and no map and no record has a key twice.
-/

namespace ChangeCapture.Avro

namespace Value

/-- Values that hold no other values. -/
def isScalar : Value → Bool
  | .union _ _ | .array _ | .map _ | .record _ => false
  | _ => true

/-- A value of a type that stands inside a namespace. Where data is cut off null stands for it,
whatever the type. -/
inductive IsOf (defs : Definitions) : Option String → Schema → Value → Prop
  | null {space : Option String} {s : Schema} : IsOf defs space s .null
  | scalar {space : Option String} {s : Schema} {v : Value} (hv : v.isScalar)
      (hkind : v.kind = s.kind) : IsOf defs space s v
  | union {space : Option String} {branches : List Schema} {i : Nat} {s : Schema} {v : Value}
      (hs : branches[i]? = some s) (h : IsOf defs space s v) :
      IsOf defs space (.union branches) (.union i v)
  | cut {space : Option String} {branches : List Schema} :
      IsOf defs space (.union branches) (.union 0 .null)
  | array {space : Option String} {s : Schema} {items : List Value}
      (h : ∀ v ∈ items, IsOf defs space s v) : IsOf defs space (.array s) (.array items)
  | map {space : Option String} {s : Schema} {entries : List (String × Value)}
      (distinct : (entries.map Prod.fst).Nodup) (h : ∀ e ∈ entries, IsOf defs space s e.2) :
      IsOf defs space (.map s) (.map entries)
  | record {space : Option String} {name : Name} {fields : List (Field Schema)}
      {values : List (String × Value)} (names : values.map Prod.fst = fields.map Field.name)
      (distinct : (fields.map Field.name).Nodup)
      (h : ∀ f ∈ fields, ∀ v, (f.name, v) ∈ values →
        IsOf defs (name.within space).space f.type v) :
      IsOf defs space (.record name fields) (.record values)
  | ref {space : Option String} {name : Name} {s : Schema} {v : Value}
      (hs : defs.lookup (name.within space) = some s)
      (h : IsOf defs (name.within space).space s v) : IsOf defs space (.ref name) v

namespace IsOf

variable {defs : Definitions} {space : Option String}

theorem of_union {branches : List Schema} {i : Nat} {v : Value}
    (h : IsOf defs space (.union branches) (.union i v)) {s : Schema}
    (hs : branches[i]? = some s) : IsOf defs space s v := by
  cases h with
  | scalar hv _ => exact nomatch hv
  | union hs' h =>
      obtain rfl := Option.some.inj (hs.symm.trans hs')
      exact h
  | cut => exact .null

theorem of_array {s : Schema} {items : List Value}
    (h : IsOf defs space (.array s) (.array items)) : ∀ v ∈ items, IsOf defs space s v := by
  cases h with
  | scalar hv _ => exact nomatch hv
  | array h => exact h

theorem of_map {s : Schema} {entries : List (String × Value)}
    (h : IsOf defs space (.map s) (.map entries)) :
    (entries.map Prod.fst).Nodup ∧ ∀ e ∈ entries, IsOf defs space s e.2 := by
  cases h with
  | scalar hv _ => exact nomatch hv
  | map distinct h => exact ⟨distinct, h⟩

theorem of_record {name : Name} {fields : List (Field Schema)} {values : List (String × Value)}
    (h : IsOf defs space (.record name fields) (.record values)) :
    (values.map Prod.fst).Nodup ∧ ∀ f ∈ fields, ∀ v, (f.name, v) ∈ values →
      IsOf defs (name.within space).space f.type v := by
  cases h with
  | scalar hv _ => exact nomatch hv
  | record names distinct h => exact ⟨names ▸ distinct, h⟩

theorem of_ref {name : Name} {v : Value} (h : IsOf defs space (.ref name) v) {s : Schema}
    (hs : defs.lookup (name.within space) = some s) :
    IsOf defs (name.within space).space s v := by
  cases h with
  | null => exact .null
  | scalar hv hkind => cases v <;> exact nomatch hkind
  | ref hs' h =>
      obtain rfl := Option.some.inj (hs.symm.trans hs')
      exact h

end IsOf

theorem isScalar_of_kind {v : Value} (h : v.kind ∉ [Kind.union, .array, .map, .record]) :
    v.isScalar := by
  cases v with
  | union | array | map | record => simp [kind] at h
  | _ => rfl

end Value

namespace Reader

variable {α : Type} {item : Reader α} {bytes rest : List UInt8} {xs : List α} {x : α}

theorem items?_of_mem {n : Nat} (h : items? item n bytes = some (xs, rest)) (hx : x ∈ xs) :
    ∃ bytes' rest', item bytes' = some (x, rest') := by
  induction n generalizing bytes xs with
  | zero =>
      obtain ⟨rfl, -⟩ : [] = xs ∧ bytes = rest := by simpa [items?] using h
      simp at hx
  | succ n ih =>
      rw [items?_succ] at h
      obtain ⟨y, mid, hy, hlater⟩ := andThen_eq_some.mp h
      obtain ⟨ys, mid', hys, hgiven⟩ := andThen_eq_some.mp hlater
      obtain ⟨hxs, rfl⟩ := given_eq_some.mp hgiven
      obtain rfl := Option.some.inj hxs
      rcases List.mem_cons.mp hx with rfl | hx
      · exact ⟨bytes, mid, hy⟩
      · exact ih hys hx

theorem blocks?_of_mem {fuel : Nat} (h : blocks? item fuel bytes = some (xs, rest))
    (hx : x ∈ xs) : ∃ bytes' rest', item bytes' = some (x, rest') := by
  induction fuel generalizing bytes xs with
  | zero => exact nomatch h
  | succ fuel ih =>
      rw [blocks?_succ] at h
      obtain ⟨n, mid, -, hblock⟩ := andThen_eq_some.mp h
      split at hblock
      · obtain ⟨hxs, -⟩ := given_eq_some.mp hblock
        obtain rfl := Option.some.inj hxs
        simp at hx
      · obtain ⟨ys, mid', hitems, hlater⟩ := andThen_eq_some.mp hblock
        obtain ⟨zs, rest', hblocks, hgiven⟩ := andThen_eq_some.mp hlater
        obtain ⟨hxs, rfl⟩ := given_eq_some.mp hgiven
        obtain rfl := Option.some.inj hxs
        rcases List.mem_append.mp hx with hx | hx
        · exact items?_of_mem hitems hx
        · exact ih hblocks hx

theorem sequence?_of_mem (h : sequence? item bytes = some (xs, rest)) (hx : x ∈ xs) :
    ∃ bytes' rest', item bytes' = some (x, rest') :=
  blocks?_of_mem h hx

theorem read_of_member? {read : Reader Value} {e : String × Value}
    (h : member? read bytes = some (e, rest)) :
    ∃ bytes' rest', read bytes' = some (e.2, rest') := by
  rw [member?_eq] at h
  obtain ⟨key, mid, -, hlater⟩ := andThen_eq_some.mp h
  obtain ⟨v, mid', hv, hgiven⟩ := andThen_eq_some.mp hlater
  obtain ⟨he, -⟩ := given_eq_some.mp hgiven
  obtain rfl := Option.some.inj he
  exact ⟨mid, mid', hv⟩

end Reader

namespace Schema

open Reader

variable {defs : Definitions}

/-- What is read with a type is a value of it. -/
theorem isOf_of_read? (hdefs : defs.HaveDistinctFields) {fuel : Nat} {space : Option String}
    {s : Schema} {bytes rest : List UInt8} {v : Value} (hs : s.HasDistinctFields)
    (h : read? defs fuel space s bytes = some (v, rest)) : v.IsOf defs space s := by
  induction fuel generalizing space s bytes rest v with
  | zero => exact nomatch h
  | succ fuel ih =>
      cases s with
      | union branches =>
          rcases read?_union h with rfl | ⟨i, b, bytes', w, hb, hw, rfl⟩
          · exact .cut
          · exact .union hb (ih (hs.of_union b (List.mem_of_getElem? hb)) hw)
      | array items =>
          obtain ⟨vs, hvs, rfl⟩ := as_eq_some.mp h
          refine .array fun w hw => ?_
          obtain ⟨bytes', rest', hread⟩ := sequence?_of_mem hvs hw
          exact ih hs.of_array hread
      | map values =>
          rw [read?] at h
          obtain ⟨es, hes, rfl⟩ := as_eq_some.mp h
          refine .map (Keyed.isSorted_ofList es).nodup fun e he => ?_
          obtain ⟨bytes', rest', hmember⟩ := sequence?_of_mem hes (Keyed.mem_ofList he)
          obtain ⟨bytes'', rest'', hread⟩ := read_of_member? hmember
          exact ih hs.of_map hread
      | record name fields =>
          obtain ⟨vs, hvs, rfl⟩ := read?_record h
          obtain ⟨hdistinct, htypes⟩ := hs.of_record
          refine .record (fields?_names hvs) hdistinct fun f hf w hw => ?_
          obtain ⟨g, hg, hname, bytes', rest', hread⟩ := fields?_of_mem hvs hw
          obtain rfl := List.inj_on_of_nodup_map hdistinct hg hf hname
          exact ih (htypes g hg) hread
      | ref name =>
          cases htarget : defs.lookup (name.within space) with
          | none => simp [read?, htarget] at h
          | some target => exact .ref htarget (ih (hdefs.lookup htarget) (read?_ref htarget h))
      | _ =>
          rcases kind_of_read? h with rfl | hkind | ⟨name, href⟩
          · exact .null
          · exact .scalar (Value.isScalar_of_kind (by simp [hkind, kind])) hkind
          · cases href

/-- The values of a schema that is read from a document are those of its type. -/
theorem isOf_of_decode? {s : Schema} (hs : s.HasDistinctFields) {defs : Definitions}
    (hdefs : s.definitions? = some defs) {bytes : List UInt8} {v : Value}
    (h : s.decode? bytes = some v) : v.IsOf defs none s := by
  simp only [decode?, hdefs] at h
  obtain ⟨⟨w, rest⟩, hread, rfl⟩ := Option.map_eq_some_iff.mp h
  exact isOf_of_read? (define?_hasDistinctFields s hs Definitions.HaveDistinctFields.nil hdefs) hs
    hread

end Schema

end ChangeCapture.Avro
