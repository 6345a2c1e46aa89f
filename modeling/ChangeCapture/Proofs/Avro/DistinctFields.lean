import ChangeCapture.Proofs.Avro.Declarations
import ChangeCapture.Proofs.Avro.Records

/-!
# Fields of distinct names

A declaration is only read if no record in it has two fields of one name, so no record that is
decoded has.
-/

namespace ChangeCapture.Avro

namespace Schema

/-- Types that hold no other types. -/
def isLeaf : Schema → Bool
  | .array _ | .map _ | .union _ | .record _ _ => false
  | _ => true

/-- No record within a type has two fields of one name. -/
inductive HasDistinctFields : Schema → Prop
  | leaf {s : Schema} (h : s.isLeaf) : HasDistinctFields s
  | array {items : Schema} (h : HasDistinctFields items) : HasDistinctFields (.array items)
  | map {values : Schema} (h : HasDistinctFields values) : HasDistinctFields (.map values)
  | union {branches : List Schema} (h : ∀ s ∈ branches, HasDistinctFields s) :
      HasDistinctFields (.union branches)
  | record {name : Name} {fields : List (Field Schema)} (distinct : (fields.map Field.name).Nodup)
      (h : ∀ f ∈ fields, HasDistinctFields f.type) : HasDistinctFields (.record name fields)

namespace HasDistinctFields

theorem of_array {items : Schema} (h : HasDistinctFields (.array items)) :
    items.HasDistinctFields := by
  cases h with
  | leaf h => exact nomatch h
  | array h => exact h

theorem of_map {values : Schema} (h : HasDistinctFields (.map values)) :
    values.HasDistinctFields := by
  cases h with
  | leaf h => exact nomatch h
  | map h => exact h

theorem of_union {branches : List Schema} (h : HasDistinctFields (.union branches)) :
    ∀ s ∈ branches, s.HasDistinctFields := by
  cases h with
  | leaf h => exact nomatch h
  | union h => exact h

theorem of_record {name : Name} {fields : List (Field Schema)}
    (h : HasDistinctFields (.record name fields)) :
    (fields.map Field.name).Nodup ∧ ∀ f ∈ fields, f.type.HasDistinctFields := by
  cases h with
  | leaf h => exact nomatch h
  | record distinct h => exact ⟨distinct, h⟩

end HasDistinctFields

end Schema

namespace Definitions

/-- No record of a list of definitions has two fields of one name. -/
def HaveDistinctFields (defs : Definitions) : Prop := ∀ p ∈ defs, p.2.HasDistinctFields

theorem HaveDistinctFields.nil : HaveDistinctFields [] := by
  intro p hp
  exact nomatch hp

theorem HaveDistinctFields.cons {defs : Definitions} {name : Name} {s : Schema}
    (hs : s.HasDistinctFields) (h : HaveDistinctFields defs) :
    HaveDistinctFields ((name, s) :: defs) :=
  List.forall_mem_cons.mpr ⟨hs, h⟩

theorem HaveDistinctFields.lookup {defs : Definitions} (h : HaveDistinctFields defs) {name : Name}
    {s : Schema} (hs : defs.lookup name = some s) : s.HasDistinctFields := by
  obtain ⟨before, after, hdefs, -⟩ := List.lookup_eq_some_iff.mp hs
  exact h (name, s) (by rw [hdefs]; simp)

end Definitions

/-! ## Declarations -/

theorem Logical.apply_hasDistinctFields (attributes : Json) (mark : Logical) {s : Schema}
    (h : s.HasDistinctFields) : (mark.apply attributes s).HasDistinctFields := by
  unfold Logical.apply
  split
  all_goals first | exact h | exact .leaf rfl | (split <;> exact .leaf rfl)

namespace Declaration

/-- The types that are complete in a scope have fields of distinct names. -/
def IsSound (scope : Scope) : Prop := scope.complete.HaveDistinctFields

/-- A reader that reads only types whose records have fields of distinct names. -/
def ReadsDistinct (read : Reader) : Prop :=
  ∀ ⦃scope v s scope'⦄, IsSound scope → read scope v = some (s, scope') →
    s.HasDistinctFields ∧ IsSound scope'

variable {budget : Nat} {space : Option String} {scope scope' : Scope} {v : Json} {s : Schema}

theorem IsSound.finish (h : IsSound scope) (name : Name) (aliases : List Name)
    (hs : s.HasDistinctFields) : IsSound (scope.finish name aliases s) := by
  intro p hp
  rcases List.mem_append.mp hp with hp | hp
  · obtain ⟨other, -, rfl⟩ := List.mem_map.mp (List.mem_reverse.mp hp)
    exact hs
  · exact h p hp

theorem sameWord?_hasDistinctFields {word : String} (hscope : IsSound scope)
    (h : scope.sameWord? space word = some (s, scope')) :
    s.HasDistinctFields ∧ IsSound scope' := by
  unfold Scope.sameWord? at h
  dsimp only at h
  split at h
  · obtain ⟨rfl, rfl⟩ := Prod.mk.inj (Option.some.inj h)
    exact ⟨.leaf rfl, hscope⟩
  · obtain ⟨t, ht, heq⟩ := Option.map_eq_some_iff.mp h
    obtain ⟨rfl, rfl⟩ := Prod.mk.inj heq
    exact ⟨Definitions.HaveDistinctFields.lookup hscope ht, hscope⟩

theorem word?_hasDistinctFields {word : String} (hscope : IsSound scope)
    (h : word? space scope word = some (s, scope')) : s.HasDistinctFields ∧ IsSound scope' := by
  unfold word? at h
  split at h
  · next t ht =>
      obtain ⟨rfl, rfl⟩ := Prod.mk.inj (Option.some.inj h)
      refine ⟨.leaf ?_, hscope⟩
      unfold primitive? at ht
      repeat' split at ht
      all_goals first | (obtain rfl := Option.some.inj ht; rfl) | exact nomatch ht
  · next hword =>
      obtain ⟨t, ht, heq⟩ := Option.map_eq_some_iff.mp h
      obtain ⟨rfl, rfl⟩ := Prod.mk.inj heq
      have hread : word? space scope word = some (t, scope) := by
        unfold word?
        rw [hword, ht]
        rfl
      obtain ⟨name, rfl⟩ := word?_eq_ref hword hread
      exact ⟨.leaf rfl, hscope⟩

theorem branches?_hasDistinctFields {read : Reader} (hread : ReadsDistinct read)
    {branches : List Json} {ss : List Schema} (hscope : IsSound scope)
    (h : branches? read scope branches = some (ss, scope')) :
    (∀ t ∈ ss, t.HasDistinctFields) ∧ IsSound scope' := by
  induction branches generalizing scope ss with
  | nil =>
      obtain ⟨rfl, rfl⟩ := branches?_nil.mp h
      exact ⟨by simp, hscope⟩
  | cons b rest ih =>
      obtain ⟨t, mid, ts, hb, hrest, rfl⟩ := branches?_cons.mp h
      obtain ⟨ht, hmid⟩ := hread hscope hb
      obtain ⟨hts, hlast⟩ := ih hmid hrest
      exact ⟨List.forall_mem_cons.mpr ⟨ht, hts⟩, hlast⟩

theorem union?_hasDistinctFields {read : Reader} (hread : ReadsDistinct read)
    {branches : List Json} (hscope : IsSound scope)
    (h : union? read scope branches = some (s, scope')) :
    s.HasDistinctFields ∧ IsSound scope' := by
  obtain ⟨ss, hbranches, -, rfl⟩ := union?_eq_some_iff.mp h
  obtain ⟨hss, hscope'⟩ := branches?_hasDistinctFields hread hscope hbranches
  exact ⟨.union hss, hscope'⟩

theorem field?_hasDistinctFields {read : Reader} (hread : ReadsDistinct read) {f : Field Schema}
    (hscope : IsSound scope) (h : field? read budget scope v = some (f, scope')) :
    f.type.HasDistinctFields ∧ IsSound scope' := by
  obtain ⟨-, -, htype, -⟩ := field?_eq_some_iff.mp h
  exact hread hscope htype

theorem fields?_hasDistinctFields {read : Reader} (hread : ReadsDistinct read)
    {entries : List Json} {fields : List (Field Schema)} (hscope : IsSound scope)
    (h : fields? read budget scope entries = some (fields, scope')) :
    (∀ f ∈ fields, f.type.HasDistinctFields) ∧ IsSound scope' := by
  induction entries generalizing scope fields with
  | nil =>
      obtain ⟨rfl, rfl⟩ := fields?_nil.mp h
      exact ⟨by simp, hscope⟩
  | cons v rest ih =>
      obtain ⟨f, mid, fs, hf, hrest, rfl⟩ := fields?_cons.mp h
      obtain ⟨ht, hmid⟩ := field?_hasDistinctFields hread hscope hf
      obtain ⟨hfs, hlast⟩ := ih hmid hrest
      exact ⟨List.forall_mem_cons.mpr ⟨ht, hfs⟩, hlast⟩

theorem record?_hasDistinctFields {read : Option String → Reader}
    (hread : ∀ space, ReadsDistinct (read space)) (hscope : IsSound scope)
    (h : record? read budget space scope v = some (s, scope')) :
    s.HasDistinctFields ∧ IsSound scope' := by
  rcases record?_eq_some_iff.mp h with ⟨-, hsame⟩ |
    ⟨items, name, aliases, fields, mid, -, -, -, hfields, hdistinct, rfl, rfl⟩
  · exact sameWord?_hasDistinctFields hscope hsame
  · -- The record itself is not complete while its fields are read, so it need not be sound yet.
    have hstart : IsSound (scope.start name aliases) := hscope
    obtain ⟨htypes, hmid⟩ := fields?_hasDistinctFields (hread name.space) hstart hfields
    have hnames := (areDistinct_names (fields?_declares hfields) hdistinct).1
    have hs : Schema.HasDistinctFields (.record name fields) := .record hnames htypes
    exact ⟨hs, hmid.finish name aliases hs⟩

theorem enumeration?_hasDistinctFields (hscope : IsSound scope)
    (h : enumeration? space scope v = some (s, scope')) :
    s.HasDistinctFields ∧ IsSound scope' := by
  rcases enumeration?_eq_some_iff.mp h with ⟨-, hsame⟩ |
    ⟨items, name, aliases, symbols, default, -, -, -, -, -, -, -, rfl, rfl⟩
  · exact sameWord?_hasDistinctFields hscope hsame
  · exact ⟨.leaf rfl, hscope.finish name aliases (.leaf rfl)⟩

theorem fixed?_hasDistinctFields (hscope : IsSound scope)
    (h : fixed? space scope v = some (s, scope')) : s.HasDistinctFields ∧ IsSound scope' := by
  rcases fixed?_eq_some_iff.mp h with ⟨-, hsame⟩ |
    ⟨member, size, name, aliases, -, -, -, -, -, rfl, rfl⟩
  · exact sameWord?_hasDistinctFields hscope hsame
  · exact ⟨.leaf rfl, hscope.finish name aliases (.leaf rfl)⟩

theorem marked?_hasDistinctFields {read : Option String → Reader}
    (hread : ∀ space, ReadsDistinct (read space)) {mark : Logical} (hscope : IsSound scope)
    (h : marked? read space scope mark v = some (s, scope')) :
    s.HasDistinctFields ∧ IsSound scope' := by
  obtain ⟨t, ht, rfl⟩ := marked?_eq_some h
  have hsound : t.HasDistinctFields ∧ IsSound scope' := by
    rcases ht with ⟨-, hfixed⟩ | ⟨type, -, -, htype⟩
    · exact fixed?_hasDistinctFields hscope hfixed
    · exact hread space hscope htype
  exact ⟨Logical.apply_hasDistinctFields v mark hsound.1, hsound.2⟩

theorem plain?_hasDistinctFields {read : Option String → Reader}
    (hread : ∀ space, ReadsDistinct (read space)) (hscope : IsSound scope)
    (h : plain? read budget space scope v = some (s, scope')) :
    s.HasDistinctFields ∧ IsSound scope' := by
  have hplain := h
  unfold plain? at h
  split at h
  · exact record?_hasDistinctFields hread hscope h
  · exact enumeration?_hasDistinctFields hscope h
  · next htype =>
      obtain ⟨items, t, -, ht, rfl⟩ := (plain?_array htype).mp hplain
      obtain ⟨hitems, hscope'⟩ := hread space hscope ht
      exact ⟨.array hitems, hscope'⟩
  · next htype =>
      obtain ⟨values, t, -, ht, rfl⟩ := (plain?_map htype).mp hplain
      obtain ⟨hvalues, hscope'⟩ := hread space hscope ht
      exact ⟨.map hvalues, hscope'⟩
  · exact fixed?_hasDistinctFields hscope h
  · exact word?_hasDistinctFields hscope h
  · exact hread space hscope h
  · exact hread space hscope h
  · simp at h

theorem readsDistinct_read? (budget fuel : Nat) (space : Option String) :
    ReadsDistinct (read? budget fuel space) := by
  induction fuel generalizing space with
  | zero => exact fun _ _ _ _ _ h => nomatch h
  | succ fuel ih =>
      intro scope v s scope' hscope h
      cases v with
      | str word => exact word?_hasDistinctFields hscope h
      | arr branches => exact union?_hasDistinctFields (ih space) hscope h
      | obj members =>
          rcases read?_object h with ⟨-, hplain⟩ | ⟨mark, -, hmarked⟩
          · exact plain?_hasDistinctFields ih hscope hplain
          · exact marked?_hasDistinctFields ih hscope hmarked
      | _ => exact nomatch h

end Declaration

theorem Declaration.isSound_empty : IsSound .empty := Definitions.HaveDistinctFields.nil

theorem Schema.hasDistinctFields_of_ofJson? {v : Json} {s : Schema} (h : ofJson? v = some s) :
    s.HasDistinctFields := by
  obtain ⟨⟨t, scope⟩, hread, rfl⟩ := Option.map_eq_some_iff.mp h
  exact (Declaration.readsDistinct_read? _ _ _ Declaration.isSound_empty hread).1

/-! ## Definitions -/

namespace Schema

open Definitions

mutual

theorem define?_hasDistinctFields : ∀ (s : Schema) {known defs defs' : Definitions}
    {space : Option String}, s.HasDistinctFields → HaveDistinctFields defs →
    define? known space defs s = some defs' → HaveDistinctFields defs'
  | .array items, _, _, _, _, hs, hdefs, h => define?_hasDistinctFields items hs.of_array hdefs h
  | .map values, _, _, _, _, hs, hdefs, h => define?_hasDistinctFields values hs.of_map hdefs h
  | .union branches, _, _, _, _, hs, hdefs, h =>
      defineBranches?_hasDistinctFields branches hs.of_union hdefs h
  | .record _ fields, _, _, _, _, hs, hdefs, h => by
      obtain ⟨-, hfields⟩ := defineNamed?_eq_some h
      exact defineFields?_hasDistinctFields fields hs.of_record.2 (.cons hs hdefs) hfields
  | .enumeration _ _ _, _, _, _, _, hs, hdefs, h => by
      obtain ⟨-, hadded⟩ := defineNamed?_eq_some h
      exact Option.some.inj hadded ▸ .cons hs hdefs
  | .fixed _ _, _, _, _, _, hs, hdefs, h => by
      obtain ⟨-, hadded⟩ := defineNamed?_eq_some h
      exact Option.some.inj hadded ▸ .cons hs hdefs
  | .ref _, _, _, _, _, _, hdefs, h => by
      simp only [define?] at h
      split at h
      · exact Option.some.inj h ▸ hdefs
      · simp at h
  | .null, _, _, _, _, _, hdefs, h | .boolean, _, _, _, _, _, hdefs, h
  | .int, _, _, _, _, _, hdefs, h | .long, _, _, _, _, _, hdefs, h
  | .float, _, _, _, _, _, hdefs, h | .double, _, _, _, _, _, hdefs, h
  | .bytes, _, _, _, _, _, hdefs, h | .string, _, _, _, _, _, hdefs, h
  | .decimal _ _ _, _, _, _, _, _, hdefs, h | .bigDecimal, _, _, _, _, _, hdefs, h
  | .uuid, _, _, _, _, _, hdefs, h | .date, _, _, _, _, _, hdefs, h
  | .timeMillis, _, _, _, _, _, hdefs, h | .instant _, _, _, _, _, _, hdefs, h
  | .duration, _, _, _, _, _, hdefs, h => Option.some.inj h ▸ hdefs

theorem defineBranches?_hasDistinctFields : ∀ (branches : List Schema)
    {known defs defs' : Definitions} {space : Option String},
    (∀ s ∈ branches, s.HasDistinctFields) → HaveDistinctFields defs →
    defineBranches? known space defs branches = some defs' → HaveDistinctFields defs'
  | [], _, _, _, _, _, hdefs, h => Option.some.inj h ▸ hdefs
  | s :: rest, known, defs, _, space, hs, hdefs, h => by
      obtain ⟨hfirst, hrest⟩ := List.forall_mem_cons.mp hs
      simp only [defineBranches?] at h
      cases hmid : define? known space defs s with
      | none => simp [hmid] at h
      | some mid =>
          simp only [hmid] at h
          have hdefs' := define?_hasDistinctFields s hfirst hdefs hmid
          exact defineBranches?_hasDistinctFields rest hrest hdefs' h

theorem defineFields?_hasDistinctFields : ∀ (fields : List (Field Schema))
    {known defs defs' : Definitions} {space : Option String},
    (∀ f ∈ fields, f.type.HasDistinctFields) → HaveDistinctFields defs →
    defineFields? known space defs fields = some defs' → HaveDistinctFields defs'
  | [], _, _, _, _, _, hdefs, h => Option.some.inj h ▸ hdefs
  | f :: rest, known, defs, _, space, hs, hdefs, h => by
      obtain ⟨hfirst, hrest⟩ := List.forall_mem_cons.mp hs
      simp only [defineFields?] at h
      cases hmid : defineField? known space defs f with
      | none => simp [hmid] at h
      | some mid =>
          simp only [hmid] at h
          have hdefs' := defineField?_hasDistinctFields f hfirst hdefs hmid
          exact defineFields?_hasDistinctFields rest hrest hdefs' h

theorem defineField?_hasDistinctFields : ∀ (f : Field Schema)
    {known defs defs' : Definitions} {space : Option String},
    f.type.HasDistinctFields → HaveDistinctFields defs →
    defineField? known space defs f = some defs' → HaveDistinctFields defs'
  | ⟨_, type, _⟩, _, _, _, _, hs, hdefs, h => define?_hasDistinctFields type hs hdefs h

end

end Schema

/-! ## Values -/

namespace Value

/-- Values in which no record is looked for. -/
def isLeaf : Value → Bool
  | .union _ _ | .record _ => false
  | _ => true

/-- No record that is held by fields and unions alone has two fields of one name. -/
inductive HasDistinctFields : Value → Prop
  | leaf {v : Value} (h : v.isLeaf) : HasDistinctFields v
  | union {index : Nat} {v : Value} (h : HasDistinctFields v) : HasDistinctFields (.union index v)
  | record {fields : List (String × Value)} (distinct : (fields.map Prod.fst).Nodup)
      (h : ∀ p ∈ fields, HasDistinctFields p.2) : HasDistinctFields (.record fields)

theorem HasDistinctFields.unwrap {v : Value} (h : v.HasDistinctFields) :
    v.unwrap.HasDistinctFields := by
  induction h with
  | @leaf v h =>
      cases v with
      | union => exact nomatch h
      | _ => exact .leaf h
  | union _ ih => exact ih
  | record distinct h _ => exact .record distinct h

theorem HasDistinctFields.of_record {fields : List (String × Value)}
    (h : HasDistinctFields (.record fields)) :
    (fields.map Prod.fst).Nodup ∧ ∀ p ∈ fields, p.2.HasDistinctFields := by
  cases h with
  | leaf h => exact nomatch h
  | record distinct h => exact ⟨distinct, h⟩

theorem isLeaf_of_kind {v : Value} (hunion : v.kind ≠ .union) (hrecord : v.kind ≠ .record) :
    v.isLeaf := by
  cases v with
  | union => exact absurd rfl hunion
  | record => exact absurd rfl hrecord
  | _ => rfl

end Value

namespace Schema

open Reader

variable {defs : Definitions}

theorem read?_hasDistinctFields (hdefs : defs.HaveDistinctFields) {fuel : Nat}
    {space : Option String} {s : Schema} {bytes rest : List UInt8} {v : Value}
    (hs : s.HasDistinctFields) (h : read? defs fuel space s bytes = some (v, rest)) :
    v.HasDistinctFields := by
  induction fuel generalizing space s bytes rest v with
  | zero => exact nomatch h
  | succ fuel ih =>
      cases s with
      | union branches =>
          -- A union whose index is cut off holds null, whatever its branches are.
          rcases read?_union h with rfl | ⟨i, b, bytes', w, hb, hw, rfl⟩
          · exact .union (.leaf rfl)
          · exact .union (ih (hs.of_union b (List.mem_of_getElem? hb)) hw)
      | record name fields =>
          obtain ⟨vs, hvs, rfl⟩ := read?_record h
          obtain ⟨hdistinct, htypes⟩ := hs.of_record
          refine .record (by rwa [fields?_names hvs]) fun p hp => ?_
          obtain ⟨f, hf, -, bytes', rest', hread⟩ := fields?_of_mem hvs hp
          exact ih (htypes f hf) hread
      | ref name =>
          cases htarget : defs.lookup (name.within space) with
          | none => simp [read?, htarget] at h
          | some target =>
              have hread := read?_ref htarget h
              exact ih (hdefs.lookup htarget) hread
      | _ =>
          rcases kind_of_read? h with rfl | hkind | ⟨name, href⟩
          · exact .leaf rfl
          · exact .leaf (Value.isLeaf_of_kind (by simp [hkind, kind]) (by simp [hkind, kind]))
          · cases href

theorem hasDistinctFields_of_decode? {s : Schema} {bytes : List UInt8} {v : Value}
    (hs : s.HasDistinctFields) (h : s.decode? bytes = some v) : v.HasDistinctFields := by
  unfold decode? at h
  cases hdefs : s.definitions? with
  | none => simp [hdefs] at h
  | some defs =>
      simp only [hdefs] at h
      obtain ⟨⟨w, rest⟩, hread, rfl⟩ := Option.map_eq_some_iff.mp h
      have hdefs' := define?_hasDistinctFields s hs Definitions.HaveDistinctFields.nil hdefs
      exact read?_hasDistinctFields hdefs' hs hread

end Schema

end ChangeCapture.Avro
