import ChangeCapture.Proofs.Avro.Definitions
import ChangeCapture.Proofs.Avro.Readings
import Mathlib.Data.List.Forall2
import Mathlib.Data.List.Nodup

/-!
# What a declaration says

A declaration of a record is read field by field: each entry of its list of fields gives one field,
under the name that is written there.
-/

namespace ChangeCapture

theorem exists_mem_of_forall₂ {α β : Type} {R : α → β → Prop} {xs : List α} {ys : List β}
    (h : List.Forall₂ R xs ys) {x : α} (hx : x ∈ xs) : ∃ y ∈ ys, R x y := by
  induction h with
  | nil => exact absurd hx List.not_mem_nil
  | @cons a b _ _ hab _ ih =>
      rcases List.mem_cons.mp hx with rfl | hx
      · exact ⟨b, List.mem_cons_self, hab⟩
      · obtain ⟨y, hy, hxy⟩ := ih hx
        exact ⟨y, List.mem_cons_of_mem _ hy, hxy⟩

namespace Json

theorem text?_eq_some {key s : String} {v : Json} (h : v.text? key = some s) :
    v.get? key = some (.str s) := by
  obtain ⟨w, hw, hs⟩ := Option.bind_eq_some_iff.mp h
  cases w with
  | str t =>
      obtain rfl : t = s := by simpa [asStr?] using hs
      exact hw
  | _ => simp [asStr?] at hs

theorem exists_members_of_get? {key : String} {v w : Json} (h : v.get? key = some w) :
    ∃ members, v = .obj members := by
  cases v with
  | obj members => exact ⟨members, rfl⟩
  | _ => simp [get?] at h

mutual

theorem height_le_size : ∀ v : Json, v.height ≤ v.size
  | .null | .bool _ | .int _ | .double _ | .str _ => Nat.le_refl 1
  | .arr items => Nat.succ_le_succ (heightItems_le_sizeItems items)
  | .obj members => Nat.succ_le_succ (heightMembers_le_sizeMembers members)

theorem heightItems_le_sizeItems : ∀ items : List Json, heightItems items ≤ sizeItems items
  | [] => Nat.le_refl 0
  | v :: rest => by
      have hv := height_le_size v
      have hrest := heightItems_le_sizeItems rest
      simp only [heightItems, sizeItems]
      omega

theorem heightMembers_le_sizeMembers : ∀ members : List (String × Json),
    heightMembers members ≤ sizeMembers members
  | [] => Nat.le_refl 0
  | (_, v) :: rest => by
      have hv := height_le_size v
      have hrest := heightMembers_le_sizeMembers rest
      simp only [heightMembers, sizeMembers]
      omega

end

/-- The steps of a check of a default are at least as many as types can nest. -/
theorem height_le_budget (v : Json) : v.height ≤ 4 * ((v.size + 1) * (v.size + 1)) := by
  have hsize := height_le_size v
  have hsquare : v.size + 1 ≤ (v.size + 1) * (v.size + 1) := Nat.le_mul_self _
  omega

end Json

namespace Avro

theorem Logical.eq_decimal_iff {word : String} {mark : Logical} (h : ofText? word = some mark) :
    mark = .decimal ↔ word = "decimal" := by
  by_cases hword : word = "decimal"
  · rw [ofText?, if_pos hword] at h
    exact ⟨fun _ => hword, fun _ => (Option.some.inj h).symm⟩
  · rw [ofText?, if_neg hword] at h
    refine ⟨?_, fun hdecimal => absurd hdecimal hword⟩
    rintro rfl
    -- All words that are tried after it are other marks.
    have hother : ∀ {c : Prop} [Decidable c] {m : Logical} {rest : Option Logical},
        m ≠ .decimal → rest ≠ some .decimal → (if c then some m else rest) ≠ some .decimal := by
      intro c _ m rest hm hrest
      split
      · exact fun hsome => hm (Option.some.inj hsome)
      · exact hrest
    refine absurd h ?_
    repeat refine hother nofun ?_
    exact nofun

theorem Logical.apply_ref (attributes : Json) (mark : Logical) (name : Name) :
    mark.apply attributes (.ref name) = .ref name := by
  cases mark <;> rfl

/-- A mark turns nothing into a record or a union. -/
theorem Logical.apply_eq_self_or (attributes : Json) (mark : Logical) (s : Schema) :
    mark.apply attributes s = s ∨ (mark.apply attributes s).kind ∉ [.record, .union] := by
  unfold Logical.apply
  split <;> (try split) <;> simp [Schema.kind]

namespace Declaration

variable {budget fuel : Nat} {space : Option String} {scope scope' : Scope} {v : Json} {s : Schema}

/-- An entry of a list of fields, and the field that is read from it. -/
def Declares (read : Reader) (entry : Json) (f : Field Schema) : Prop :=
  entry.text? "name" = some f.name ∧ ∃ scope scope', read scope entry = some (f.type, scope')

theorem field?_declares {read : Reader} {f : Field Schema}
    (h : field? read budget scope v = some (f, scope')) : Declares read v f := by
  obtain ⟨hname, -, htype, -⟩ := field?_eq_some_iff.mp h
  exact ⟨hname, scope, scope', htype⟩

theorem fields?_eq_some {read : Reader} {entries : List Json} {fields : List (Field Schema)}
    (h : fields? read budget scope entries = some (fields, scope')) :
    List.Forall₂ (fun entry f => ∃ scope scope', field? read budget scope entry = some (f, scope'))
      entries fields := by
  induction entries generalizing scope fields with
  | nil =>
      obtain ⟨rfl, -⟩ := fields?_nil.mp h
      exact .nil
  | cons v rest ih =>
      obtain ⟨f, mid, fs, hf, hrest, rfl⟩ := fields?_cons.mp h
      exact .cons ⟨scope, mid, hf⟩ (ih hrest)

theorem fields?_declares {read : Reader} {entries : List Json} {fields : List (Field Schema)}
    (h : fields? read budget scope entries = some (fields, scope')) :
    List.Forall₂ (Declares read) entries fields :=
  (fields?_eq_some h).imp fun _ _ ⟨_, _, hf⟩ => field?_declares hf

theorem names_of_declares {read : Reader} {entries : List Json} {fields : List (Field Schema)}
    (h : List.Forall₂ (Declares read) entries fields) :
    entries.map (Json.text? "name") = (fields.map Field.name).map some := by
  induction h with
  | nil => rfl
  | cons hentry _ ih => rw [List.map_cons, hentry.1, ih, List.map_cons, List.map_cons]

theorem areDistinct_names {read : Reader} {entries : List Json} {fields : List (Field Schema)}
    (hdeclares : List.Forall₂ (Declares read) entries fields) {taken : List String}
    (h : areDistinct taken entries) :
    (fields.map Field.name).Nodup ∧ ∀ f ∈ fields, f.name ∉ taken := by
  induction hdeclares generalizing taken with
  | nil => simp
  | @cons v f rest fs hv hrest ih =>
      have hdistinct : f.name ∉ taken ∧
          areDistinct (f.name :: fieldAliases v ++ taken) rest := by
        simpa [areDistinct, hv.1] using h
      obtain ⟨hnodup, hlater⟩ := ih hdistinct.2
      constructor
      · rw [List.map_cons, List.nodup_cons]
        refine ⟨fun hmem => ?_, hnodup⟩
        obtain ⟨g, hg, hname⟩ := List.mem_map.mp hmem
        exact hlater g hg (by simp [hname])
      · intro g hg
        rcases List.mem_cons.mp hg with rfl | hg
        · exact hdistinct.1
        · exact fun htaken => hlater g hg (by simp [htaken])

/-- A record and the list of fields that declares it. -/
structure IsRecordOf (budget fuel : Nat) (items : List Json) (name : Name)
    (fields : List (Field Schema)) : Prop where
  reads : List.Forall₂ (fun entry f => ∃ scope scope',
    field? (read? budget fuel name.space) budget scope entry = some (f, scope'))
    (items.filter isObject) fields
  apart : areDistinct [] (items.filter isObject)

namespace IsRecordOf

variable {items : List Json} {name : Name} {fields : List (Field Schema)}

theorem declares (h : IsRecordOf budget fuel items name fields) :
    List.Forall₂ (Declares (read? budget fuel name.space)) (items.filter isObject) fields :=
  h.reads.imp fun _ _ ⟨_, _, hf⟩ => field?_declares hf

theorem distinct (h : IsRecordOf budget fuel items name fields) :
    (fields.map Field.name).Nodup :=
  (areDistinct_names h.declares h.apart).1

/-- A record has one field of a name. -/
theorem eq_of_name (h : IsRecordOf budget fuel items name fields) {f g : Field Schema}
    (hf : f ∈ fields) (hg : g ∈ fields) (hname : f.name = g.name) : f = g :=
  List.inj_on_of_nodup_map h.distinct hf hg hname

end IsRecordOf

theorem record?_isRecordOf {items : List Json} (hitems : v.get? "fields" = some (.arr items))
    (h : record? (read? budget fuel) budget space scope v = some (s, scope')) :
    ∃ name fields, s = .record name fields ∧ IsRecordOf budget fuel items name fields := by
  rcases record?_eq_some_iff.mp h with ⟨hnone, -⟩ |
    ⟨items', name, aliases, fields, mid, hitems', -, -, hfields, hdistinct, rfl, -⟩
  · exact absurd hnone (by rw [hitems]; exact nofun)
  · obtain rfl := Json.arr.inj (Option.some.inj (hitems.symm.trans hitems'))
    exact ⟨name, fields, rfl, fields?_eq_some hfields, hdistinct⟩

theorem word?_eq_ref {word : String} (hword : primitive? word = none)
    (h : word? space scope word = some (s, scope')) : ∃ name, s = .ref name := by
  unfold word? Scope.reference? at h
  simp only [hword] at h
  obtain ⟨t, ht, heq⟩ := Option.map_eq_some_iff.mp h
  obtain ⟨rfl, -⟩ := Prod.mk.inj heq
  split at ht
  · simp at ht
  · next name hname =>
      split at ht
      · exact ⟨name, (Option.some.inj ht).symm⟩
      · obtain ⟨target, -, rfl⟩ := Option.map_eq_some_iff.mp ht
        exact ⟨target, rfl⟩

theorem read?_word {word : String}
    (h : read? budget fuel space scope (.str word) = some (s, scope')) :
    word? space scope word = some (s, scope') := by
  cases fuel with
  | zero => exact nomatch h
  | succ fuel => exact h

/-- Only the mark of a decimal is written so, and it is never passed over. -/
theorem read?_object {members : List (String × Json)}
    (h : read? budget fuel space scope (.obj members) = some (s, scope')) :
    (Json.text? "logicalType" (.obj members) ≠ some "decimal" ∧
      plain? (read? budget (fuel - 1)) budget space scope (.obj members) = some (s, scope')) ∨
    ∃ mark, (mark = .decimal ↔ Json.text? "logicalType" (.obj members) = some "decimal") ∧
      marked? (read? budget (fuel - 1)) space scope mark (.obj members) = some (s, scope') := by
  cases fuel with
  | zero => simp [read?] at h
  | succ fuel =>
      obtain ⟨-, h⟩ := read?_obj_iff.mp h
      split at h
      · next mark hmark =>
          obtain ⟨word, hword, hmark⟩ := Option.bind_eq_some_iff.mp hmark
          rw [hword, Option.some.injEq]
          exact Or.inr ⟨mark, Logical.eq_decimal_iff hmark, h⟩
      · next hmark =>
          refine Or.inl ⟨fun hdecimal => ?_, h⟩
          rw [mark?, hdecimal] at hmark
          exact absurd hmark (by decide)

/-- A record is read from its members, or it has a mark and is taken for a reference. -/
theorem read?_record {members : List (String × Json)} {items : List Json}
    (htype : Json.get? "type" (.obj members) = some (.str "record"))
    (hitems : Json.get? "fields" (.obj members) = some (.arr items))
    (h : read? budget fuel space scope (.obj members) = some (s, scope')) :
    (∃ name fields, s = .record name fields ∧ IsRecordOf budget (fuel - 1) items name fields) ∨
      ∃ name, s = .ref name := by
  rcases read?_object h with ⟨-, hplain⟩ | ⟨mark, -, hmarked⟩
  · simp only [plain?, htype] at hplain
    exact Or.inl (record?_isRecordOf hitems hplain)
  · obtain ⟨t, hword, rfl⟩ := (marked?_type htype (by simp)).mp hmarked
    obtain ⟨name, rfl⟩ := word?_eq_ref (by decide) (read?_word hword)
    exact Or.inr ⟨name, Logical.apply_ref _ mark name⟩

/-- A record or a union that a member declares is read from it. -/
theorem read?_inner {members : List (String × Json)} {type : Json}
    (htype : Json.get? "type" (.obj members) = some type) (hinner : ∀ word, type ≠ .str word)
    (hs : s.kind ∈ [.record, .union])
    (h : read? budget fuel space scope (.obj members) = some (s, scope')) :
    ∃ mid, read? budget (fuel - 1) space scope type = some (s, mid) := by
  rcases read?_object h with ⟨-, hplain⟩ | ⟨mark, -, hmarked⟩
  · refine ⟨scope', ?_⟩
    cases type with
    | str word => exact (hinner word rfl).elim
    | obj | arr => simpa only [plain?, htype] using hplain
    | _ => simp [plain?, htype] at hplain
  · obtain ⟨t, hread, rfl⟩ := (marked?_type htype (hinner "fixed")).mp hmarked
    rcases Logical.apply_eq_self_or (.obj members) mark t with hself | hother
    · rw [hself]
      exact ⟨scope', hread⟩
    · exact absurd hs hother

theorem branches?_eq_some {read : Reader} {branches : List Json} {ss : List Schema}
    (h : branches? read scope branches = some (ss, scope')) :
    List.Forall₂ (fun b t => ∃ scope scope', read scope b = some (t, scope')) branches ss := by
  induction branches generalizing scope ss with
  | nil =>
      obtain ⟨rfl, -⟩ := branches?_nil.mp h
      exact .nil
  | cons b rest ih =>
      obtain ⟨t, mid, ts, hb, hrest, rfl⟩ := branches?_cons.mp h
      exact .cons ⟨scope, mid, hb⟩ (ih hrest)

theorem read?_union {branches : List Json}
    (h : read? budget fuel space scope (.arr branches) = some (s, scope')) :
    ∃ ss, s = .union ss ∧ isUnion ss ∧
      List.Forall₂ (fun b t => ∃ scope scope',
        read? budget (fuel - 1) space scope b = some (t, scope')) branches ss := by
  cases fuel with
  | zero => exact nomatch h
  | succ fuel =>
      obtain ⟨ss, hbranches, hunion, rfl⟩ := union?_eq_some_iff.mp h
      exact ⟨ss, rfl, hunion, branches?_eq_some hbranches⟩

end Declaration

end Avro

end ChangeCapture
