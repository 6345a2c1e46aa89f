import ChangeCapture.Avro.Rendering
import ChangeCapture.Proofs.Avro.Declarations
import ChangeCapture.Proofs.Avro.Records

/-!
# Scales of decimals

The scale of a decimal is declared by the type that it is read with. To show it, the scale is looked
for once more in the JSON form of the type; it is the same one if every mark that is met there takes
effect.
-/

namespace ChangeCapture.Avro

/-! ## The scale that a value is read with -/

namespace Schema

/-- The scale of a type that is a decimal itself. -/
def ownScale : Schema → Nat
  | .decimal _ _ scale => scale
  | _ => 0

/-- The scale of a decimal, or the greatest among the branches of a union. -/
def topScale : Schema → Nat
  | .union branches => (branches.map ownScale).foldr max 0
  | s => s.ownScale

/-- The scale of the decimal type that a value was read with, in the branches that its unions
tell. -/
def scaleOf? : Schema → Value → Option Nat
  | .decimal _ _ scale, .decimal _ => some scale
  | .union branches, .union i v =>
      match branches[i]? with
      | some s => scaleOf? s v
      | none => none
  | _, _ => none

/-- A type that, if it is a union, holds no union and no unnamed kind twice. -/
def IsFlat (s : Schema) : Prop := ∀ branches, s = .union branches → Declaration.isUnion branches

theorem ownScale_of_kind {s : Schema} (h : s.kind ≠ .decimal) : s.ownScale = 0 := by
  cases s with
  | decimal => exact absurd rfl h
  | _ => rfl

theorem topScale_of_kind {s : Schema} (h : s.kind ≠ .union) : s.topScale = s.ownScale := by
  cases s with
  | union => exact absurd rfl h
  | _ => rfl

theorem isFlat_of_kind {s : Schema} (h : s.kind ≠ .union) : s.IsFlat := by
  rintro branches rfl
  exact absurd rfl h

theorem kind_of_isUnion {branches : List Schema} (h : Declaration.isUnion branches) :
    (∀ s ∈ branches, s.kind ≠ .union) ∧ ((branches.map kind).filter (!·.isNamed)).Nodup := by
  unfold Declaration.isUnion at h
  rw [Bool.and_eq_true, decide_eq_true_iff] at h
  refine ⟨?_, h.2⟩
  intro s hs hkind
  have hmem : Kind.union ∈ branches.map kind := hkind ▸ List.mem_map_of_mem hs
  simp [hmem] at h

theorem greatest_eq_zero {branches : List Schema} (h : ∀ s ∈ branches, s.kind ≠ .decimal) :
    (branches.map ownScale).foldr max 0 = 0 := by
  induction branches with
  | nil => rfl
  | cons s rest ih =>
      obtain ⟨hs, hrest⟩ := List.forall_mem_cons.mp h
      rw [List.map_cons, List.foldr_cons, ownScale_of_kind hs, ih hrest, Nat.max_self]

/-- A union has one decimal at most, whose scale is then the greatest one. -/
theorem greatest_eq_ownScale {branches : List Schema}
    (h : ((branches.map kind).filter (!·.isNamed)).Nodup) {s : Schema} (hs : s ∈ branches)
    (hkind : s.kind = .decimal) : (branches.map ownScale).foldr max 0 = s.ownScale := by
  have hunnamed : (!Kind.decimal.isNamed) = true := rfl
  induction branches with
  | nil => exact nomatch hs
  | cons t rest ih =>
      rw [List.map_cons, List.filter_cons] at h
      rw [List.map_cons, List.foldr_cons]
      by_cases ht : t.kind = .decimal
      · have hrest : ∀ u ∈ rest, u.kind ≠ .decimal := by
          intro u hu hukind
          have hmem : Kind.decimal ∈ rest.map kind := hukind ▸ List.mem_map_of_mem hu
          rw [ht, if_pos hunnamed] at h
          exact (List.nodup_cons.mp h).1 (List.mem_filter.mpr ⟨hmem, hunnamed⟩)
        rcases List.mem_cons.mp hs with rfl | hs
        · rw [greatest_eq_zero hrest, Nat.max_zero]
        · exact absurd hkind (hrest s hs)
      · have hnodup : ((rest.map kind).filter (!·.isNamed)).Nodup := by
          split at h
          · exact (List.nodup_cons.mp h).2
          · exact h
        rcases List.mem_cons.mp hs with rfl | hs
        · exact absurd hkind ht
        · rw [ownScale_of_kind ht, Nat.zero_max, ih hnodup hs]

end Schema

theorem Value.eq_decimal_of_unwrap {v : Value} {d : Decimal} (hkind : v.kind ≠ .union)
    (h : v.unwrap = .decimal d) : v = .decimal d := by
  cases v with
  | union => exact absurd rfl hkind
  | _ => exact h

namespace Schema

open Reader

variable {defs : Definitions} {fuel : Nat} {space : Option String} {s : Schema}
  {bytes rest : List UInt8} {v : Value}

/-- A decimal outside of unions was read with a decimal type: no other type goes by a name. -/
theorem kind_of_read?_decimal (hdefs : ∀ name t, defs.lookup name = some t → t.isDefinition)
    (hs : s.kind ≠ .union) (h : read? defs fuel space s bytes = some (v, rest)) {d : Decimal}
    (hd : v.unwrap = .decimal d) : v = .decimal d ∧ s.kind = .decimal := by
  rcases kind_of_read? h with rfl | hkind | ⟨name, rfl⟩
  · exact nomatch hd
  · obtain rfl := Value.eq_decimal_of_unwrap (hkind ▸ hs) hd
    exact ⟨rfl, hkind.symm⟩
  · cases htarget : defs.lookup (name.within space) with
    | none =>
        cases fuel with
        | zero => exact nomatch h
        | succ fuel => simp [read?, htarget] at h
    | some t =>
        have ht := hdefs _ t htarget
        have hread := read?_ref htarget h
        -- The type that the name stands for is no decimal and no union.
        have htkind : t.kind ≠ .union ∧ t.kind ≠ .decimal ∧ ∀ other, t ≠ .ref other := by
          cases t with
          | record | enumeration | fixed => simp [kind]
          | _ => exact absurd ht Bool.false_ne_true
        rcases kind_of_read? hread with rfl | hkind | ⟨other, rfl⟩
        · exact nomatch hd
        · obtain rfl := Value.eq_decimal_of_unwrap (hkind ▸ htkind.1) hd
          exact absurd hkind.symm htkind.2.1
        · exact absurd rfl (htkind.2.2 other)

/-- A decimal was read with the scale of its type, of a union with that of the branch that was
chosen. -/
theorem scaleOf?_of_read? (hdefs : ∀ name t, defs.lookup name = some t → t.isDefinition)
    (hflat : s.IsFlat) (h : read? defs fuel space s bytes = some (v, rest)) {d : Decimal}
    (hd : v.unwrap = .decimal d) : s.scaleOf? v = some s.topScale := by
  by_cases hunion : s.kind = .union
  · obtain ⟨branches, rfl⟩ : ∃ branches, s = .union branches := by
      cases s with
      | union branches => exact ⟨branches, rfl⟩
      | _ => exact nomatch hunion
    obtain ⟨hkinds, hnodup⟩ := kind_of_isUnion (hflat branches rfl)
    rcases read?_union h with rfl | ⟨i, b, bytes', w, hb, hw, rfl⟩
    · exact nomatch hd
    · have hmem := List.mem_of_getElem? hb
      obtain ⟨rfl, hkind⟩ := kind_of_read?_decimal hdefs (hkinds b hmem) hw hd
      have hgreatest := greatest_eq_ownScale hnodup hmem hkind
      cases b with
      | decimal inner precision scale =>
          rw [scaleOf?, hb, topScale, hgreatest]
          rfl
      | _ => exact nomatch hkind
  · obtain ⟨rfl, hkind⟩ := kind_of_read?_decimal hdefs hunion h hd
    cases s with
    | decimal inner precision scale => rfl
    | _ => exact nomatch hkind

end Schema

/-! ## The scale that is shown -/

theorem typeScale_eq (members : List (String × Json)) :
    typeScale members = ((Keyed.get? "type" members).map decimalScale).getD 0 := by
  induction members with
  | nil => rfl
  | cons p rest ih =>
      obtain ⟨k, v⟩ := p
      rw [typeScale, Keyed.get?, ih]
      by_cases hk : k = "type"
      · rw [if_pos hk, if_pos hk.symm]
        rfl
      · rw [if_neg hk, if_neg (Ne.symm hk)]

theorem decimalScale_inner {v type : Json} (hmark : v.text? "logicalType" ≠ some "decimal")
    (htype : v.get? "type" = some type) : decimalScale v = decimalScale type := by
  obtain ⟨members, rfl⟩ := Json.exists_members_of_get? htype
  have hscale : decimalScale (.obj members) = typeScale members := if_neg hmark
  have hmember : Keyed.get? "type" members = some type := htype
  rw [hscale, typeScale_eq, hmember]
  rfl

theorem decimalScale_marked {v : Json} {precision scale : Nat}
    (hmark : v.text? "logicalType" = some "decimal")
    (hdigits : Logical.precisionAndScale? v = some (precision, scale))
    (hsmall : scale < UInt32.size) : decimalScale v = scale := by
  obtain ⟨w, hw, -⟩ := Option.bind_eq_some_iff.mp hmark
  obtain ⟨members, rfl⟩ := Json.exists_members_of_get? hw
  have hscale : decimalScale (.obj members) = attributeScale members := if_pos hmark
  have hfits : ∀ {p k : Nat}, (if 1 ≤ p ∧ k ≤ p then some (p, k) else none) =
      some (precision, scale) → k = scale := by
    intro p k h
    split at h
    · exact (Prod.mk.inj (Option.some.inj h)).2
    · exact nomatch h
  rw [hscale, attributeScale]
  unfold Logical.precisionAndScale? at hdigits
  simp only [Option.bind_eq_bind, Json.get?] at hdigits
  obtain ⟨p, -, hdigits⟩ := Option.bind_eq_some_iff.mp hdigits
  cases hmember : Keyed.get? "scale" members with
  | none =>
      rw [hmember] at hdigits
      exact hfits hdigits
  | some w =>
      rw [hmember] at hdigits
      obtain ⟨k, hk, hdigits⟩ := Option.bind_eq_some_iff.mp hdigits
      obtain rfl := hfits hdigits
      rw [Option.bind_some, hk]
      exact if_pos hsmall

/-! ## Both readings -/

/-- The words for kinds of definitions, each with the member that a definition brings along. -/
def definingMembers : List (String × String) :=
  [("record", "fields"), ("enum", "symbols"), ("fixed", "size")]

/-- Types in which each mark of a decimal that is met from outside takes effect: it is on bytes or
on a fixed type, with a precision and a scale that make sense together. -/
inductive ScalesHold : Json → Prop
  | word (s : String) : ScalesHold (.str s)
  | union {branches : List Json} (h : ∀ v ∈ branches, ScalesHold v) : ScalesHold (.arr branches)
  | marked {v : Json} {precision scale : Nat} (mark : v.text? "logicalType" = some "decimal")
      (type : v.get? "type" = some (.str "bytes") ∨
        v.get? "type" = some (.str "fixed") ∧ (v.get? "size").isSome)
      (digits : Logical.precisionAndScale? v = some (precision, scale))
      (small : scale < UInt32.size) : ScalesHold v
  | inner {v type : Json} (mark : v.text? "logicalType" ≠ some "decimal")
      (member : v.get? "type" = some type)
      (whole : ∀ p ∈ definingMembers, type = .str p.1 → (v.get? p.2).isSome)
      (h : ScalesHold type) : ScalesHold v

/-- A type that is neither a decimal nor a union. -/
def Schema.IsUnscaled (s : Schema) : Prop := s.kind ≠ .decimal ∧ s.kind ≠ .union

/-- A type that has the scale of its JSON form, and can be told from it in a union. -/
def Schema.IsScaledAs (s : Schema) (v : Json) : Prop := decimalScale v = s.topScale ∧ s.IsFlat

theorem Schema.IsUnscaled.isScaledAs {s : Schema} (h : s.IsUnscaled) {v : Json}
    (hv : decimalScale v = 0) : s.IsScaledAs v := by
  constructor
  · rw [hv, topScale_of_kind h.2, ownScale_of_kind h.1]
  · exact isFlat_of_kind h.2

namespace Declaration

variable {budget fuel : Nat} {space : Option String} {scope scope' : Scope} {v : Json} {s : Schema}

theorem word?_isUnscaled {word : String} (h : word? space scope word = some (s, scope')) :
    s.IsUnscaled := by
  cases hword : primitive? word with
  | none =>
      obtain ⟨name, rfl⟩ := word?_eq_ref hword h
      exact ⟨nofun, nofun⟩
  | some t =>
      obtain rfl : t = s := by
        rw [word?, hword] at h
        exact (Prod.mk.inj (Option.some.inj h)).1
      unfold primitive? at hword
      repeat' split at hword
      all_goals first
        | (obtain rfl := Option.some.inj hword; exact ⟨nofun, nofun⟩)
        | exact nomatch hword

theorem record?_isUnscaled {read : Option String → Reader} (hfields : (v.get? "fields").isSome)
    (h : record? read budget space scope v = some (s, scope')) : s.IsUnscaled := by
  obtain ⟨members, hmembers⟩ := Option.isSome_iff_exists.mp hfields
  unfold record? at h
  simp only [hmembers, Option.bind_eq_bind, Option.bind_eq_some_iff] at h
  obtain ⟨name, -, aliases, -, items, -, ⟨fields, mid⟩, -, h⟩ := h
  split at h
  · obtain ⟨rfl, -⟩ := Prod.mk.inj (Option.some.inj h)
    exact ⟨nofun, nofun⟩
  · simp at h

theorem enumeration?_isUnscaled (hsymbols : (v.get? "symbols").isSome)
    (h : enumeration? space scope v = some (s, scope')) : s.IsUnscaled := by
  obtain ⟨members, hmembers⟩ := Option.isSome_iff_exists.mp hsymbols
  unfold enumeration? at h
  simp only [hmembers, Option.bind_eq_bind, Option.bind_eq_some_iff] at h
  obtain ⟨name, -, aliases, -, items, -, symbols, -, h⟩ := h
  split at h
  · simp at h
  · split at h
    · simp at h
    · obtain ⟨default, -, h⟩ := Option.bind_eq_some_iff.mp h
      obtain ⟨rfl, -⟩ := Prod.mk.inj (Option.some.inj h)
      exact ⟨nofun, nofun⟩

theorem fixed?_eq_fixed (hsize : (v.get? "size").isSome)
    (h : fixed? space scope v = some (s, scope')) : ∃ name size, s = .fixed name size := by
  obtain ⟨member, hmember⟩ := Option.isSome_iff_exists.mp hsize
  unfold fixed? at h
  simp only [hmember, Option.bind_eq_bind, Option.bind_eq_some_iff] at h
  obtain ⟨size, -, h⟩ := h
  split at h
  · simp at h
  · obtain ⟨name, -, h⟩ := Option.bind_eq_some_iff.mp h
    obtain ⟨aliases, -, h⟩ := Option.bind_eq_some_iff.mp h
    obtain ⟨rfl, -⟩ := Prod.mk.inj (Option.some.inj h)
    exact ⟨name, size, rfl⟩

/-- Without a mark of its own a type has the scale of what its member `type` says. -/
theorem plain?_isScaledAs {read : Option String → Reader} {type : Json}
    (hmember : v.get? "type" = some type)
    (hwhole : ∀ p ∈ definingMembers, type = .str p.1 → (v.get? p.2).isSome)
    (hread : ∀ {scope s scope'}, read space scope type = some (s, scope') → s.IsScaledAs type)
    (h : plain? read budget space scope v = some (s, scope')) : s.IsScaledAs type := by
  unfold plain? at h
  rw [hmember] at h
  split at h
  · next heq =>
      obtain rfl := Option.some.inj heq
      have hfields := hwhole ("record", "fields") (by simp [definingMembers]) rfl
      exact (record?_isUnscaled hfields h).isScaledAs rfl
  · next heq =>
      obtain rfl := Option.some.inj heq
      have hsymbols := hwhole ("enum", "symbols") (by simp [definingMembers]) rfl
      exact (enumeration?_isUnscaled hsymbols h).isScaledAs rfl
  · next heq =>
      obtain rfl := Option.some.inj heq
      simp only [Option.bind_eq_bind, Option.bind_eq_some_iff] at h
      obtain ⟨items, -, ⟨t, mid⟩, -, h⟩ := h
      obtain ⟨rfl, -⟩ := Prod.mk.inj (Option.some.inj h)
      have harray : Schema.IsUnscaled (.array t) := ⟨nofun, nofun⟩
      exact harray.isScaledAs rfl
  · next heq =>
      obtain rfl := Option.some.inj heq
      simp only [Option.bind_eq_bind, Option.bind_eq_some_iff] at h
      obtain ⟨values, -, ⟨t, mid⟩, -, h⟩ := h
      obtain ⟨rfl, -⟩ := Prod.mk.inj (Option.some.inj h)
      have hmap : Schema.IsUnscaled (.map t) := ⟨nofun, nofun⟩
      exact hmap.isScaledAs rfl
  · next heq =>
      obtain rfl := Option.some.inj heq
      have hsize := hwhole ("fixed", "size") (by simp [definingMembers]) rfl
      obtain ⟨name, size, rfl⟩ := fixed?_eq_fixed hsize h
      have hfixed : Schema.IsUnscaled (.fixed name size) := ⟨nofun, nofun⟩
      exact hfixed.isScaledAs rfl
  · next heq =>
      obtain rfl := Option.some.inj heq
      exact (word?_isUnscaled h).isScaledAs rfl
  · next heq =>
      obtain rfl := Option.some.inj heq
      exact hread h
  · next heq =>
      obtain rfl := Option.some.inj heq
      exact hread h
  · exact nomatch h

end Declaration

/-- A mark that is not the one of decimals leaves decimals and unions alone, and makes none. -/
theorem Logical.apply_eq_self_or_isUnscaled (attributes : Json) {mark : Logical}
    (hmark : mark ≠ .decimal) (s : Schema) : mark.apply attributes s = s ∨
      s.IsUnscaled ∧ (mark.apply attributes s).IsUnscaled := by
  unfold Logical.apply
  split
  · exact absurd rfl hmark
  · exact absurd rfl hmark
  · exact Or.inr ⟨⟨nofun, nofun⟩, nofun, nofun⟩
  · exact Or.inr ⟨⟨nofun, nofun⟩, nofun, nofun⟩
  · refine Or.inr ⟨⟨nofun, nofun⟩, ?_⟩
    split
    · exact ⟨nofun, nofun⟩
    · exact ⟨nofun, nofun⟩
  · exact Or.inr ⟨⟨nofun, nofun⟩, nofun, nofun⟩
  · exact Or.inr ⟨⟨nofun, nofun⟩, nofun, nofun⟩
  · exact Or.inr ⟨⟨nofun, nofun⟩, nofun, nofun⟩
  · exact Or.inr ⟨⟨nofun, nofun⟩, nofun, nofun⟩
  · exact Or.inl rfl

theorem greatestScale_eq {branches : List Json} {ss : List Schema} {R : Json → Schema → Prop}
    (h : List.Forall₂ R branches ss) (hR : ∀ v ∈ branches, ∀ s, R v s → s.IsScaledAs v)
    (hkinds : ∀ s ∈ ss, s.kind ≠ .union) :
    greatestScale branches = (ss.map Schema.ownScale).foldr max 0 := by
  induction h with
  | nil => rfl
  | @cons v s rest ss hv _ ih =>
      obtain ⟨hs, hss⟩ := List.forall_mem_cons.mp hkinds
      obtain ⟨hfirst, hrest⟩ := List.forall_mem_cons.mp hR
      rw [greatestScale, (hfirst s hv).1, Schema.topScale_of_kind hs, ih hrest hss]
      rfl

/-- The scale that is shown is the scale that is read. -/
theorem ScalesHold.isScaledAs {v : Json} (hv : ScalesHold v) {budget fuel : Nat}
    {space : Option String} {scope scope' : Scope} {s : Schema}
    (h : Declaration.read? budget fuel space scope v = some (s, scope')) : s.IsScaledAs v := by
  induction hv generalizing fuel space scope scope' s with
  | word w => exact (Declaration.word?_isUnscaled (Declaration.read?_word h)).isScaledAs rfl
  | @union branches _ ih =>
      obtain ⟨ss, rfl, hunion, hbranches⟩ := Declaration.read?_union h
      have hkinds := (Schema.kind_of_isUnion hunion).1
      constructor
      · apply greatestScale_eq hbranches _ hkinds
        rintro v hv s ⟨scope, scope', hread⟩
        exact ih v hv hread
      · intro branches heq
        obtain rfl := Schema.union.inj heq
        exact hunion
  | @marked v precision scale mark type digits small =>
      have hscale := decimalScale_marked mark digits small
      obtain ⟨w, hw, -⟩ := Option.bind_eq_some_iff.mp mark
      obtain ⟨members, rfl⟩ := Json.exists_members_of_get? hw
      obtain ⟨inner, rfl⟩ : ∃ inner, s = .decimal inner precision scale := by
        rcases Declaration.read?_object h with ⟨hunmarked, -⟩ | ⟨m, hm, hmarked⟩
        · exact absurd mark hunmarked
        · obtain rfl := hm.mpr mark
          rcases type with hbytes | ⟨hfixed, hsize⟩
          · obtain ⟨t, hread, rfl⟩ := (Declaration.marked?_type hbytes (by simp)).mp hmarked
            obtain rfl : .bytes = t :=
              (Prod.mk.inj (Option.some.inj (Declaration.read?_word hread))).1
            exact ⟨.bytes, by rw [Logical.apply, digits]⟩
          · obtain ⟨t, hread, rfl⟩ := (Declaration.marked?_fixed hfixed).mp hmarked
            obtain ⟨name, size, rfl⟩ := Declaration.fixed?_eq_fixed hsize hread
            exact ⟨.fixed name size, by rw [Logical.apply, digits]⟩
      exact ⟨hscale, Schema.isFlat_of_kind nofun⟩
  | @inner v type mark member whole _ ih =>
      have hscale := decimalScale_inner mark member
      suffices hs : s.IsScaledAs type from ⟨hscale.trans hs.1, hs.2⟩
      obtain ⟨members, rfl⟩ := Json.exists_members_of_get? member
      rcases Declaration.read?_object h with ⟨-, hplain⟩ | ⟨m, hm, hmarked⟩
      · exact Declaration.plain?_isScaledAs member whole ih hplain
      · have hne : m ≠ .decimal := fun hdecimal => mark (hm.mp hdecimal)
        by_cases hfixed : type = .str "fixed"
        · subst hfixed
          have hsize := whole ("fixed", "size") (by simp [definingMembers]) rfl
          obtain ⟨t, hread, rfl⟩ := (Declaration.marked?_fixed member).mp hmarked
          obtain ⟨name, size, rfl⟩ := Declaration.fixed?_eq_fixed hsize hread
          have hunmarked : Schema.IsUnscaled (.fixed name size) := ⟨nofun, nofun⟩
          rcases Logical.apply_eq_self_or_isUnscaled (.obj members) hne (.fixed name size) with
            hself | ⟨-, hunscaled⟩
          · rw [hself]
            exact hunmarked.isScaledAs rfl
          · exact hunscaled.isScaledAs rfl
        · obtain ⟨t, hread, rfl⟩ := (Declaration.marked?_type member hfixed).mp hmarked
          obtain ⟨hinner, hflat⟩ := ih hread
          rcases Logical.apply_eq_self_or_isUnscaled (.obj members) hne t with
            hself | ⟨ht, hunscaled⟩
          · rw [hself]
            exact ⟨hinner, hflat⟩
          · rw [Schema.topScale_of_kind ht.2, Schema.ownScale_of_kind ht.1] at hinner
            exact hunscaled.isScaledAs hinner

end ChangeCapture.Avro
