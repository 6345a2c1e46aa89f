import ChangeCapture.Proofs.Avro.Likeness
import ChangeCapture.Proofs.Avro.NestedDecimals
import ChangeCapture.Proofs.Avro.Truncation
import ChangeCapture.Proofs.Text.Bytes

/-!
# JSON that loses nothing

JSON keeps the values of a type that has no floating point numbers, no decimals and no unions but
those with null: two values that are shown alike are the same.
-/

namespace ChangeCapture

namespace Avro

/-! ## Identifiers -/

namespace Uuid

theorem dehyphenate?_groups {a b c d e : List Char} (ha : a.length = 8) (hb : b.length = 4)
    (hc : c.length = 4) (hd : d.length = 4) :
    dehyphenate? (a ++ '-' :: b ++ '-' :: c ++ '-' :: d ++ '-' :: e) =
      some (a ++ b ++ c ++ d ++ e) := by
  simp [dehyphenate?, List.getElem?_append, List.drop_append, List.drop_eq_nil_of_le, ha, hb, hc,
    hd]

theorem dehyphenate?_write (u : Uuid) : dehyphenate? u.write = some (Text.writeHex u.bytes) := by
  have hlength := Text.length_writeHex u.bytes
  rw [u.length_bytes] at hlength
  rw [write, dehyphenate?_groups (by simp [hlength]) (by simp [hlength]) (by simp [hlength])
    (by simp [hlength])]
  generalize Text.writeHex u.bytes = ds
  -- Each drop starts where the group before it ends.
  rw [← List.drop_drop (i := 4) (j := 16), ← List.drop_drop (i := 4) (j := 12),
    ← List.drop_drop (i := 4) (j := 8)]
  simp only [List.append_assoc, List.take_append_drop]

theorem length_write (u : Uuid) : u.write.length = 36 := by
  simp [write, Text.length_writeHex, u.length_bytes]

/-- An identifier is read back from its text. -/
theorem ofChars?_write (u : Uuid) : ofChars? u.write = some u := by
  have hlength := u.length_write
  rw [ofChars?, if_neg (by omega), if_pos hlength, ofHyphenated?, if_pos hlength,
    dehyphenate?_write, Option.bind_some, ofDigits?, Text.readHex?_writeHex, Option.bind_some,
    ofBytes?, dif_pos u.length_bytes]

theorem write_injective : Function.Injective write := by
  intro u v h
  have hread := u.ofChars?_write
  rw [h, ofChars?_write] at hread
  exact (Option.some.inj hread).symm

end Uuid

theorem Duration.toJson_injective : Function.Injective Duration.toJson := by
  rintro ⟨months, days, millis⟩ ⟨months', days', millis'⟩ h
  rw [toJson, toJson, Json.ofMembers, Json.ofMembers, Json.obj.injEq] at h
  have hmembers := Keyed.eq_of_ofList_eq h (by simp) rfl
  simpa [Int.ofNat_inj, UInt32.toNat_inj] using hmembers

/-! ## Types -/

namespace Schema

/-- JSON keeps what a type says of its values, if it keeps those of the types within it. -/
def KeepsValues : Schema → Prop
  | .float | .double | .decimal _ _ _ | .bigDecimal => False
  | .union branches =>
      ∃ s : Schema, s.kind ≠ .null ∧ s.kind ≠ .union ∧
        (branches = [.null, s] ∨ branches = [s, .null])
  | .record _ fields => (fields.map Field.name).Nodup
  | .enumeration _ symbols _ => symbols.Nodup
  | _ => True

theorem isSome_name? (s : Schema) : s.name?.isSome = s.kind.isNamed := by
  cases s <;> rfl

/-- The kinds of which JSON does not keep every value. -/
def lossyKinds : List Kind := [.float, .double, .decimal, .bigDecimal]

theorem KeepsValues.kind_notMem {s : Schema} (h : s.KeepsValues) : s.kind ∉ lossyKinds := by
  cases s with
  | float | double | decimal | bigDecimal => exact h.elim
  | _ => simp [kind, lossyKinds]

/-- Of two branches one is null, and the other one is not. -/
theorem KeepsValues.of_ne {branches : List Schema} (h : (union branches).KeepsValues) {i j : Nat}
    {s t : Schema} (hs : branches[i]? = some s) (ht : branches[j]? = some t) (hne : i ≠ j) :
    (s = .null ∧ t.kind ≠ .null ∧ t.kind ≠ .union) ∨
      (t = .null ∧ s.kind ≠ .null ∧ s.kind ≠ .union) := by
  obtain ⟨u, hnull, hunion, hbranches⟩ := h
  have hlength : branches.length = 2 := by rcases hbranches with rfl | rfl <;> rfl
  obtain ⟨hi, rfl⟩ := List.getElem?_eq_some_iff.mp hs
  obtain ⟨hj, rfl⟩ := List.getElem?_eq_some_iff.mp ht
  obtain ⟨rfl, rfl⟩ | ⟨rfl, rfl⟩ : (i = 0 ∧ j = 1) ∨ (i = 1 ∧ j = 0) := by omega
  all_goals rcases hbranches with rfl | rfl
  · exact .inl ⟨rfl, hnull, hunion⟩
  · exact .inr ⟨rfl, hnull, hunion⟩
  · exact .inr ⟨rfl, hnull, hunion⟩
  · exact .inl ⟨rfl, hnull, hunion⟩

/-- Types without floating point numbers and decimals, whose unions are of null and one type that is
no union. No record has a field twice, and no enumeration a symbol. -/
def IsLossless (s : Schema) : Prop := ∀ p ∈ s.parts, p.KeepsValues

namespace IsLossless

theorem of_subset {s t : Schema} (h : s.IsLossless) (hparts : t.parts ⊆ s.parts) : t.IsLossless :=
  fun p hp => h p (hparts hp)

theorem keepsValues {s : Schema} (h : s.IsLossless) : s.KeepsValues :=
  h s (by cases s <;> exact List.mem_cons_self)

theorem of_items {items : Schema} (h : (array items).IsLossless) : items.IsLossless :=
  h.of_subset (List.subset_cons_self _ _)

theorem of_values {values : Schema} (h : (map values).IsLossless) : values.IsLossless :=
  h.of_subset (List.subset_cons_self _ _)

theorem of_branch {branches : List Schema} (h : (union branches).IsLossless) {s : Schema}
    (hs : s ∈ branches) : s.IsLossless :=
  h.of_subset fun _ hp => List.mem_cons_of_mem _ (parts_subset_branchParts hs hp)

theorem of_field {name : Name} {fields : List (Field Schema)}
    (h : (record name fields).IsLossless) {f : Field Schema} (hf : f ∈ fields) :
    f.type.IsLossless :=
  h.of_subset fun _ hp => List.mem_cons_of_mem _ (parts_subset_fieldParts hf hp)

end IsLossless

mutual

/-- What a type defines is made of its parts. -/
theorem parts_subset_of_define? : ∀ (s : Schema) {known defs defs' : Definitions}
    {space : Option String}, define? known space defs s = some defs' →
    ∀ d ∈ defs', d ∈ defs ∨ d.2.parts ⊆ s.parts
  | .array items, _, _, _, _, h => fun d hd =>
      (parts_subset_of_define? items h d hd).imp_right fun hparts =>
        List.subset_cons_of_subset _ hparts
  | .map values, _, _, _, _, h => fun d hd =>
      (parts_subset_of_define? values h d hd).imp_right fun hparts =>
        List.subset_cons_of_subset _ hparts
  | .union branches, _, _, _, _, h => fun d hd =>
      (parts_subset_of_defineBranches? branches h d hd).imp_right fun hparts =>
        List.subset_cons_of_subset _ hparts
  | .record name fields, _, _, _, _, h => by
      intro d hd
      rcases parts_subset_of_defineFields? fields (define?_record_eq_some h) d hd with hd | hparts
      · rcases List.mem_cons.mp hd with rfl | hd
        · exact .inr (List.Subset.refl _)
        · exact .inl hd
      · exact .inr (List.subset_cons_of_subset _ hparts)
  | .enumeration name symbols default, _, _, _, _, h => by
      intro d hd
      obtain ⟨-, hadded⟩ := defineNamed?_eq_some h
      obtain rfl := Option.some.inj hadded
      rcases List.mem_cons.mp hd with rfl | hd
      · exact .inr (List.Subset.refl _)
      · exact .inl hd
  | .fixed name size, _, _, _, _, h => by
      intro d hd
      obtain ⟨-, hadded⟩ := defineNamed?_eq_some h
      obtain rfl := Option.some.inj hadded
      rcases List.mem_cons.mp hd with rfl | hd
      · exact .inr (List.Subset.refl _)
      · exact .inl hd
  | .ref name, _, defs, _, _, h => by
      simp only [define?] at h
      split at h
      · exact fun d hd => .inl (Option.some.inj h ▸ hd)
      · simp at h
  | .null, _, _, _, _, h | .boolean, _, _, _, _, h | .int, _, _, _, _, h | .long, _, _, _, _, h
  | .float, _, _, _, _, h | .double, _, _, _, _, h | .bytes, _, _, _, _, h
  | .string, _, _, _, _, h | .decimal _ _ _, _, _, _, _, h | .bigDecimal, _, _, _, _, h
  | .uuid, _, _, _, _, h | .date, _, _, _, _, h | .timeMillis, _, _, _, _, h
  | .instant _, _, _, _, _, h | .duration, _, _, _, _, h =>
      fun d hd => .inl (Option.some.inj h ▸ hd)

theorem parts_subset_of_defineBranches? : ∀ (branches : List Schema)
    {known defs defs' : Definitions} {space : Option String},
    defineBranches? known space defs branches = some defs' →
    ∀ d ∈ defs', d ∈ defs ∨ d.2.parts ⊆ branchParts branches
  | [], _, _, _, _, h => fun d hd => .inl (Option.some.inj h ▸ hd)
  | s :: rest, known, defs, _, space, h => by
      intro d hd
      simp only [defineBranches?] at h
      cases hmid : define? known space defs s with
      | none => simp [hmid] at h
      | some mid =>
          simp only [hmid] at h
          rcases parts_subset_of_defineBranches? rest h d hd with hd | hparts
          · exact (parts_subset_of_define? s hmid d hd).imp_right fun hparts =>
              List.subset_append_of_subset_left _ hparts
          · exact .inr (List.subset_append_of_subset_right _ hparts)

theorem parts_subset_of_defineFields? : ∀ (fields : List (Field Schema))
    {known defs defs' : Definitions} {space : Option String},
    defineFields? known space defs fields = some defs' →
    ∀ d ∈ defs', d ∈ defs ∨ d.2.parts ⊆ fieldParts fields
  | [], _, _, _, _, h => fun d hd => .inl (Option.some.inj h ▸ hd)
  | ⟨_, type, _⟩ :: rest, known, defs, _, space, h => by
      intro d hd
      simp only [defineFields?, defineField?] at h
      cases hmid : define? known space defs type with
      | none => simp [hmid] at h
      | some mid =>
          simp only [hmid] at h
          rcases parts_subset_of_defineFields? rest h d hd with hd | hparts
          · exact (parts_subset_of_define? type hmid d hd).imp_right fun hparts =>
              List.subset_append_of_subset_left _ hparts
          · exact .inr (List.subset_append_of_subset_right _ hparts)

end

end Schema

/-- Definitions of types that JSON keeps. -/
def Definitions.AreLossless (defs : Definitions) : Prop :=
  ∀ ⦃name s⦄, defs.lookup name = some s → s.isDefinition ∧ s.IsLossless

theorem Schema.IsLossless.definitions {s : Schema} (h : s.IsLossless) {defs : Definitions}
    (hdefs : s.definitions? = some defs) : defs.AreLossless := by
  intro name t ht
  refine ⟨isDefinition_of_definitions? hdefs ht, ?_⟩
  obtain ⟨before, after, rfl, -⟩ := List.lookup_eq_some_iff.mp ht
  rcases parts_subset_of_define? s hdefs (name, t) (by simp) with hnil | hparts
  · exact nomatch hnil
  · exact h.of_subset hparts

/-! ## Values in full -/

namespace Value

open Schema (lossyKinds)

/-- A value of a type that stands inside a namespace, of which nothing was cut off. -/
inductive IsWholeOf (defs : Definitions) : Option String → Schema → Value → Prop
  | scalar {space : Option String} {s : Schema} {v : Value} (hv : v.isScalar)
      (hkind : v.kind = s.kind) (hs : s.name? = none) : IsWholeOf defs space s v
  | fixed {space : Option String} {name : Name} {size : Nat} {data : List UInt8}
      (hdata : data.length = size) : IsWholeOf defs space (.fixed name size) (.fixed size data)
  | enumeration {space : Option String} {name : Name} {symbols : List String}
      {default : Option String} {i : Nat} {symbol : String} (hsymbol : symbols[i]? = some symbol) :
      IsWholeOf defs space (.enumeration name symbols default) (.enumeration i symbol)
  | union {space : Option String} {branches : List Schema} {i : Nat} {s : Schema} {v : Value}
      (hs : branches[i]? = some s) (h : IsWholeOf defs space s v) :
      IsWholeOf defs space (.union branches) (.union i v)
  | array {space : Option String} {s : Schema} {items : List Value}
      (h : ∀ v ∈ items, IsWholeOf defs space s v) : IsWholeOf defs space (.array s) (.array items)
  | map {space : Option String} {s : Schema} {entries : List (String × Value)}
      (sorted : Keyed.IsSorted entries) (h : ∀ e ∈ entries, IsWholeOf defs space s e.2) :
      IsWholeOf defs space (.map s) (.map entries)
  | record {space : Option String} {name : Name} {fields : List (Field Schema)}
      {values : List (String × Value)} (names : values.map Prod.fst = fields.map Field.name)
      (h : ∀ f ∈ fields, ∀ v, (f.name, v) ∈ values →
        IsWholeOf defs (name.within space).space f.type v) :
      IsWholeOf defs space (.record name fields) (.record values)
  | ref {space : Option String} {name : Name} {s : Schema} {v : Value}
      (hs : defs.lookup (name.within space) = some s)
      (h : IsWholeOf defs (name.within space).space s v) : IsWholeOf defs space (.ref name) v

variable {defs : Definitions} {space : Option String} {s : Schema} {v w : Value} {x : Json}

theorem not_isScalar_of_kind (h : v.kind ∈ [Kind.union, .array, .map, .record]) : ¬ v.isScalar := by
  cases v with
  | union | array | map | record => exact Bool.false_ne_true
  | _ => simp [kind] at h

namespace IsWholeOf

theorem of_union {branches : List Schema} (h : v.IsWholeOf defs space (.union branches)) :
    ∃ i s u, v = .union i u ∧ branches[i]? = some s ∧ u.IsWholeOf defs space s := by
  cases h with
  | scalar hv hkind => exact absurd hv (not_isScalar_of_kind (by simp [hkind, Schema.kind]))
  | union hs h => exact ⟨_, _, _, rfl, hs, h⟩

theorem of_array (h : v.IsWholeOf defs space (.array s)) :
    ∃ items, v = .array items ∧ ∀ u ∈ items, u.IsWholeOf defs space s := by
  cases h with
  | scalar hv hkind => exact absurd hv (not_isScalar_of_kind (by simp [hkind, Schema.kind]))
  | array h => exact ⟨_, rfl, h⟩

theorem of_map (h : v.IsWholeOf defs space (.map s)) :
    ∃ entries, v = .map entries ∧ Keyed.IsSorted entries ∧
      ∀ e ∈ entries, e.2.IsWholeOf defs space s := by
  cases h with
  | scalar hv hkind => exact absurd hv (not_isScalar_of_kind (by simp [hkind, Schema.kind]))
  | map sorted h => exact ⟨_, rfl, sorted, h⟩

theorem of_record {name : Name} {fields : List (Field Schema)}
    (h : v.IsWholeOf defs space (.record name fields)) :
    ∃ values, v = .record values ∧ values.map Prod.fst = fields.map Field.name ∧
      ∀ f ∈ fields, ∀ u, (f.name, u) ∈ values →
        u.IsWholeOf defs (name.within space).space f.type := by
  cases h with
  | scalar hv hkind => exact absurd hv (not_isScalar_of_kind (by simp [hkind, Schema.kind]))
  | record names h => exact ⟨_, rfl, names, h⟩

theorem of_ref {name : Name} (h : v.IsWholeOf defs space (.ref name)) {t : Schema}
    (ht : defs.lookup (name.within space) = some t) :
    v.IsWholeOf defs (name.within space).space t := by
  cases h with
  | scalar _ _ hname => exact nomatch hname
  | ref ht' h =>
      obtain rfl := Option.some.inj (ht.symm.trans ht')
      exact h

/-- A type without a name of which some values are scalars has no others. -/
theorem kind_eq (h : v.IsWholeOf defs space s) (hname : s.name? = none)
    (hkind : s.kind ∉ [Kind.union, .array, .map, .record]) : v.kind = s.kind := by
  cases h with
  | scalar _ hkind' _ => exact hkind'
  | fixed | enumeration | record | ref => exact nomatch hname
  | union | array | map => simp [Schema.kind] at hkind

theorem isOf (hv : v.IsWholeOf defs space s) (hs : s.IsLossless)
    (hdefs : defs.AreLossless) : v.IsOf defs space s := by
  induction hv with
  | scalar hv hkind => exact .scalar hv hkind
  | fixed | enumeration => exact .scalar rfl rfl
  | union hb _ ih => exact .union hb (ih (hs.of_branch (List.mem_of_getElem? hb)))
  | array _ ih => exact .array fun v hv => ih v hv hs.of_items
  | map sorted _ ih => exact .map sorted.nodup fun e he => ih e he hs.of_values
  | record names _ ih =>
      exact .record names hs.keepsValues fun f hf v hv => ih f hf v hv (hs.of_field hf)
  | ref ht _ ih => exact .ref ht (ih (hdefs ht).2)

end IsWholeOf

theorem not_decimalAt (hs : s.IsLossless)
    (hdefs : defs.AreLossless) {d : Decimal} {scale : Nat}
    {position : List Json.Step} : ¬ DecimalAt defs d scale space s v position := by
  intro h
  induction h with
  | here => exact hs.keepsValues
  | union hb _ ih => exact ih (hs.of_branch (List.mem_of_getElem? hb))
  | item _ _ ih => exact ih hs.of_items
  | entry _ _ ih => exact ih hs.of_values
  | field hf _ _ ih => exact ih (hs.of_field hf)
  | ref ht _ ih => exact ih (hdefs ht).2

theorem IsWholeOf.toJson?_isOk (h : v.IsWholeOf defs space s) (hs : s.IsLossless)
    (hdefs : defs.AreLossless) : ∃ x, v.toJson? = .ok x := by
  have hof := h.isOf hs hdefs
  refine hof.toJson?_isOk fun d position hat => ?_
  obtain ⟨scale, hdecimal⟩ := hof.exists_decimalAt hat
  exact absurd hdecimal (not_decimalAt hs hdefs)

end Value

namespace Schema

open Reader

variable {defs : Definitions}

/-- What is read in full is a value in full. -/
theorem isWholeOf_of_readWhole? (hdefs : defs.HaveDistinctFields) {fuel : Nat}
    {space : Option String} {s : Schema} {bytes rest : List UInt8} {v : Value}
    (hs : s.HasDistinctFields) (h : readWhole? defs fuel space s bytes = some (v, rest)) :
    v.IsWholeOf defs space s := by
  induction fuel generalizing space s bytes rest v with
  | zero => cases h
  | succ fuel ih =>
      cases s with
      | null =>
          obtain ⟨rfl, -⟩ := Prod.mk.inj (Option.some.inj h)
          exact .scalar rfl rfl rfl
      | boolean =>
          cases bytes with
          | nil => cases h
          | cons b bytes =>
              simp only [readWhole?, wholeBoolean?, boolean?] at h
              split at h
              · obtain ⟨rfl, -⟩ := Prod.mk.inj (Option.some.inj h)
                exact .scalar rfl rfl rfl
              · obtain ⟨-, h⟩ := Option.ite_none_right_eq_some.mp h
                obtain ⟨rfl, -⟩ := Prod.mk.inj (Option.some.inj h)
                exact .scalar rfl rfl rfl
      | float | double =>
          rw [readWhole?_of_isPlain rfl, read?] at h
          obtain ⟨n, -, rfl⟩ := as_eq_some.mp h
          exact .scalar rfl rfl rfl
      | array items =>
          obtain ⟨vs, hvs, rfl⟩ := as_eq_some.mp h
          refine .array fun w hw => ?_
          obtain ⟨bytes', rest', hread⟩ := sequence?_of_mem hvs hw
          exact ih hs.of_array hread
      | map values =>
          rw [readWhole?] at h
          obtain ⟨es, hes, rfl⟩ := as_eq_some.mp h
          refine .map (Keyed.isSorted_ofList es) fun e he => ?_
          obtain ⟨bytes', rest', hmember⟩ := sequence?_of_mem hes (Keyed.mem_ofList he)
          obtain ⟨bytes'', rest'', hread⟩ := read_of_member? hmember
          exact ih hs.of_map hread
      | union branches =>
          obtain ⟨b, mid, w, hbranch, hw, rfl⟩ := wholeUnion?_eq_some.mp h
          have hb := getElem?_of_branch? hbranch
          exact .union hb (ih (hs.of_union _ (List.mem_of_getElem? hb)) hw)
      | record name fields =>
          obtain ⟨vs, hvs, rfl⟩ := as_eq_some.mp h
          obtain ⟨hdistinct, htypes⟩ := hs.of_record
          refine .record (fields?_names hvs) fun f hf w hw => ?_
          obtain ⟨g, hg, hname, bytes', rest', hread⟩ := fields?_of_mem hvs hw
          obtain rfl := List.inj_on_of_nodup_map hdistinct hg hf hname
          exact ih (htypes g hg) hread
      | enumeration name symbols default =>
          rw [readWhole?_of_isPlain rfl, read?, enumeration?_eq] at h
          obtain ⟨n, mid, -, hgiven⟩ := andThen_eq_some.mp h
          obtain ⟨-, hvalue⟩ := Option.ite_none_left_eq_some.mp (given_eq_some.mp hgiven).1
          obtain ⟨symbol, hsymbol, rfl⟩ := Option.map_eq_some_iff.mp hvalue
          exact .enumeration hsymbol
      | fixed name size =>
          obtain ⟨data, htake, rfl⟩ := as_eq_some.mp h
          exact .fixed (length_of_take? htake)
      | decimal inner precision scale =>
          obtain ⟨w, mid, -, hgiven⟩ := andThen_eq_some.mp h
          obtain ⟨hdecimal, -⟩ := given_eq_some.mp hgiven
          unfold decimalOf? at hdecimal
          split at hdecimal
          · obtain rfl := Option.some.inj hdecimal
            exact .scalar rfl rfl rfl
          · obtain rfl := Option.some.inj hdecimal
            exact .scalar rfl rfl rfl
          · cases hdecimal
      | ref name =>
          rw [readWhole?] at h
          cases htarget : defs.lookup (name.within space) with
          | none => simp [htarget] at h
          | some target =>
              rw [htarget] at h
              exact .ref htarget (ih (hdefs.lookup htarget) h)
      | _ =>
          obtain ⟨x, -, rfl⟩ := as_eq_some.mp h
          exact .scalar rfl rfl rfl

theorem isWholeOf_of_decodeWhole? {s : Schema} (hs : s.HasDistinctFields)
    (hdefs : s.definitions? = some defs) {bytes : List UInt8} {v : Value}
    (h : s.decodeWhole? bytes = some v) : v.IsWholeOf defs none s := by
  simp only [decodeWhole?, hdefs] at h
  obtain ⟨⟨w, rest⟩, hread, rfl⟩ := Option.map_eq_some_iff.mp h
  have hdistinct := define?_hasDistinctFields s hs Definitions.HaveDistinctFields.nil hdefs
  exact isWholeOf_of_readWhole? hdistinct hs hread

end Schema

namespace Value

open Schema (lossyKinds)

variable {defs : Definitions} {space : Option String} {s : Schema} {v w : Value} {x : Json}

/-! ## Values that are shown alike -/

/-- Scalars of one kind are told apart by what is shown. -/
theorem eq_of_toJson?_of_kind : ∀ {v w : Value}, v.isScalar → v.kind = w.kind →
    v.kind ∉ Kind.fixed :: Kind.enumeration :: lossyKinds → v.toJson? = w.toJson? → v = w
  | .null, .null, _, _, _, _ => rfl
  | .boolean _, .boolean _, _, _, _, h => by simpa [toJson?] using h
  | .int _, .int _, _, _, _, h => by simpa [toJson?, Int32.toInt_inj] using h
  | .long _, .long _, _, _, _, h => by simpa [toJson?, Int64.toInt_inj] using h
  | .bytes _, .bytes _, _, _, _, h => by
      simpa [toJson?, String.ofList_inj, Text.Base64.encode_injective.eq_iff] using h
  | .string _, .string _, _, _, _, h => by simpa [toJson?] using h
  | .date _, .date _, _, _, _, h => by simpa [toJson?, Int32.toInt_inj] using h
  | .timeMillis _, .timeMillis _, _, _, _, h => by simpa [toJson?, Int32.toInt_inj] using h
  | .instant _ _, .instant _ _, _, hkind, _, h => by
      obtain rfl := Kind.instant.inj hkind
      simpa [toJson?, Int64.toInt_inj] using h
  | .duration _, .duration _, _, _, _, h => by
      simpa [toJson?, Duration.toJson_injective.eq_iff] using h
  | .uuid _, .uuid _, _, _, _, h => by
      simpa [toJson?, String.ofList_inj, Uuid.write_injective.eq_iff] using h
  | .float _, .float _, _, _, hkind, _ | .double _, .double _, _, _, hkind, _
  | .fixed _ _, .fixed _ _, _, _, hkind, _ | .enumeration _ _, .enumeration _ _, _, _, hkind, _
  | .decimal _, .decimal _, _, _, hkind, _ | .bigDecimal _, .bigDecimal _, _, _, hkind, _ =>
      absurd hkind (by simp [kind, lossyKinds])

theorem eq_of_itemsToJson? {items others : List Value} {xs : List Json}
    (hinj : ∀ v ∈ items, ∀ w ∈ others, ∀ x, v.toJson? = .ok x → w.toJson? = .ok x → v = w)
    (h : itemsToJson? items = .ok xs) (h' : itemsToJson? others = .ok xs) : items = others := by
  induction items generalizing others xs with
  | nil =>
      obtain rfl : [] = xs := Except.ok.inj h
      cases others with
      | nil => rfl
      | cons w others =>
          obtain ⟨_, _, _, _, hcons⟩ := itemsToJson?_cons_eq_ok.mp h'
          exact nomatch hcons
  | cons v items ih =>
      obtain ⟨x, xs, hv, hitems, rfl⟩ := itemsToJson?_cons_eq_ok.mp h
      cases others with
      | nil => exact nomatch Except.ok.inj h'
      | cons w others =>
          obtain ⟨y, ys, hw, hothers, hcons⟩ := itemsToJson?_cons_eq_ok.mp h'
          obtain ⟨rfl, rfl⟩ := List.cons.inj hcons
          rw [hinj v List.mem_cons_self w List.mem_cons_self y hv hw]
          rw [ih (fun a ha b hb => hinj a (.tail _ ha) b (.tail _ hb)) hitems hothers]

theorem eq_of_membersToJson? {entries others : List (String × Value)} {xs : List (String × Json)}
    (hinj : ∀ key v w, (key, v) ∈ entries → (key, w) ∈ others →
      ∀ x, v.toJson? = .ok x → w.toJson? = .ok x → v = w)
    (h : membersToJson? entries = .ok xs) (h' : membersToJson? others = .ok xs) :
    entries = others := by
  induction entries generalizing others xs with
  | nil =>
      obtain rfl : [] = xs := Except.ok.inj h
      cases others with
      | nil => rfl
      | cons e others =>
          obtain ⟨_, _, _, _, hcons⟩ := membersToJson?_cons_eq_ok.mp h'
          exact nomatch hcons
  | cons e entries ih =>
      obtain ⟨key, v⟩ := e
      obtain ⟨x, xs, hv, hentries, rfl⟩ := membersToJson?_cons_eq_ok.mp h
      cases others with
      | nil => exact nomatch Except.ok.inj h'
      | cons e others =>
          obtain ⟨key', w⟩ := e
          obtain ⟨y, ys, hw, hothers, hcons⟩ := membersToJson?_cons_eq_ok.mp h'
          obtain ⟨heq, rfl⟩ := List.cons.inj hcons
          obtain ⟨rfl, rfl⟩ := Prod.mk.inj heq
          rw [hinj _ v w List.mem_cons_self List.mem_cons_self _ hv hw]
          rw [ih (fun k a b ha hb => hinj k a b (.tail _ ha) (.tail _ hb)) hentries hothers]

namespace IsWholeOf

theorem eq_null (h : v.IsWholeOf defs space .null) : v = .null := by
  cases h with
  | scalar _ hkind =>
      cases v with
      | null => rfl
      | _ => exact nomatch hkind

/-- Only null is shown as null. -/
theorem toJson?_ne_null (h : v.IsWholeOf defs space s) (hs : s.IsLossless)
    (hdefs : defs.AreLossless) (hnull : s.kind ≠ .null) (hunion : s.kind ≠ .union) :
    v.toJson? ≠ .ok .null := by
  induction h with
  | @scalar space s v hv hkind =>
      have hlossy := hs.keepsValues.kind_notMem
      rw [← hkind] at hlossy hnull
      cases v with
      | null => exact absurd rfl hnull
      | float | double | decimal | bigDecimal => exact absurd hlossy (by simp [kind, lossyKinds])
      | union | array | map | record => exact absurd hv Bool.false_ne_true
      | _ => simp [toJson?, Duration.toJson, Json.ofMembers]
  | fixed | enumeration => simp [toJson?]
  | union => exact absurd rfl hunion
  | array =>
      intro hx
      obtain ⟨xs, -, hxs⟩ := toJson?_array_eq_ok.mp hx
      cases hxs
  | map =>
      intro hx
      obtain ⟨xs, -, hxs⟩ := toJson?_map_eq_ok.mp hx
      cases hxs
  | record =>
      intro hx
      obtain ⟨xs, -, hxs⟩ := toJson?_record_eq_ok.mp hx
      cases hxs
  | @ref space name t v ht _ ih =>
      obtain ⟨hdefinition, hlossless⟩ := hdefs ht
      have hkinds : t.kind ≠ .null ∧ t.kind ≠ .union := by
        cases t with
        | record | enumeration | fixed => simp [Schema.kind]
        | _ => exact absurd hdefinition Bool.false_ne_true
      exact ih hlossless hkinds.1 hkinds.2

/-- Values of one type that are shown alike are the same. -/
theorem eq_of_toJson? (hv : v.IsWholeOf defs space s) (hw : w.IsWholeOf defs space s)
    (hs : s.IsLossless) (hdefs : defs.AreLossless) (hx : v.toJson? = .ok x)
    (hy : w.toJson? = .ok x) : v = w := by
  induction hv generalizing w x with
  | @scalar space s v hscalar hkind hname =>
      have hkinds : s.kind ∉ Kind.fixed :: Kind.enumeration :: lossyKinds := by
        have hplain : s.kind.isNamed = false := by rw [← Schema.isSome_name?, hname]; rfl
        rw [List.mem_cons, List.mem_cons]
        rintro (h | h | h)
        · cases h ▸ hplain
        · cases h ▸ hplain
        · exact hs.keepsValues.kind_notMem h
      have hkind' : w.kind = s.kind :=
        hw.kind_eq hname (hkind ▸ fun h => not_isScalar_of_kind h hscalar)
      rw [← hkind] at hkinds
      exact eq_of_toJson?_of_kind hscalar (hkind.trans hkind'.symm) hkinds (hx.trans hy.symm)
  | fixed hdata =>
      cases hw with
      | scalar _ _ hname => cases hname
      | fixed hdata' =>
          have hencode := hx.trans hy.symm
          simp only [toJson?, Except.ok.injEq, Json.str.injEq, String.ofList_inj,
            Text.Base64.encode_injective.eq_iff] at hencode
          rw [hencode]
  | enumeration hsymbol =>
      cases hw with
      | scalar _ _ hname => cases hname
      | enumeration hsymbol' =>
          have hshown := hx.trans hy.symm
          simp only [toJson?, Except.ok.injEq, Json.str.injEq] at hshown
          subst hshown
          have hlt := (List.getElem?_eq_some_iff.mp hsymbol).1
          rw [(List.getElem?_inj hlt hs.keepsValues).mp (hsymbol.trans hsymbol'.symm)]
  | @union space branches i t v ht hv ih =>
      obtain ⟨j, u, w, rfl, hu, hw⟩ := hw.of_union
      by_cases hij : i = j
      · subst hij
        obtain rfl := Option.some.inj (ht.symm.trans hu)
        rw [ih hw (hs.of_branch (List.mem_of_getElem? ht)) hx hy]
      · -- What stands for null is not what stands for anything else.
        exfalso
        rcases hs.keepsValues.of_ne ht hu hij with ⟨rfl, hnull, hunion⟩ | ⟨rfl, hnull, hunion⟩
        · obtain rfl := hv.eq_null
          obtain rfl := Except.ok.inj hx
          exact hw.toJson?_ne_null (hs.of_branch (List.mem_of_getElem? hu)) hdefs hnull hunion hy
        · obtain rfl := hw.eq_null
          obtain rfl := Except.ok.inj hy
          exact hv.toJson?_ne_null (hs.of_branch (List.mem_of_getElem? ht)) hdefs hnull hunion hx
  | array _ ih =>
      obtain ⟨others, rfl, hothers⟩ := hw.of_array
      obtain ⟨xs, hxs, rfl⟩ := toJson?_array_eq_ok.mp hx
      obtain ⟨ys, hys, heq⟩ := toJson?_array_eq_ok.mp hy
      obtain rfl := Json.arr.inj heq
      rw [eq_of_itemsToJson? (fun a ha b hb _ => ih a ha (hothers b hb) hs.of_items) hxs hys]
  | map sorted _ ih =>
      obtain ⟨others, rfl, sorted', hothers⟩ := hw.of_map
      obtain ⟨xs, hxs, rfl⟩ := toJson?_map_eq_ok.mp hx
      obtain ⟨ys, hys, heq⟩ := toJson?_map_eq_ok.mp hy
      have hkeys := (membersToJson?_eq_ok hxs).1
      have hkeys' := (membersToJson?_eq_ok hys).1
      have hsorted : Keyed.IsSorted xs := by
        rwa [Keyed.isSorted_iff_keys, hkeys, ← Keyed.isSorted_iff_keys]
      have hsorted' : Keyed.IsSorted ys := by
        rwa [Keyed.isSorted_iff_keys, hkeys', ← Keyed.isSorted_iff_keys]
      have hmembers := Json.obj.inj heq
      rw [Keyed.ofList_eq_self hsorted, Keyed.ofList_eq_self hsorted'] at hmembers
      subst hmembers
      rw [eq_of_membersToJson? (fun key a b ha hb _ => ih _ ha (hothers _ hb) hs.of_values) hxs hys]
  | @record space name fields values names _ ih =>
      obtain ⟨others, rfl, names', hothers⟩ := hw.of_record
      obtain ⟨xs, hxs, rfl⟩ := toJson?_record_eq_ok.mp hx
      obtain ⟨ys, hys, heq⟩ := toJson?_record_eq_ok.mp hy
      have hkeys := (membersToJson?_eq_ok hxs).1.trans names
      have hkeys' := (membersToJson?_eq_ok hys).1.trans names'
      obtain rfl := Keyed.eq_of_ofList_eq (Json.obj.inj heq) (hkeys' ▸ hs.keepsValues)
        (hkeys'.trans hkeys.symm)
      have hvalues : values = others := by
        refine eq_of_membersToJson? (fun key a b ha hb _ => ?_) hxs hys
        obtain ⟨f, hf, rfl⟩ := List.mem_map.mp (names ▸ List.mem_map_of_mem ha)
        exact ih f hf a ha (hothers f hf b hb) (hs.of_field hf)
      rw [hvalues]
  | ref ht _ ih => exact ih (hw.of_ref ht) (hdefs ht).2 hx hy

/-- Every value of a type that JSON keeps is shown, and no two are shown alike. -/
theorem toJson?_injective (hs : s.IsLossless) (hdefs : s.definitions? = some defs)
    (hv : v.IsWholeOf defs none s) (hw : w.IsWholeOf defs none s) :
    ∃ x y, v.toJson? = .ok x ∧ w.toJson? = .ok y ∧ (x = y → v = w) := by
  have hlossless := hs.definitions hdefs
  obtain ⟨x, hx⟩ := hv.toJson?_isOk hs hlossless
  obtain ⟨y, hy⟩ := hw.toJson?_isOk hs hlossless
  refine ⟨x, y, hx, hy, fun hxy => ?_⟩
  exact hv.eq_of_toJson? hw hs hlossless hx (hxy ▸ hy)

end IsWholeOf

/-- A task with notes, of which some say nothing, and with steps that are tasks. -/
def taskType : Json :=
  .ofMembers [("type", .str "record"), ("name", .str "task"), ("fields", .arr
    [.ofMembers [("name", .str "state"), ("type", .ofMembers [("type", .str "enum"),
      ("name", .str "state"), ("symbols", .strings ["open", "done"])])],
    .ofMembers [("name", .str "notes"), ("type", .ofMembers [("type", .str "map"),
      ("values", .strings ["null", "string"])])],
    .ofMembers [("name", .str "steps"), ("type", .ofMembers [("type", .str "array"),
      ("items", .str "task")])]])]

def taskSchema : Schema :=
  .record ⟨"task", none⟩
    [⟨"state", .enumeration ⟨"state", none⟩ ["open", "done"] none, none⟩,
      ⟨"notes", .map (.union [.null, .string]), none⟩,
      ⟨"steps", .array (.ref ⟨"task", none⟩), none⟩]

/-- A task that is open, with one step that is done. -/
def task (note : Value) : Value :=
  .record [("state", .enumeration 0 "open"), ("notes", .map [("due", note)]), ("steps", .array
    [.record [("state", .enumeration 1 "done"), ("notes", .map []), ("steps", .array [])]])]

theorem IsWholeOf.toJson?_injective_task : Schema.ofJson? taskType = some taskSchema ∧
    taskSchema.IsLossless ∧ ∃ defs, taskSchema.definitions? = some defs ∧
      (task (.union 0 .null)).IsWholeOf defs none taskSchema ∧
      (task (.union 1 (.string "null"))).IsWholeOf defs none taskSchema ∧
      ∃ x y, (task (.union 0 .null)).toJson? = .ok x ∧
        (task (.union 1 (.string "null"))).toJson? = .ok y ∧ x ≠ y := by
  have htype : Schema.ofJson? taskType = some taskSchema := rfl
  have hlossless : taskSchema.IsLossless := by
    simp [taskSchema, Schema.IsLossless, Schema.parts, Schema.branchParts, Schema.fieldParts,
      Schema.fieldPart, Schema.KeepsValues, Schema.kind]
  obtain ⟨defs, hdefs⟩ : ∃ defs, taskSchema.definitions? = some defs := ⟨_, rfl⟩
  have hread : taskSchema.decodeWhole? [0, 2, 6, 0x64, 0x75, 0x65, 0, 0, 2, 2, 0, 0, 0] =
      some (task (.union 0 .null)) := rfl
  have hread' : taskSchema.decodeWhole? [0, 2, 6, 0x64, 0x75, 0x65, 2, 8, 0x6e, 0x75, 0x6c, 0x6c,
      0, 2, 2, 0, 0, 0] = some (task (.union 1 (.string "null"))) := rfl
  have hdistinct := Schema.hasDistinctFields_of_ofJson? htype
  have hnull := Schema.isWholeOf_of_decodeWhole? hdistinct hdefs hread
  have htext := Schema.isWholeOf_of_decodeWhole? hdistinct hdefs hread'
  obtain ⟨x, y, hx, hy, hinj⟩ := toJson?_injective hlossless hdefs hnull htext
  refine ⟨htype, hlossless, defs, hdefs, hnull, htext, x, y, hx, hy, fun hxy => ?_⟩
  have heq := hinj hxy
  simp [task] at heq

end Value

end Avro

end ChangeCapture
