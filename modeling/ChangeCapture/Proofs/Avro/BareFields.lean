import ChangeCapture.Proofs.Avro.SelfContained

/-!
# Fields by name and type

A field that is declared by its name and its type alone has no mark and no default. It is read
wherever the field is that its type was taken from, unless the type needs the members beside it.
-/

namespace ChangeCapture.Avro.Declaration

variable {budget fuel : Nat} {space : Option String} {scope scope' : Scope} {v w entry type : Json}
  {name : String} {s : Schema} {f : Field Schema}

/-- The words for kinds of types whose other members stand beside them. -/
def kindWords : List String := ["record", "enum", "array", "map", "fixed"]

/-- A type that does not need the members beside it. -/
def IsWhole (type : Json) : Prop := ∀ word ∈ kindWords, type ≠ .str word

theorem IsWhole.not_mem {word : String} (h : IsWhole (.str word)) : word ∉ kindWords :=
  fun hword => h word hword rfl

instance decidableIsWhole : (type : Json) → Decidable (IsWhole type)
  | .str word => decidable_of_iff (word ∉ kindWords)
      ⟨fun h _ hw heq => h (Json.str.inj heq ▸ hw), IsWhole.not_mem⟩
  | .null | .bool _ | .int _ | .double _ | .arr _ | .obj _ => .isTrue fun _ _ => nofun

theorem plain?_word {read : Option String → Reader} {word : String}
    (h : v.get? "type" = some (.str word)) (hword : word ∉ kindWords) :
    plain? read budget space scope v = word? space scope word := by
  unfold plain?
  rw [h]
  split <;> simp_all [kindWords]

theorem exists_type_of_read? {members : List (String × Json)}
    (h : read? budget fuel space scope (.obj members) = some (s, scope')) :
    ∃ type, Json.get? "type" (.obj members) = some type := by
  cases fuel with
  | zero => exact nomatch h
  | succ fuel =>
      obtain ⟨-, h⟩ := read?_obj_iff.mp h
      split at h
      · obtain ⟨t, ⟨htype, -⟩ | ⟨type, htype, -⟩, -⟩ := marked?_eq_some h
        · exact ⟨_, htype⟩
        · exact ⟨type, htype⟩
      · refine Option.ne_none_iff_exists'.mp fun hnone => ?_
        simp [plain?, hnone] at h

/-- An object without a mark is read as its whole type is. -/
theorem plain?_of_read? (htype : v.get? "type" = some type) (hwhole : IsWhole type)
    (h : read? budget fuel space scope type = some (s, scope')) :
    plain? (read? budget fuel) budget space scope v = some (s, scope') := by
  cases type with
  | str word =>
      rw [plain?_word htype hwhole.not_mem]
      exact read?_word h
  | arr | obj => rwa [plain?_nested htype trivial]
  | _ => cases fuel <;> simp [read?] at h

theorem plain?_congr {read : Option String → Reader} (hv : v.get? "type" = some type)
    (hw : w.get? "type" = some type) (hwhole : IsWhole type) :
    plain? read budget space scope v = plain? read budget space scope w := by
  cases type with
  | str word =>
      rw [plain?_word hv hwhole.not_mem, plain?_word hw hwhole.not_mem]
  | arr | obj => rw [plain?_nested hv trivial, plain?_nested hw trivial]
  | _ => simp only [plain?, hv, hw]

/-- The declaration of a field by its name and its type. -/
def bareField (name : String) (type : Json) : Json :=
  .ofMembers [("name", .str name), ("type", type)]

theorem bareField_eq (name : String) (type : Json) :
    bareField name type = .obj [("name", .str name), ("type", type)] := by
  have htype : ¬ "type" < "name" := by decide +kernel
  simp only [bareField, Json.ofMembers, Keyed.ofList, List.foldl_cons, List.foldl_nil, Keyed.insert,
    String.reduceEq, if_false, htype]

theorem bareField_type (name : String) (type : Json) :
    (bareField name type).get? "type" = some type := by
  rw [bareField_eq]
  rfl

theorem bareField_name (name : String) (type : Json) :
    (bareField name type).text? "name" = some name := by
  rw [bareField_eq]
  rfl

theorem bareField_get?_eq_none {key : String} (hkey : key ∉ ["name", "type"]) (name : String)
    (type : Json) : (bareField name type).get? key = none := by
  simp only [List.mem_cons, List.not_mem_nil, or_false, not_or] at hkey
  rw [bareField_eq, Json.get?, Keyed.get?, Keyed.get?, if_neg hkey.1, if_neg hkey.2]
  rfl

theorem bareField_mark? (name : String) (type : Json) : mark? (bareField name type) = none :=
  mark?_eq_none (bareField_get?_eq_none (by decide) name type)

theorem exists_height_bareField (name : String) (type : Json) :
    ∃ height, (bareField name type).height = height + 2 ∧ type.height ≤ height + 1 := by
  rw [bareField_eq]
  refine ⟨max type.height 1 - 1, ?_, by omega⟩
  simp only [Json.height, Json.heightMembers]
  omega

theorem plainMentions_word {inside : Option String → Json → List Mention} {word : String}
    (h : v.get? "type" = some (.str word)) (hword : word ∉ kindWords) :
    plainMentions inside space v = wordMentions space word := by
  simp only [kindWords, List.mem_cons, List.not_mem_nil, or_false, not_or] at hword
  unfold plainMentions
  rw [h]
  split <;> grind

/-- A whole type is mentioned as it is by an object without a mark. -/
theorem plainMentions_whole (htype : v.get? "type" = some type) (hwhole : IsWhole type)
    (height : Nat) (space : Option String) :
    plainMentions (mentions (height + 1)) space v = mentions (height + 1) space type := by
  cases type with
  | str word =>
      rw [plainMentions_word htype hwhole.not_mem]
      rfl
  | _ => simp only [plainMentions, htype]

/-- A bare field mentions what its type does. -/
theorem mentions_bareField (hwhole : IsWhole type) (space : Option String) (name : String) :
    mentions (bareField name type).height space (bareField name type) =
      mentions type.height space type := by
  obtain ⟨height, hheight, htype⟩ := exists_height_bareField name type
  have hmark := bareField_mark? name type
  have hmember := bareField_type name type
  rw [hheight]
  rw [bareField_eq] at hmark hmember ⊢
  rw [mentions, hmark]
  simp only
  rw [plainMentions_whole hmember hwhole]
  exact mentions_near (.refl type) htype (Nat.le_refl _) space

/-- The word of a definition alone means a type of that name. -/
theorem copies_mem_bareField {word : String} (hword : word ∈ ["record", "enum", "fixed"])
    (space : Option String) (name : String) : .copies (Name.within space ⟨word, none⟩) ∈
      mentions (bareField name (.str word)).height space (bareField name (.str word)) := by
  obtain ⟨height, hheight, -⟩ := exists_height_bareField name (.str word)
  have hmark := bareField_mark? name (.str word)
  have htype := bareField_type name (.str word)
  have hnone : ∀ key ∈ ["fields", "symbols", "size"],
      (bareField name (.str word)).get? key = none := fun key hkey =>
    bareField_get?_eq_none (by revert key; decide) name (.str word)
  rw [hheight]
  rw [bareField_eq] at hmark htype hnone ⊢
  rw [mentions, hmark]
  simp only [List.mem_cons, List.not_mem_nil, or_false] at hword
  rcases hword with rfl | rfl | rfl
  · simp only [plainMentions, htype]
    rw [definitionMentions_none (hnone "fields" (by decide))]
    exact List.mem_singleton_self _
  · simp only [plainMentions, htype]
    rw [definitionMentions_none (hnone "symbols" (by decide))]
    exact List.mem_singleton_self _
  · simp only [plainMentions, htype, fixedMentions]
    rw [definitionMentions_none (hnone "size" (by decide))]
    exact List.mem_singleton_self _

theorem read?_bareField : read? budget (fuel + 1) space scope (bareField name type) =
    some (s, scope') ↔
      plain? (read? budget fuel) budget space scope (bareField name type) = some (s, scope') := by
  have hunmarked := bareField_mark? name type
  have hmark : (bareField name type).get? "logicalType" = none :=
    bareField_get?_eq_none (by decide) name type
  rw [bareField_eq] at hunmarked hmark ⊢
  rw [read?_obj_iff, hunmarked]
  exact and_iff_right fun mark hsome => absurd hsome (by rw [hmark]; exact nofun)

/-- The word of a collection alone is no type. -/
theorem read?_bareField_eq_none {word : String} (hword : word ∈ ["array", "map"]) (name : String) :
    read? budget fuel space scope (bareField name (.str word)) = none := by
  have htype := bareField_type name (.str word)
  have hnone : ∀ key ∈ ["items", "values"], (bareField name (.str word)).get? key = none :=
    fun key hkey => bareField_get?_eq_none (by revert key; decide) name (.str word)
  cases fuel with
  | zero => rfl
  | succ fuel =>
      refine Option.eq_none_iff_forall_ne_some.mpr fun ⟨s, scope'⟩ h => ?_
      rw [read?_bareField] at h
      simp only [List.mem_cons, List.not_mem_nil, or_false] at hword
      rcases hword with rfl | rfl
      · obtain ⟨items, -, hitems, -⟩ := (plain?_array htype).mp h
        exact nomatch hitems.symm.trans (hnone "items" (by decide))
      · obtain ⟨values, -, hvalues, -⟩ := (plain?_map htype).mp h
        exact nomatch hvalues.symm.trans (hnone "values" (by decide))

/-- An object whose type is whole is read from its type alone as well, which loses its mark. -/
theorem exists_read?_bareField (h : read? budget fuel space scope entry = some (s, scope'))
    (htype : entry.get? "type" = some type) (hwhole : IsWhole type) (name : String) :
    ∃ t, read? budget fuel space scope (bareField name type) = some (t, scope') ∧
      (s.IsSettled → t.IsSettled) := by
  obtain ⟨members, rfl⟩ := Json.exists_members_of_get? htype
  cases fuel with
  | zero => exact nomatch h
  | succ fuel =>
      simp only [read?_bareField]
      obtain ⟨-, h⟩ := read?_obj_iff.mp h
      split at h
      · obtain ⟨t, ⟨hfixed, -⟩ | ⟨type', htype', -, ht⟩, rfl⟩ := marked?_eq_some h
        · obtain rfl := Option.some.inj (htype.symm.trans hfixed)
          exact absurd rfl (hwhole "fixed" (by decide))
        · obtain rfl := Option.some.inj (htype.symm.trans htype')
          exact ⟨t, plain?_of_read? (bareField_type name type) hwhole ht,
            Logical.isSettled_of_apply⟩
      · rw [plain?_congr htype (bareField_type name type) hwhole] at h
        exact ⟨s, h, id⟩

/-- A field whose type is whole is read from its name and its type as well, which loses its
default too. -/
theorem exists_field?_bareField
    (h : field? (read? budget fuel space) budget scope entry = some (f, scope'))
    (htype : entry.get? "type" = some type) (hwhole : IsWhole type) :
    ∃ t, field? (read? budget fuel space) budget scope (bareField f.name type) =
      some (⟨f.name, t, none⟩, scope') ∧ (f.type.IsSettled → t.IsSettled) := by
  obtain ⟨hname, hidentifier, hread, -, -⟩ := field?_eq_some_iff.mp h
  obtain ⟨t, ht, hsettled⟩ := exists_read?_bareField hread htype hwhole f.name
  have hdefault : (bareField f.name type).get? "default" = none :=
    bareField_get?_eq_none (by decide) f.name type
  refine ⟨t, field?_eq_some_iff.mpr ⟨bareField_name _ _, hidentifier, ht, hdefault.symm, ?_⟩,
    hsettled⟩
  intro d hd
  rw [hdefault] at hd
  exact nomatch hd

/-- A column of a record, read from its name and its type. -/
theorem exists_field?_of_isRecordOf {items : List Json} {row : Name}
    {declared : List (Field Schema)} (h : IsRecordOf budget fuel items row declared)
    (hentry : entry ∈ items) (hname : entry.text? "name" = some name)
    (htype : type = (entry.get? "type").getD .null) (hwhole : IsWhole type) :
    ∃ f ∈ declared, f.name = name ∧ ∃ t, (f.type.IsSettled → t.IsSettled) ∧ ∃ scope scope',
      field? (read? budget fuel row.space) budget scope (bareField name type) =
        some (⟨name, t, none⟩, scope') := by
  obtain ⟨members, rfl⟩ := Json.exists_members_of_get? (Json.text?_eq_some hname)
  obtain ⟨f, hf, scope, scope', hfield⟩ :=
    exists_mem_of_forall₂ h.reads (List.mem_filter.mpr ⟨hentry, rfl⟩)
  obtain ⟨hfname, -, hread, -, -⟩ := field?_eq_some_iff.mp hfield
  obtain rfl : f.name = name := Option.some.inj (hfname.symm.trans hname)
  obtain ⟨type', hmember⟩ := exists_type_of_read? hread
  rw [hmember, Option.getD_some] at htype
  subst htype
  obtain ⟨t, ht, hsettled⟩ := exists_field?_bareField hfield hmember hwhole
  exact ⟨f, hf, rfl, t, hsettled, scope, scope', ht⟩

theorem filter_isObject_bareFields (columns : List (String × Json)) :
    (columns.map fun c => bareField c.1 c.2).filter isObject =
      columns.map fun c => bareField c.1 c.2 := by
  rw [List.filter_eq_self]
  intro entry hentry
  obtain ⟨c, -, rfl⟩ := List.mem_map.mp hentry
  rw [bareField_eq]
  rfl

theorem areDistinct_bareFields {columns : List (String × Json)} {taken : List String}
    (hdistinct : (columns.map Prod.fst).Nodup) (hnew : ∀ c ∈ columns, c.1 ∉ taken) :
    areDistinct taken (columns.map fun c => bareField c.1 c.2) := by
  induction columns generalizing taken with
  | nil => rfl
  | cons c rest ih =>
      obtain ⟨hc, hdistinct⟩ := List.nodup_cons.mp hdistinct
      obtain ⟨hfirst, hnew⟩ := List.forall_mem_cons.mp hnew
      have haliases : fieldAliases (bareField c.1 c.2) = [] := by
        rw [fieldAliases, bareField_get?_eq_none (by decide)]
        rfl
      simp only [List.map_cons, areDistinct, bareField_name, haliases, Bool.and_eq_true,
        Bool.not_eq_true', List.contains_eq_mem, decide_eq_false_iff_not]
      refine ⟨hfirst, ih hdistinct fun d hd hmem => ?_⟩
      rcases List.mem_cons.mp hmem with heq | hmem
      · exact hc (heq ▸ List.mem_map_of_mem hd)
      · exact hnew d hd hmem

/-- Columns that are fields of one record make up a record of their own. -/
theorem exists_isRecordOf_bareFields {items : List Json} {row : Name}
    {declared : List (Field Schema)} (h : IsRecordOf budget fuel items row declared)
    {columns : List (String × Json)} (hdistinct : (columns.map Prod.fst).Nodup)
    (hcolumns : ∀ c ∈ columns, IsWhole c.2 ∧
      ∃ entry ∈ items, entry.text? "name" = some c.1 ∧ c.2 = (entry.get? "type").getD .null)
    (hsettled : ∀ f ∈ declared, f.name ∈ columns.map Prod.fst → f.type.IsSettled) :
    ∃ fields, IsRecordOf budget fuel (columns.map fun c => bareField c.1 c.2) row fields ∧
      (Schema.record row fields).IsSettled := by
  obtain ⟨fields, hreads, hbare⟩ : ∃ fields : List (Field Schema),
      List.Forall₂ (fun entry f => ∃ scope scope',
        field? (read? budget fuel row.space) budget scope entry = some (f, scope'))
        (columns.map fun c => bareField c.1 c.2) fields ∧
      ∀ f ∈ fields, Schema.SettlesDefault f ∧ f.type.IsSettled := by
    clear hdistinct
    induction columns with
    | nil => exact ⟨[], .nil, List.forall_mem_nil _⟩
    | cons c rest ih =>
        obtain ⟨⟨hwhole, entry, hentry, hname, htype⟩, hrest⟩ := List.forall_mem_cons.mp hcolumns
        obtain ⟨fields, hreads, hbare⟩ := ih hrest fun f hf hname =>
          hsettled f hf (List.mem_cons_of_mem _ hname)
        obtain ⟨f, hf, hfname, t, ht, hread⟩ :=
          exists_field?_of_isRecordOf h hentry hname htype hwhole
        have hkept : t.IsSettled := ht (hsettled f hf (hfname ▸ List.mem_cons_self))
        exact ⟨⟨c.1, t, none⟩ :: fields, .cons hread hreads,
          List.forall_mem_cons.mpr ⟨⟨fun _ => nofun, hkept⟩, hbare⟩⟩
  rw [← filter_isObject_bareFields] at hreads
  refine ⟨fields, ⟨hreads, ?_⟩, .of_fields hbare⟩
  rw [filter_isObject_bareFields]
  exact areDistinct_bareFields hdistinct fun _ _ => List.not_mem_nil

end ChangeCapture.Avro.Declaration
