import ChangeCapture.Change.Columns
import ChangeCapture.Proofs.Avro.Declarations

/-!
# Columns and declared fields

The columns that are found in a document are the fields of the record that is declared there, as
long as both ways of reading the document find the same record.
-/

namespace ChangeCapture

namespace Change

theorem isMissingFlag_iff {name : String} :
    isMissingFlag name ↔ "_isMissing".toList <:+ name.toList :=
  List.isSuffixOf_iff_suffix

/-- A column is what its definition says. -/
structure Column.IsRead (c : Column) : Prop where
  name_eq : c.definition.text? "name" = some c.name
  type_eq : c.type = (c.definition.get? "type").getD .null
  not_flag : isMissingFlag c.name = false

namespace Columns

open Avro (Schema Name Scope)
open Avro.Declaration (Declares IsRecordOf isObject)

theorem recordFields?_eq_some {v : Json} {items : List Json} (h : recordFields? v = some items) :
    ∃ members, v = .obj members ∧ v.get? "type" = some (.str "record") ∧
      v.get? "fields" = some (.arr items) := by
  unfold recordFields? at h
  split at h
  · next htype =>
      obtain ⟨w, hw, hitems⟩ := Option.bind_eq_some_iff.mp h
      have hget := Json.text?_eq_some htype
      obtain ⟨members, rfl⟩ := Json.exists_members_of_get? hget
      cases w with
      | arr items' =>
          obtain rfl : items' = items := by simpa [Json.asArr?] using hitems
          exact ⟨members, rfl, hget, hw⟩
      | _ => simp [Json.asArr?] at hitems
  · simp at h

/-- The first of the given fields has a name, and it is a column unless this is the name of a
flag. -/
theorem ofFields_cons_eq_ok {f : Json} {rest : List Json} {list : List Column}
    (h : ofFields (f :: rest) = .ok list) :
    ∃ name columns, f.text? "name" = some name ∧ ofFields rest = .ok columns ∧
      (isMissingFlag name = true ∧ list = columns ∨
        isMissingFlag name = false ∧ list = ⟨name, (f.get? "type").getD .null, f⟩ :: columns) := by
  rw [ofFields] at h
  cases hname : f.text? "name" with
  | none => simp [hname] at h
  | some name =>
      cases hrest : ofFields rest with
      | error fault => simp [hname, hrest] at h
      | ok columns =>
          simp only [hname, hrest] at h
          refine ⟨name, columns, rfl, rfl, ?_⟩
          split at h
          · next hflag => exact Or.inl ⟨hflag, (Except.ok.inj h).symm⟩
          · next hflag => exact Or.inr ⟨by simpa using hflag, (Except.ok.inj h).symm⟩

/-- The names of columns are those of the entries that are no flags. -/
theorem ofFields_eq_ok {items : List Json} {columns : List Column}
    (h : ofFields items = .ok columns) :
    ∃ names : List String, items.map (Json.text? "name") = names.map some ∧
      columns.map Column.name = names.filter (fun name => !isMissingFlag name) := by
  induction items generalizing columns with
  | nil =>
      obtain rfl : [] = columns := by simpa [ofFields] using h
      exact ⟨[], rfl, rfl⟩
  | cons item rest ih =>
      obtain ⟨name, columns', hname, hrest, hcolumns⟩ := ofFields_cons_eq_ok h
      obtain ⟨names, hnames, hfilter⟩ := ih hrest
      refine ⟨name :: names, by rw [List.map_cons, List.map_cons, hname, hnames], ?_⟩
      rcases hcolumns with ⟨hflag, rfl⟩ | ⟨hflag, rfl⟩
      · simpa [hflag] using hfilter
      · simpa [hflag] using hfilter

theorem isRead_of_ofFields {items : List Json} {list : List Column}
    (h : ofFields items = .ok list) : ∀ c ∈ list, c.IsRead ∧ c.definition ∈ items := by
  induction items generalizing list with
  | nil =>
      obtain rfl : [] = list := by simpa [ofFields] using h
      exact List.forall_mem_nil _
  | cons f rest ih =>
      obtain ⟨name, columns, hname, hcolumns, hlist⟩ := ofFields_cons_eq_ok h
      have hrest : ∀ c ∈ columns, c.IsRead ∧ c.definition ∈ f :: rest := fun c hc =>
        ⟨(ih hcolumns c hc).1, List.mem_cons_of_mem f (ih hcolumns c hc).2⟩
      rcases hlist with ⟨-, rfl⟩ | ⟨hflag, rfl⟩
      · exact hrest
      · exact List.forall_mem_cons.mpr ⟨⟨⟨hname, rfl, hflag⟩, List.mem_cons_self⟩, hrest⟩

/-- Whether an entry of a list of fields is a column. -/
def isColumn (entry : Json) : Bool := !(entry.text? "name").any isMissingFlag

theorem isColumn_of_name {entry : Json} {name : String} (h : entry.text? "name" = some name) :
    isColumn entry = !isMissingFlag name := by
  rw [isColumn, h, Option.any_some]

theorem definitions_eq {items : List Json} {list : List Column} (h : ofFields items = .ok list) :
    list.map Column.definition = items.filter isColumn := by
  induction items generalizing list with
  | nil =>
      obtain rfl := Except.ok.inj h
      rfl
  | cons f rest ih =>
      obtain ⟨name, columns, hname, hcolumns, hlist⟩ := ofFields_cons_eq_ok h
      rw [List.filter_cons, isColumn_of_name hname]
      rcases hlist with ⟨hflag, rfl⟩ | ⟨hflag, rfl⟩
      · rw [hflag]
        exact ih hcolumns
      · rw [hflag, List.map_cons, ih hcolumns]
        rfl

theorem ofFields_definitions {list : List Column} (h : ∀ c ∈ list, c.IsRead) :
    ofFields (list.map Column.definition) = .ok list := by
  induction list with
  | nil => rfl
  | cons c rest ih =>
      obtain ⟨hc, hrest⟩ := List.forall_mem_cons.mp h
      rw [List.map_cons, ofFields, hc.name_eq, ih hrest]
      simp only [hc.not_flag, Bool.false_eq_true, if_false, ← hc.type_eq]

theorem exists_name {items : List Json} {names : List String}
    (h : items.map (Json.text? "name") = names.map some) :
    ∀ f ∈ items, ∃ name, f.text? "name" = some name := by
  intro f hf
  have hmem : f.text? "name" ∈ names.map some := h ▸ List.mem_map_of_mem hf
  obtain ⟨name, -, hname⟩ := List.mem_map.mp hmem
  exact ⟨name, hname.symm⟩

theorem filter_isObject {items : List Json} {names : List String}
    (h : items.map (Json.text? "name") = names.map some) : items.filter isObject = items := by
  rw [List.filter_eq_self]
  intro item hitem
  obtain ⟨name, hname⟩ := exists_name h item hitem
  obtain ⟨members, rfl⟩ := Json.exists_members_of_get? (Json.text?_eq_some hname)
  rfl

theorem sourceFields_eq_ok {v : Json} {items : List Json} (hlist : isColumnList v = false)
    (h : sourceFields v = .ok items) :
    ∃ fields entry type, recordFields? v = some fields ∧
      (fields.find? fun f => f.text? "name" == some beforeField) = some entry ∧
      entry.get? "type" = some type ∧ firstRecord? type = some items := by
  unfold sourceFields at h
  cases hfields : recordFields? v with
  | none => simp [hfields] at h
  | some fields =>
      simp only [hfields, hlist, Bool.false_eq_true, if_false] at h
      split at h
      · simp at h
      · next entry hentry =>
          split at h
          · simp at h
          · next columns hcolumns =>
              obtain rfl : columns = items := by simpa using h
              obtain ⟨type, htype, hfirst⟩ := Option.bind_eq_some_iff.mp hcolumns
              exact ⟨fields, entry, type, rfl, hentry, htype, hfirst⟩

variable {budget fuel : Nat} {space : Option String} {scope scope' : Scope} {type : Json}
  {items : List Json} {s : Schema}

theorem read?_of_firstRecord? (hfirst : firstRecord? type = some items)
    (hread : Avro.Declaration.read? budget fuel space scope type = some (s, scope')) :
    (∃ name fields, s = .record name fields ∧ IsRecordOf budget (fuel - 1) items name fields) ∨
      (∃ name, s = .ref name) ∨ ∃ branches ss, type = .arr branches ∧ s = .union ss ∧
        List.Forall₂ (fun b t => ∃ scope scope',
          Avro.Declaration.read? budget (fuel - 1) space scope b = some (t, scope'))
        branches ss := by
  cases type with
  | obj members =>
      rw [firstRecord?] at hfirst
      obtain ⟨-, -, htype, hitems⟩ := recordFields?_eq_some hfirst
      rcases Avro.Declaration.read?_record htype hitems hread with hrecord | href
      · exact Or.inl hrecord
      · exact Or.inr (Or.inl href)
  | arr branches =>
      obtain ⟨ss, hs, -, hbranches⟩ := Avro.Declaration.read?_union hread
      exact Or.inr (Or.inr ⟨branches, ss, rfl, hs, hbranches⟩)
  | _ => simp [firstRecord?] at hfirst

theorem isRecordOf_of_firstRecord? {name : Name} {fields : List (Avro.Field Schema)}
    (hfirst : firstRecord? type = some items)
    (hread : Avro.Declaration.read? budget fuel space scope type =
      some (.record name fields, scope')) : IsRecordOf budget (fuel - 1) items name fields := by
  rcases read?_of_firstRecord? hfirst hread with ⟨_, _, heq, hrecord⟩ |
    ⟨_, heq⟩ | ⟨_, _, _, heq, -⟩
  · obtain ⟨rfl, rfl⟩ := Schema.record.inj heq
    exact hrecord
  · exact nomatch heq
  · exact nomatch heq

theorem firstRecord?_of_null
    (hread : Avro.Declaration.read? budget fuel space scope type = some (.null, scope')) :
    firstRecord? type = none := by
  cases hfirst : firstRecord? type with
  | none => rfl
  | some items =>
      rcases read?_of_firstRecord? hfirst hread with ⟨_, _, heq, -⟩ | ⟨_, heq⟩ |
        ⟨_, _, _, heq, -⟩
      · exact nomatch heq
      · exact nomatch heq
      · exact nomatch heq

theorem firstRecordOf?_of_none {v w : Json} (h : firstRecord? v = none) :
    firstRecordOf? [v, w] = firstRecord? w := by
  simp only [firstRecordOf?, h]
  cases firstRecord? w <;> rfl

theorem firstRecordOf?_of_none_right {v w : Json} (h : firstRecord? w = none) :
    firstRecordOf? [v, w] = firstRecord? v := by
  simp only [firstRecordOf?, h]
  cases firstRecord? v <;> rfl

theorem firstRecordOf?_append {front : List Json} (h : ∀ v ∈ front, firstRecord? v = none)
    (rest : List Json) : firstRecordOf? (front ++ rest) = firstRecordOf? rest := by
  induction front with
  | nil => rfl
  | cons v front ih =>
      obtain ⟨hv, hfront⟩ := List.forall_mem_cons.mp h
      rw [List.cons_append, firstRecordOf?, hv]
      exact ih hfront

/-- A record that is written in a union is what the union holds in its place, if that is a
record. -/
theorem isRecordOf_of_branch {front back : List Json} {v : Json} {branches : List Schema}
    {name : Name} {fields : List (Avro.Field Schema)} (hv : firstRecord? v = some items)
    (hread : Avro.Declaration.read? budget fuel space scope (.arr (front ++ v :: back)) =
      some (.union branches, scope'))
    (hrecord : branches[front.length]? = some (.record name fields)) :
    IsRecordOf budget (fuel - 1 - 1) items name fields := by
  obtain ⟨ss, hss, -, hbranches⟩ := Avro.Declaration.read?_union hread
  obtain rfl := Schema.union.inj hss
  obtain ⟨hlength, hget⟩ := List.getElem?_eq_some_iff.mp hrecord
  obtain ⟨mid, mid', hmid⟩ := hbranches.get (by simp) hlength
  rw [List.get_eq_getElem, List.get_eq_getElem, hget] at hmid
  simp only [List.getElem_append_right (Nat.le_refl _), Nat.sub_self, List.getElem_cons_zero]
    at hmid
  exact isRecordOf_of_firstRecord? hv hmid

/-- The first record of a type is the record that the type is, alone or beside null. -/
theorem firstRecord?_isRecordOf {name : Name} {fields : List (Avro.Field Schema)}
    (hfirst : firstRecord? type = some items)
    (hread : Avro.Declaration.read? budget fuel space scope type = some (s, scope'))
    (hs : s.nonNull = .record name fields) :
    ∃ fuel' ≤ fuel, IsRecordOf budget fuel' items name fields := by
  rcases Avro.Schema.eq_or_union_of_nonNull hs with rfl | hunion
  · exact ⟨_, Nat.sub_le fuel 1, isRecordOf_of_firstRecord? hfirst hread⟩
  rcases read?_of_firstRecord? hfirst hread with ⟨_, _, rfl, -⟩ | ⟨_, rfl⟩ |
    ⟨branches, ss, rfl, rfl, hbranches⟩
  · simp at hunion
  · simp at hunion
  · have hfuel : fuel - 1 - 1 ≤ fuel := by omega
    simp only [firstRecord?, Schema.union.injEq] at hfirst hunion
    rcases hunion with rfl | rfl
    · match hbranches with
      | .cons ⟨_, _, hnull⟩ (.cons ⟨_, _, hrecord⟩ .nil) =>
          rw [firstRecordOf?_of_none (firstRecord?_of_null hnull)] at hfirst
          exact ⟨_, hfuel, isRecordOf_of_firstRecord? hfirst hrecord⟩
    · match hbranches with
      | .cons ⟨_, _, hrecord⟩ (.cons ⟨_, _, hnull⟩ .nil) =>
          rw [firstRecordOf?_of_none_right (firstRecord?_of_null hnull)] at hfirst
          exact ⟨_, hfuel, isRecordOf_of_firstRecord? hfirst hrecord⟩

theorem isRecordOf_of_ofJson? {v : Json} {name : Name} {fields : List (Avro.Field Schema)}
    (hitems : recordFields? v = some items)
    (h : Avro.Schema.ofJson? v = some (.record name fields)) :
    ∃ budget fuel, fuel ≤ budget ∧ IsRecordOf budget fuel items name fields := by
  obtain ⟨⟨s, scope⟩, hread, heq⟩ := Option.map_eq_some_iff.mp h
  obtain rfl : s = .record name fields := heq
  obtain ⟨members, rfl, -, -⟩ := recordFields?_eq_some hitems
  have hfirst : firstRecord? (.obj members) = some items := by rwa [firstRecord?]
  refine ⟨_, _, ?_, isRecordOf_of_firstRecord? hfirst hread⟩
  exact Nat.le_trans (Nat.sub_le _ 1) (Json.height_le_budget _)

theorem ofJson_eq_ok {v : Json} {columns : Columns} (h : ofJson v = .ok columns) :
    ∃ items, sourceFields v = .ok items ∧ ofFields items = .ok columns.list := by
  unfold ofJson at h
  cases hitems : sourceFields v with
  | error fault => simp [hitems] at h
  | ok items =>
      simp only [hitems] at h
      cases hcolumns : ofFields items with
      | error fault => simp [hcolumns, Except.map] at h
      | ok list =>
          obtain rfl : Columns.mk list = columns := by simpa [hcolumns, Except.map] using h
          exact ⟨items, rfl, hcolumns⟩

/-- The columns of a change are taken from the type that is written for its field `before`, and the
type of this field was read from there. -/
theorem exists_read_before {v : Json} {columns : Columns} {name : Name}
    {fields : List (Avro.Field Schema)} (hlist : isColumnList v = false)
    (hcolumns : ofJson v = .ok columns)
    (havro : Avro.Schema.ofJson? v = some (.record name fields)) {before : Avro.Field Schema}
    (hbefore : before ∈ fields) (hname : before.name = beforeField)
    (hkind : before.type.kind ∈ [.record, .union]) :
    ∃ entries entry type items, recordFields? v = some entries ∧
      (entries.find? fun f => f.text? "name" == some beforeField) = some entry ∧
      entry.get? "type" = some type ∧ firstRecord? type = some items ∧
      ofFields items = .ok columns.list ∧ ∃ budget fuel scope scope', fuel ≤ budget ∧
        Avro.Declaration.read? budget fuel name.space scope type =
          some (before.type, scope') := by
  obtain ⟨items, hsource, hitems⟩ := ofJson_eq_ok hcolumns
  obtain ⟨entries, entry, type, hentries, hentry, htype, hfirst⟩ :=
    sourceFields_eq_ok hlist hsource
  obtain ⟨budget, fuel, hbudget, htop⟩ := isRecordOf_of_ofJson? hentries havro
  -- The entry called `before` declares the field called so.
  have htext : entry.text? "name" = some beforeField := by simpa using List.find?_some hentry
  obtain ⟨members, rfl⟩ := Json.exists_members_of_get? htype
  obtain ⟨f, hf, hdeclares, scope, scope', hread⟩ :=
    exists_mem_of_forall₂ htop.declares
      (List.mem_filter.mpr ⟨List.mem_of_find?_eq_some hentry, rfl⟩)
  have hsame : f.name = before.name := by
    rw [hname]
    exact Option.some.inj (hdeclares.symm.trans htext)
  obtain rfl := htop.eq_of_name hf hbefore hsame
  -- Its type is the one that is written there.
  have hinner : ∀ word, type ≠ .str word := by
    rintro word rfl
    simp [firstRecord?] at hfirst
  obtain ⟨mid, hinnerRead⟩ := Avro.Declaration.read?_inner htype hinner hkind hread
  exact ⟨entries, _, type, items, hentries, hentry, htype, hfirst, hitems, budget, fuel - 1, scope,
    mid, Nat.le_trans (Nat.sub_le fuel 1) hbudget, hinnerRead⟩

/-- The columns of a change are read from the entries that declare the record which its field
`before` defines. -/
theorem isRecordOf_of_before {v : Json} {columns : Columns} {name record : Name}
    {fields declared : List (Avro.Field Schema)} (hlist : isColumnList v = false)
    (hcolumns : ofJson v = .ok columns)
    (havro : Avro.Schema.ofJson? v = some (.record name fields)) {before : Avro.Field Schema}
    (hbefore : before ∈ fields) (hname : before.name = beforeField)
    (hrecord : before.type.nonNull = .record record declared) :
    ∃ items budget fuel, ofFields items = .ok columns.list ∧ fuel ≤ budget ∧
      IsRecordOf budget fuel items record declared := by
  obtain ⟨-, -, type, items, -, -, -, hfirst, hitems, budget, fuel, scope, scope', hbudget,
    hread⟩ := exists_read_before hlist hcolumns havro hbefore hname (Schema.kind_of_nonNull hrecord)
  obtain ⟨fuel', hfuel, hinner⟩ := firstRecord?_isRecordOf hfirst hread hrecord
  exact ⟨items, budget, fuel', hitems, Nat.le_trans hfuel hbudget, hinner⟩

/-- The columns of a change are the fields of the record that its field `before` defines. -/
theorem names_of_ofJson {v : Json} {columns : Columns} {name record : Name}
    {fields declared : List (Avro.Field Schema)} (hlist : isColumnList v = false)
    (hcolumns : ofJson v = .ok columns)
    (havro : Avro.Schema.ofJson? v = some (.record name fields)) {before : Avro.Field Schema}
    (hbefore : before ∈ fields) (hname : before.name = beforeField)
    (hrecord : before.type.nonNull = .record record declared) :
    columns.names = (declared.map Avro.Field.name).filter (fun name => !isMissingFlag name) := by
  obtain ⟨items, budget, fuel, hitems, -, hdeclaredBy⟩ :=
    isRecordOf_of_before hlist hcolumns havro hbefore hname hrecord
  obtain ⟨names, hnames, hcolumnNames⟩ := ofFields_eq_ok hitems
  have hdeclared := Avro.Declaration.names_of_declares hdeclaredBy.declares
  rw [filter_isObject hnames, hnames] at hdeclared
  obtain rfl := (List.map_inj_right fun _ _ => Option.some.inj).mp hdeclared
  exact hcolumnNames

end Columns

end Change

end ChangeCapture
