import ChangeCapture.Proofs.Change.Columns
import ChangeCapture.Proofs.Json.Equality

/-!
# Where columns come from

The columns of a document are the fields of one record that it holds: of the document itself if it
lists columns already, and otherwise of the first record among the alternatives of the type of its
field `before`. They come as they are written and in their order, and only flags are left out. There
are no columns if that record is missing or if one of its fields, be it a flag or not, has no name.
-/

namespace ChangeCapture.Change

/-- The first member of a list that has a property. -/
structure IsFirst {α : Type} (p : α → Prop) (x : α) (xs : List α) : Prop where
  holds : p x
  first : ∃ earlier later, xs = earlier ++ x :: later ∧ ∀ y ∈ earlier, ¬p y

theorem find?_eq_some_iff_isFirst {α : Type} {p : α → Bool} {x : α} {xs : List α} :
    xs.find? p = some x ↔ IsFirst (fun y => p y) x xs := by
  rw [List.find?_eq_some_iff_append]
  constructor
  · rintro ⟨hx, earlier, later, hxs, hearlier⟩
    exact ⟨hx, earlier, later, hxs, by simpa using hearlier⟩
  · rintro ⟨hx, earlier, later, hxs, hearlier⟩
    exact ⟨hx, earlier, later, hxs, by simpa using hearlier⟩

namespace Columns

/-! ## Records and alternatives -/

/-- A record type, as it is written, with its fields. -/
structure IsRecord (v : Json) (fields : List Json) : Prop where
  type_eq : v.text? "type" = some "record"
  fields_eq : v.get? "fields" = some (.arr fields)

mutual

/-- The alternatives of a type from left to right, those of its members if it is a union. -/
def alternatives : Json → List Json
  | .arr branches => alternativesOf branches
  | v => [v]

def alternativesOf : List Json → List Json
  | [] => []
  | v :: rest => alternatives v ++ alternativesOf rest

end

variable {v type : Json} {fields items : List Json}

theorem recordFields?_eq_some_iff : recordFields? v = some fields ↔ IsRecord v fields := by
  constructor
  · intro h
    obtain ⟨members, rfl, htype, hfields⟩ := recordFields?_eq_some h
    exact ⟨by rw [Json.text?, htype]; rfl, hfields⟩
  · rintro ⟨htype, hfields⟩
    rw [recordFields?, if_pos htype, hfields]
    rfl

theorem recordFields?_eq_none_iff : recordFields? v = none ↔ ∀ fields, ¬IsRecord v fields := by
  rw [Option.eq_none_iff_forall_ne_some]
  exact forall_congr' fun fields => not_congr recordFields?_eq_some_iff

mutual

theorem firstRecord?_eq_findSome? : ∀ type : Json,
    firstRecord? type = (alternatives type).findSome? recordFields?
  | .arr branches => by
      rw [firstRecord?, alternatives, firstRecordOf?_eq_findSome? branches]
  | .obj members => by
      rw [firstRecord?, alternatives, List.findSome?_singleton]
      exact fun branches => Json.noConfusion
  | .null | .bool _ | .int _ | .double _ | .str _ => rfl

theorem firstRecordOf?_eq_findSome? : ∀ branches : List Json,
    firstRecordOf? branches = (alternativesOf branches).findSome? recordFields?
  | [] => rfl
  | v :: rest => by
      rw [firstRecordOf?, alternativesOf, List.findSome?_append, ← firstRecord?_eq_findSome? v,
        ← firstRecordOf?_eq_findSome? rest]
      cases firstRecord? v <;> rfl

end

/-- The fields of a type are those of the first record among its alternatives. -/
theorem firstRecord?_eq_some_iff : firstRecord? type = some items ↔
    ∃ record, IsFirst (fun t => ∃ fields, IsRecord t fields) record (alternatives type) ∧
      IsRecord record items := by
  rw [firstRecord?_eq_findSome?, List.findSome?_eq_some_iff]
  constructor
  · rintro ⟨earlier, record, later, htype, hrecord, hearlier⟩
    have hitems := recordFields?_eq_some_iff.mp hrecord
    refine ⟨record, ⟨⟨items, hitems⟩, earlier, later, htype, ?_⟩, hitems⟩
    rintro t ht ⟨fields, hfields⟩
    exact recordFields?_eq_none_iff.mp (hearlier t ht) fields hfields
  · rintro ⟨record, ⟨-, earlier, later, htype, hearlier⟩, hitems⟩
    refine ⟨earlier, record, later, htype, recordFields?_eq_some_iff.mpr hitems, fun t ht => ?_⟩
    exact recordFields?_eq_none_iff.mpr fun fields hfields => hearlier t ht ⟨fields, hfields⟩

theorem firstRecord?_eq_none_iff :
    firstRecord? type = none ↔ ∀ t ∈ alternatives type, ∀ fields, ¬IsRecord t fields := by
  rw [firstRecord?_eq_findSome?, List.findSome?_eq_none_iff]
  exact forall₂_congr fun t _ => recordFields?_eq_none_iff

/-! ## The source of the columns -/

/-- A record that lists columns already: called `columns`, without a namespace. -/
structure ListsColumns (v : Json) : Prop where
  name_eq : v.text? "name" = some "columns"
  namespace_eq : v.get? "namespace" = none

theorem isColumnList_iff : isColumnList v ↔ ListsColumns v := by
  rw [isColumnList, Bool.and_eq_true, beq_iff_eq, Option.isNone_iff_eq_none]
  exact ⟨fun h => ⟨h.1, h.2⟩, fun h => ⟨h.name_eq, h.namespace_eq⟩⟩

/-- The first field called `before`. -/
def IsBefore (entry : Json) (fields : List Json) : Prop :=
  IsFirst (fun f => f.text? "name" = some "before") entry fields

theorem find?_before_eq_some_iff {entry : Json} :
    (fields.find? fun f => f.text? "name" == some beforeField) = some entry ↔
      IsBefore entry fields := by
  rw [find?_eq_some_iff_isFirst, IsBefore]
  simp only [beq_iff_eq]
  rfl

theorem find?_before_eq_none_iff :
    (fields.find? fun f => f.text? "name" == some beforeField) = none ↔
      ∀ f ∈ fields, f.text? "name" ≠ some "before" := by
  simp only [List.find?_eq_none, beq_iff_eq]
  rfl

theorem bind_firstRecord?_eq_none_iff {entry : Json} :
    (entry.get? "type").bind firstRecord? = none ↔ ∀ type, entry.get? "type" = some type →
      ∀ t ∈ alternatives type, ∀ fields, ¬IsRecord t fields := by
  rw [Option.bind_eq_none_iff]
  exact forall₂_congr fun type _ => firstRecord?_eq_none_iff

/-- The fields among which a document has its columns. -/
inductive IsSource (v : Json) : List Json → Prop
  | document {fields : List Json} (hrecord : IsRecord v fields) (hlist : ListsColumns v) :
      IsSource v fields
  | before {fields items : List Json} {entry type record : Json} (hrecord : IsRecord v fields)
      (hlist : ¬ListsColumns v) (hentry : IsBefore entry fields)
      (htype : entry.get? "type" = some type)
      (hfirst : IsFirst (fun t => ∃ fields, IsRecord t fields) record (alternatives type))
      (hitems : IsRecord record items) : IsSource v items

/-- Why there are no such fields. -/
inductive HasNoSource (v : Json) : SchemaFault → Prop
  | notRecord (h : ∀ fields, ¬IsRecord v fields) : HasNoSource v .notRecord
  | noBefore {fields : List Json} (hrecord : IsRecord v fields) (hlist : ¬ListsColumns v)
      (h : ∀ f ∈ fields, f.text? "name" ≠ some "before") : HasNoSource v .noBefore
  | beforeNotRecord {fields : List Json} {entry : Json} (hrecord : IsRecord v fields)
      (hlist : ¬ListsColumns v) (hentry : IsBefore entry fields)
      (h : ∀ type, entry.get? "type" = some type →
        ∀ t ∈ alternatives type, ∀ fields, ¬IsRecord t fields) : HasNoSource v .beforeNotRecord

theorem sourceFields_of_change (hrecord : IsRecord v fields) (hlist : ¬ListsColumns v) :
    sourceFields v = match fields.find? fun f => f.text? "name" == some beforeField with
      | none => .error .noBefore
      | some f =>
          match (f.get? "type").bind firstRecord? with
          | none => .error .beforeNotRecord
          | some columns => .ok columns := by
  rw [sourceFields, recordFields?_eq_some_iff.mpr hrecord]
  exact if_neg (mt isColumnList_iff.mp hlist)

theorem IsSource.sourceFields_eq (h : IsSource v items) : sourceFields v = .ok items := by
  cases h with
  | document hrecord hlist =>
      rw [sourceFields, recordFields?_eq_some_iff.mpr hrecord]
      exact if_pos (isColumnList_iff.mpr hlist)
  | before hrecord hlist hentry htype hfirst hitems =>
      have hcolumns := firstRecord?_eq_some_iff.mpr ⟨_, hfirst, hitems⟩
      rw [sourceFields_of_change hrecord hlist, find?_before_eq_some_iff.mpr hentry]
      simp only [htype, Option.bind_some, hcolumns]

theorem HasNoSource.sourceFields_eq {fault : SchemaFault} (h : HasNoSource v fault) :
    sourceFields v = .error fault := by
  cases h with
  | notRecord h => rw [sourceFields, recordFields?_eq_none_iff.mpr h]
  | noBefore hrecord hlist h =>
      rw [sourceFields_of_change hrecord hlist, find?_before_eq_none_iff.mpr h]
  | beforeNotRecord hrecord hlist hentry h =>
      rw [sourceFields_of_change hrecord hlist, find?_before_eq_some_iff.mpr hentry]
      simp only [bind_firstRecord?_eq_none_iff.mpr h]

/-- There is no other cause. -/
theorem isSource_or_hasNoSource (v : Json) :
    (∃ items, IsSource v items) ∨ ∃ fault, HasNoSource v fault := by
  cases hfields : recordFields? v with
  | none => exact Or.inr ⟨_, .notRecord (recordFields?_eq_none_iff.mp hfields)⟩
  | some fields =>
      have hrecord := recordFields?_eq_some_iff.mp hfields
      by_cases hlist : ListsColumns v
      · exact Or.inl ⟨fields, .document hrecord hlist⟩
      cases hentry : fields.find? fun f => f.text? "name" == some beforeField with
      | none => exact Or.inr ⟨_, .noBefore hrecord hlist (find?_before_eq_none_iff.mp hentry)⟩
      | some entry =>
          have hbefore := find?_before_eq_some_iff.mp hentry
          cases hitems : (entry.get? "type").bind firstRecord? with
          | none =>
              have hnone := bind_firstRecord?_eq_none_iff.mp hitems
              exact Or.inr ⟨_, .beforeNotRecord hrecord hlist hbefore hnone⟩
          | some items =>
              obtain ⟨type, htype, hcolumns⟩ := Option.bind_eq_some_iff.mp hitems
              obtain ⟨record, hfirst, hfields⟩ := firstRecord?_eq_some_iff.mp hcolumns
              exact Or.inl ⟨items, .before hrecord hlist hbefore htype hfirst hfields⟩

theorem sourceFields_eq_ok_iff : sourceFields v = .ok items ↔ IsSource v items := by
  refine ⟨fun h => ?_, IsSource.sourceFields_eq⟩
  rcases isSource_or_hasNoSource v with ⟨items', hsource⟩ | ⟨fault, hnone⟩
  · obtain rfl : items' = items := Except.ok.inj (hsource.sourceFields_eq.symm.trans h)
    exact hsource
  · exact nomatch hnone.sourceFields_eq.symm.trans h

/-! ## The columns among the fields -/

/-- Whether a field has a name that does not end like that of a flag. -/
def hasColumnName (f : Json) : Bool :=
  (f.text? "name").any fun name => !decide ("_isMissing".toList <:+ name.toList)

/-- The columns among the given fields, as these are written and in their order. -/
structure AreAmong (c : Columns) (items : List Json) : Prop where
  named : ∀ f ∈ items, ∃ name, f.text? "name" = some name
  definitions : c.list.map Column.definition = items.filter hasColumnName
  isRead : ∀ column ∈ c.list, column.IsRead

theorem isColumn_eq {f : Json} {name : String} (h : f.text? "name" = some name) :
    isColumn f = hasColumnName f := by
  have hflag : decide ("_isMissing".toList <:+ name.toList) = isMissingFlag name := by
    rw [Bool.eq_iff_iff, decide_eq_true_iff, isMissingFlag_iff]
  rw [isColumn_of_name h, hasColumnName, h, Option.any_some, hflag]

theorem areAmong_of_ofFields {list : List Column} (h : ofFields items = .ok list) :
    AreAmong ⟨list⟩ items := by
  obtain ⟨names, hnames, -⟩ := ofFields_eq_ok h
  refine ⟨exists_name hnames, ?_, fun column hcolumn => (isRead_of_ofFields h column hcolumn).1⟩
  rw [definitions_eq h]
  apply List.filter_congr
  intro f hf
  obtain ⟨name, hname⟩ := exists_name hnames f hf
  exact isColumn_eq hname

/-- The columns among given fields are determined by them. -/
theorem AreAmong.unique {c c' : Columns} (h : c.AreAmong items) (h' : c'.AreAmong items) :
    c = c' := by
  have hread := ofFields_definitions h.isRead
  have hread' := ofFields_definitions h'.isRead
  rw [h.definitions] at hread
  rw [h'.definitions, hread] at hread'
  exact congrArg Columns.mk (Except.ok.inj hread')

theorem ofFields_eq_error_iff {fault : SchemaFault} : ofFields items = .error fault ↔
    fault = .unnamedColumn ∧ ∃ f ∈ items, f.text? "name" = none := by
  induction items with
  | nil => simp [ofFields]
  | cons f rest ih =>
      rw [ofFields]
      cases hname : f.text? "name" with
      | none => simp [hname, eq_comm]
      | some name =>
          have hexists : (∃ g ∈ f :: rest, g.text? "name" = none) ↔
              ∃ g ∈ rest, g.text? "name" = none := by simp [hname]
          rw [hexists, ← ih]
          cases hrest : ofFields rest with
          | error fault' => simp
          | ok columns =>
              dsimp only
              split <;> simp

theorem AreAmong.ofFields_eq {c : Columns} (h : c.AreAmong items) :
    ofFields items = .ok c.list := by
  cases hlist : ofFields items with
  | ok list =>
      exact congrArg (Except.ok ∘ Columns.list) ((areAmong_of_ofFields hlist).unique h)
  | error fault =>
      obtain ⟨-, f, hf, hnone⟩ := ofFields_eq_error_iff.mp hlist
      obtain ⟨name, hname⟩ := h.named f hf
      rw [hnone] at hname
      exact nomatch hname

/-! ## Documents -/

/-- Why a document has no columns. -/
inductive Fails (d : String) : SchemaFault → Prop
  | notJson (h : Json.parse? d = none) : Fails d .notJson
  | noSource {v : Json} {fault : SchemaFault} (hv : Json.parse? d = some v)
      (h : HasNoSource v fault) : Fails d fault
  | unnamed {v f : Json} {items : List Json} (hv : Json.parse? d = some v)
      (hsource : IsSource v items) (hf : f ∈ items) (h : f.text? "name" = none) :
      Fails d .unnamedColumn

theorem ofDocument_eq_ok_iff {d : String} {c : Columns} : ofDocument d = .ok c ↔
    ∃ v items, Json.parse? d = some v ∧ IsSource v items ∧ c.AreAmong items := by
  rw [ofDocument]
  constructor
  · intro h
    cases hv : Json.parse? d with
    | none => simp [hv] at h
    | some v =>
        simp only [hv] at h
        obtain ⟨items, hitems, hlist⟩ := ofJson_eq_ok h
        exact ⟨v, items, rfl, sourceFields_eq_ok_iff.mp hitems, areAmong_of_ofFields hlist⟩
  · rintro ⟨v, items, hv, hsource, hamong⟩
    simp only [hv, ofJson, hsource.sourceFields_eq, hamong.ofFields_eq]
    rfl

theorem ofDocument_eq_error_iff {d : String} {fault : SchemaFault} :
    ofDocument d = .error fault ↔ Fails d fault := by
  rw [ofDocument]
  constructor
  · intro h
    cases hv : Json.parse? d with
    | none =>
        obtain rfl : .notJson = fault := by simpa [hv] using h
        exact .notJson hv
    | some v =>
        simp only [hv, ofJson] at h
        rcases isSource_or_hasNoSource v with ⟨items, hsource⟩ | ⟨fault', hnone⟩
        · simp only [hsource.sourceFields_eq] at h
          cases hlist : ofFields items with
          | ok list => simp [hlist, Except.map] at h
          | error fault' =>
              obtain rfl : fault' = fault := by simpa [hlist, Except.map] using h
              obtain ⟨rfl, f, hf, hname⟩ := ofFields_eq_error_iff.mp hlist
              exact .unnamed hv hsource hf hname
        · obtain rfl : fault' = fault := by simpa [hnone.sourceFields_eq] using h
          exact .noSource hv hnone
  · intro h
    cases h with
    | notJson hv => simp only [hv]
    | noSource hv hnone => simp only [hv, ofJson, hnone.sourceFields_eq]
    | unnamed hv hsource hf hname =>
        have hlist := ofFields_eq_error_iff.mpr ⟨rfl, _, hf, hname⟩
        simp only [hv, ofJson, hsource.sourceFields_eq, hlist]
        rfl

/-- A document has columns exactly if it is JSON, holds a record to take them from and names all
fields of it, and the columns are then these fields without the flags. -/
theorem ofDocument_source (d : String) :
    (∀ c, ofDocument d = .ok c ↔
      ∃ v items, Json.parse? d = some v ∧ IsSource v items ∧ c.AreAmong items) ∧
    ∀ fault, ofDocument d = .error fault ↔ Fails d fault :=
  ⟨fun _ => ofDocument_eq_ok_iff, fun _ => ofDocument_eq_error_iff⟩

/-- The fields of a row: two columns, of which one has a flag and one has no type. -/
def nestedFields : List Json :=
  [.ofMembers [("name", .str "id"), ("type", .str "long")],
    .ofMembers [("name", .str "id_isMissing"), ("type", .str "boolean")],
    .ofMembers [("name", .str "note")]]

/-- Changes of the table. The row stands in a union of unions, after a record without fields and in
front of another record. -/
def nestedTable : Json :=
  .ofMembers [("type", .str "record"), ("name", .str "change"), ("fields", .arr [
    .ofMembers [("name", .str "table"), ("type", .str "string")],
    .ofMembers [("name", .str "before"), ("type", .arr [
      .arr [.str "null", .ofMembers [("type", .str "record")]],
      .arr [.arr [.ofMembers [("type", .str "record"), ("fields", .arr nestedFields)]],
        .ofMembers [("type", .str "record"), ("fields", .arr [])]]])],
    .ofMembers [("name", .str "before"), ("type", .str "string")]])]

theorem parse?_nestedTable : Json.parse? nestedTable.compress = some nestedTable := by
  simp only [Json.parse?, Json.compress, String.toList_ofList]
  decide +kernel

theorem isSource_nestedTable : IsSource nestedTable nestedFields := by
  have hrecord : IsRecord nestedTable _ := ⟨rfl, rfl⟩
  have hlist : ¬ListsColumns nestedTable := fun h => absurd h.name_eq (by decide +kernel)
  have hbare : ∀ fields, ¬IsRecord (.ofMembers [("type", .str "record")]) fields :=
    fun fields h => nomatch h.fields_eq
  have hnull : ∀ fields, ¬IsRecord (.str "null") fields := fun fields h => nomatch h.fields_eq
  refine .before hrecord hlist ⟨rfl, [_], [_], rfl, ?_⟩ rfl
    ⟨⟨nestedFields, rfl, rfl⟩, [_, _], [_], rfl, ?_⟩ ⟨rfl, rfl⟩
  · intro f hf
    rw [List.mem_singleton.mp hf]
    decide +kernel
  · rw [List.forall_mem_cons, List.forall_mem_singleton]
    exact ⟨fun ⟨fields, h⟩ => hnull fields h, fun ⟨fields, h⟩ => hbare fields h⟩

theorem ofDocument_source_nestedTable :
    ∃ c, ofDocument nestedTable.compress = .ok c ∧ c.names = ["id", "note"] := by
  obtain ⟨items, hitems⟩ : ∃ items, ofFields nestedFields = .ok items := ⟨_, rfl⟩
  refine ⟨⟨items⟩, ((ofDocument_source _).1 ⟨items⟩).mpr ?_, ?_⟩
  · exact ⟨nestedTable, nestedFields, parse?_nestedTable, isSource_nestedTable,
      areAmong_of_ofFields hitems⟩
  · obtain rfl := Except.ok.inj hitems
    rfl

end Columns

end ChangeCapture.Change
