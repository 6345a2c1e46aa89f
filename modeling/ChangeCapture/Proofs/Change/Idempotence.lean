import ChangeCapture.Change.Canonical
import ChangeCapture.Proofs.Change.Columns
import ChangeCapture.Proofs.Change.Documents
import ChangeCapture.Proofs.Change.Rows
import ChangeCapture.Proofs.Json.Equality
import ChangeCapture.Proofs.Json.RoundTrip

/-!
# Canonical documents

What the canonical document of a list of columns is read as: the same columns, except that each
double in a definition is the one that its own text is read as.
-/

namespace ChangeCapture

/-- The members of a record type come in the order of their names. -/
theorem Json.ofMembers_record (name : String) (items : List Json) :
    Json.ofMembers [("type", .str "record"), ("name", .str name), ("fields", .arr items)] =
      .obj [("fields", .arr items), ("name", .str name), ("type", .str "record")] := by
  have hname : "name" < "type" := by decide +kernel
  have hfields : "fields" < "name" := by decide +kernel
  simp only [Json.ofMembers, Keyed.ofList, List.foldl_cons, List.foldl_nil, Keyed.insert,
    String.reduceEq, if_false, hname, hfields, if_true]

namespace Change

open Json (IsReadable)

namespace Columns

/-! ## Definitions are readable -/

theorem isReadable_of_get? {depth : Nat} {v w : Json} {key : String}
    (h : IsReadable (depth + 1) v) (hw : v.get? key = some w) : IsReadable depth w := by
  obtain ⟨members, rfl⟩ := Json.exists_members_of_get? hw
  cases h with
  | obj sorted h => exact h (key, w) (Keyed.mem_of_get? hw)

theorem isReadable_of_recordFields? {depth : Nat} {v : Json} {fields : List Json}
    (h : IsReadable (depth + 2) v) (hfields : recordFields? v = some fields) :
    ∀ f ∈ fields, IsReadable depth f := by
  obtain ⟨members, rfl, -, hget⟩ := recordFields?_eq_some hfields
  cases isReadable_of_get? h hget with
  | arr h => exact h

mutual

theorem isReadable_of_firstRecord? : ∀ (type : Json) {depth : Nat} {fields : List Json},
    IsReadable (depth + 2) type → firstRecord? type = some fields →
    ∀ f ∈ fields, IsReadable depth f
  | .obj members, _, _, h, hfields => by
      rw [firstRecord?] at hfields
      exact isReadable_of_recordFields? h hfields
  | .arr branches, depth, _, h, hfields => by
      cases h with
      | arr h =>
          have hbranches := fun v hv => (h v hv).mono (Nat.le_succ (depth + 1))
          exact isReadable_of_firstRecordOf? branches hbranches hfields
  | .null, _, _, _, hfields | .bool _, _, _, _, hfields | .int _, _, _, _, hfields
  | .double _, _, _, _, hfields | .str _, _, _, _, hfields => nomatch hfields

theorem isReadable_of_firstRecordOf? : ∀ (branches : List Json) {depth : Nat}
    {fields : List Json}, (∀ v ∈ branches, IsReadable (depth + 2) v) →
    firstRecordOf? branches = some fields → ∀ f ∈ fields, IsReadable depth f
  | [], _, _, _, hfields => nomatch hfields
  | v :: rest, depth, fields, h, hfields => by
      obtain ⟨hv, hrest⟩ := List.forall_mem_cons.mp h
      rw [firstRecordOf?] at hfields
      split at hfields
      · next first hfirst =>
          obtain rfl := Option.some.inj hfields
          exact isReadable_of_firstRecord? v hv hfirst
      · exact isReadable_of_firstRecordOf? rest hrest hfields

end

theorem isReadable_of_sourceFields {depth : Nat} {v : Json} {items : List Json}
    (h : IsReadable (depth + 2) v) (hitems : sourceFields v = .ok items) :
    ∀ item ∈ items, IsReadable depth item := by
  cases hlist : isColumnList v with
  | true =>
      unfold sourceFields at hitems
      cases hfields : recordFields? v with
      | none => simp [hfields] at hitems
      | some fields =>
          obtain rfl : fields = items := by simpa [hfields, hlist] using hitems
          exact isReadable_of_recordFields? h hfields
  | false =>
      obtain ⟨fields, entry, type, hfields, hentry, htype, hfirst⟩ :=
        sourceFields_eq_ok hlist hitems
      have hread := isReadable_of_recordFields? h hfields entry (List.mem_of_find?_eq_some hentry)
      have htypeRead := isReadable_of_get? (hread.mono (Nat.le_succ depth)) htype
      exact isReadable_of_firstRecord? type (htypeRead.mono (Nat.le_add_right depth 2)) hfirst

end Columns

/-! ## The second reading -/

namespace Column

/-- A column with the doubles of its definition as they are read from their texts. -/
def reread? (c : Column) : Option Column :=
  c.definition.reread?.map fun f => ⟨c.name, (f.get? "type").getD .null, f⟩

theorem IsRead.of_reread? {c c' : Column} (h : c.IsRead) (hc' : c.reread? = some c') :
    c'.IsRead := by
  obtain ⟨f, hf, rfl⟩ := Option.map_eq_some_iff.mp hc'
  exact ⟨Json.text?_of_reread? hf h.name_eq, rfl, h.not_flag⟩

theorem name_of_reread? {c c' : Column} (h : c.reread? = some c') : c'.name = c.name := by
  obtain ⟨f, -, rfl⟩ := Option.map_eq_some_iff.mp h
  rfl

theorem IsRead.reread?_eq_self_iff {c : Column} (h : c.IsRead) :
    c.reread? = some c ↔ ∀ x ∈ c.definition.doubles, Json.IsStable x := by
  rw [← Json.reread?_eq_self_iff]
  constructor
  · intro hself
    obtain ⟨f, hf, heq⟩ := Option.map_eq_some_iff.mp hself
    rw [hf]
    exact congrArg (some ∘ Column.definition) heq
  · intro hself
    rw [reread?, hself, Option.map_some, ← h.type_eq]

end Column

namespace Columns

theorem toJson_eq (c : Columns) : c.toJson = .obj [("fields", .arr (c.list.map Column.definition)),
    ("name", .str columnsName), ("type", .str "record")] := Json.ofMembers_record _ _

theorem ofJson_toJson {c : Columns} (h : ∀ column ∈ c.list, column.IsRead) :
    ofJson c.toJson = .ok c := by
  have hsource : sourceFields c.toJson = .ok (c.list.map Column.definition) := by
    rw [toJson_eq]
    rfl
  rw [ofJson, hsource]
  dsimp only
  rw [ofFields_definitions h]
  rfl

theorem isReadable_toJson {c : Columns} {depth : Nat}
    (h : ∀ column ∈ c.list, IsReadable depth column.definition) :
    IsReadable (depth + 2) c.toJson := by
  have hfields : IsReadable (depth + 1) (.arr (c.list.map Column.definition)) := by
    refine .arr fun v hv => ?_
    obtain ⟨column, hcolumn, rfl⟩ := List.mem_map.mp hv
    exact h column hcolumn
  unfold toJson Json.ofMembers
  refine .obj (Keyed.isSorted_ofList _) fun p hp => ?_
  have hmem := Keyed.mem_ofList hp
  simp only [List.mem_cons, List.not_mem_nil, or_false] at hmem
  rcases hmem with rfl | rfl | rfl
  · exact .str _
  · exact .str _
  · exact hfields

/-- Columns with the doubles of their definitions as they are read from their texts. -/
def reread? : List Column → Option (List Column)
  | [] => some []
  | c :: rest =>
      match c.reread?, reread? rest with
      | some x, some xs => some (x :: xs)
      | _, _ => none

theorem of_reread? {list list' : List Column} (h : reread? list = some list')
    (hread : ∀ c ∈ list, c.IsRead) :
    (∀ c ∈ list', c.IsRead) ∧ list'.map Column.name = list.map Column.name := by
  induction list generalizing list' with
  | nil => exact Option.some.inj h ▸ ⟨List.forall_mem_nil _, rfl⟩
  | cons c rest ih =>
      obtain ⟨hc, hrest⟩ := List.forall_mem_cons.mp hread
      rw [reread?] at h
      split at h
      · next x xs hx hxs =>
          obtain rfl := Option.some.inj h
          obtain ⟨hread', hnames⟩ := ih hxs hrest
          refine ⟨List.forall_mem_cons.mpr ⟨hc.of_reread? hx, hread'⟩, ?_⟩
          rw [List.map_cons, List.map_cons, hnames, Column.name_of_reread? hx]
      · exact nomatch h

theorem reread?_eq_self_iff {list : List Column} :
    reread? list = some list ↔ ∀ c ∈ list, c.reread? = some c := by
  induction list with
  | nil => simp [reread?]
  | cons c rest ih =>
      rw [List.forall_mem_cons, ← ih, reread?]
      cases c.reread? <;> cases reread? rest <;> simp

theorem rereadItems?_definitions (list : List Column) :
    Json.rereadItems? (list.map Column.definition) =
      (reread? list).map (List.map Column.definition) := by
  induction list with
  | nil => rfl
  | cons c rest ih =>
      have hc : c.definition.reread? = c.reread?.map Column.definition := by
        unfold Column.reread?
        cases c.definition.reread? <;> rfl
      rw [List.map_cons, Json.rereadItems?, reread?, ih, hc]
      cases c.reread? <;> cases reread? rest <;> rfl

theorem reread?_toJson (c : Columns) :
    c.toJson.reread? = (reread? c.list).map fun list => toJson ⟨list⟩ := by
  simp only [toJson_eq, Json.reread?, Json.rereadMembers?, rereadItems?_definitions]
  cases reread? c.list <;> rfl

theorem exists_parse?_of_ofDocument {d : String} {c : Columns} (h : ofDocument d = .ok c) :
    ∃ v, Json.parse? d = some v ∧ ofJson v = .ok c := by
  unfold ofDocument at h
  split at h
  · exact nomatch h
  · next v hv => exact ⟨v, hv, h⟩

theorem isRead_of_ofDocument {d : String} {c : Columns} (h : ofDocument d = .ok c) :
    ∀ column ∈ c.list, column.IsRead := by
  obtain ⟨v, -, hjson⟩ := exists_parse?_of_ofDocument h
  obtain ⟨items, -, hlist⟩ := ofJson_eq_ok hjson
  exact fun column hcolumn => (isRead_of_ofFields hlist column hcolumn).1

theorem isReadable_of_ofDocument {d : String} {c : Columns} (h : ofDocument d = .ok c) :
    IsReadable Json.depthLimit c.toJson := by
  obtain ⟨v, hv, hjson⟩ := exists_parse?_of_ofDocument h
  obtain ⟨items, hitems, hlist⟩ := ofJson_eq_ok hjson
  have hreadable := isReadable_of_sourceFields (Json.isReadable_of_readWithin? hv) hitems
  exact isReadable_toJson fun column hcolumn =>
    hreadable column.definition (isRead_of_ofFields hlist column hcolumn).2

/-- The canonical document of columns that were read is read as the same columns, each of them with
the doubles that the texts of its own are read as. If one of these texts is none, nor is the
document. -/
theorem ofDocument_document {d : String} {c : Columns} (h : ofDocument d = .ok c) :
    ofDocument c.document = match reread? c.list with
      | none => .error .notJson
      | some list => .ok ⟨list⟩ := by
  unfold ofDocument document
  rw [Json.parse?_compress (isReadable_of_ofDocument h), reread?_toJson]
  cases hlist : reread? c.list with
  | none => rfl
  | some list => exact ofJson_toJson (of_reread? hlist (isRead_of_ofDocument h)).1

/-- Columns are read back from their canonical document exactly if all doubles in their definitions
are read back from their texts. Their names never change. -/
theorem ofDocument_document_eq_iff {d : String} {c : Columns} (h : ofDocument d = .ok c) :
    (ofDocument c.document = .ok c ↔
      ∀ column ∈ c.list, ∀ x ∈ column.definition.doubles, Json.IsStable x) ∧
    ∀ c', ofDocument c.document = .ok c' → c'.names = c.names := by
  have hread := isRead_of_ofDocument h
  have hstable : reread? c.list = some c.list ↔
      ∀ column ∈ c.list, ∀ x ∈ column.definition.doubles, Json.IsStable x := by
    rw [reread?_eq_self_iff]
    exact forall₂_congr fun column hcolumn => (hread column hcolumn).reread?_eq_self_iff
  rw [ofDocument_document h, ← hstable]
  cases hlist : reread? c.list with
  | none =>
      refine ⟨⟨fun heq => ?_, fun heq => ?_⟩, fun c' heq => ?_⟩
      · exact nomatch heq
      · exact nomatch heq
      · exact nomatch heq
  | some list =>
      refine ⟨⟨fun heq => ?_, fun heq => ?_⟩, fun c' heq => ?_⟩
      · exact congrArg (some ∘ Columns.list) (Except.ok.inj heq)
      · exact congrArg (Except.ok ∘ Columns.mk) (Option.some.inj heq)
      · exact Except.ok.inj heq ▸ (of_reread? hlist hread).2

/-- A table with one column, which has a default. -/
def limitTable (limit : Float) : Json :=
  .ofMembers [("type", .str "record"), ("name", .str columnsName), ("fields", .arr [
    .ofMembers [("name", .str "limit"), ("type", .str "double"), ("default", .double limit)]])]

theorem ofDocument_document_eq_iff_half : ∃ c, ofDocument (limitTable 0.5).compress = .ok c ∧
    ofDocument c.document = .ok c := by
  have hdoubles : (ofDocument (limitTable 0.5).compress).toOption.map (fun c =>
      c.list.map fun column => column.definition.doubles) = some [[0.5]] := by
    decide +kernel
  obtain ⟨c, hc, hdoubles⟩ := Option.map_eq_some_iff.mp hdoubles
  have hcolumns := eq_ok_of_toOption hc
  refine ⟨c, hcolumns, (ofDocument_document_eq_iff hcolumns).1.mpr fun column hcolumn x hx => ?_⟩
  have hmem : column.definition.doubles ∈ [[(0.5 : Float)]] :=
    hdoubles ▸ List.mem_map_of_mem hcolumn
  rw [List.mem_singleton.mp hmem] at hx
  obtain rfl := List.mem_singleton.mp hx
  unfold Json.IsStable
  decide +kernel

/-- The double nearest to `5e32` is read from its text as the next one, and that one as it. -/
theorem ofDocument_document_limitTable : ∃ c, ofDocument (limitTable 5e32).compress = .ok c ∧
    ofDocument c.document ≠ .ok c ∧ normalizeSchema c.document ≠ .ok c.document := by
  have honce : (normalizeSchema (limitTable 5e32).compress).toOption =
      some (limitTable 5.0000000000000004e32).compress := by decide +kernel
  have htwice : (normalizeSchema (limitTable 5.0000000000000004e32).compress).toOption =
      some (limitTable 5e32).compress := by decide +kernel
  have hdiffer : (limitTable 5e32).compress ≠ (limitTable 5.0000000000000004e32).compress := by
    decide +kernel
  have hnormalize := eq_ok_of_toOption honce
  unfold normalizeSchema at hnormalize
  cases hcolumns : ofDocument (limitTable 5e32).compress with
  | error fault =>
      rw [hcolumns] at hnormalize
      exact nomatch hnormalize
  | ok c =>
      rw [hcolumns] at hnormalize
      have hdocument : c.document = (limitTable 5.0000000000000004e32).compress :=
        Except.ok.inj hnormalize
      have hsecond : normalizeSchema c.document ≠ .ok c.document := by
        rw [hdocument, eq_ok_of_toOption htwice]
        exact fun heq => hdiffer (Except.ok.inj heq)
      refine ⟨c, rfl, fun hsame => hsecond ?_, hsecond⟩
      unfold normalizeSchema
      rw [hsame]
      rfl

end Columns

end Change

end ChangeCapture
