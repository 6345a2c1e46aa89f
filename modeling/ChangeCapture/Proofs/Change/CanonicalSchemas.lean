import ChangeCapture.Proofs.Avro.SelfContained
import ChangeCapture.Proofs.Change.Idempotence
import ChangeCapture.Proofs.Change.Sources
import ChangeCapture.Proofs.Change.WrappedRows

/-!
# Canonical documents as schemas

The canonical document of a schema is cut out of it. It is a schema in its own right exactly if it
means no types but those that it defines.
-/

namespace ChangeCapture.Change

open Avro (Schema Name)
open Avro.Declaration (IsSelfContained IsInFull IsRecordOf mentions name? aliases?
  isSelfContained_near isSelfContained_of_ofJson? exists_ofJson?_of_isRecordOf)

namespace Columns

theorem doubles_toJson {c : Columns} {x : Float} (h : x ∈ c.toJson.doubles) :
    ∃ column ∈ c.list, x ∈ column.definition.doubles := by
  rw [toJson_eq] at h
  have hitems : x ∈ Json.itemDoubles (c.list.map Column.definition) := by
    simpa only [Json.doubles, Json.memberDoubles, List.append_nil] using h
  obtain ⟨v, hv, hx⟩ := Json.mem_itemDoubles hitems
  obtain ⟨column, hcolumn, rfl⟩ := List.mem_map.mp hv
  exact ⟨column, hcolumn, hx⟩

end Columns

/-- A written union and what it was read as, with the record that stands in the place of the first
one that is written. -/
inductive IsFirstBranch : Json → Schema → Name → List (Avro.Field Schema) → Prop
  | mk {front back items : List Json} {record : Json} {branches : List Schema} {row : Name}
      {declared : List (Avro.Field Schema)}
      (hfront : ∀ v ∈ front, ∀ t ∈ Columns.alternatives v, ∀ fields, ¬ Columns.IsRecord t fields)
      (hitems : Columns.IsRecord record items)
      (hrow : branches[front.length]? = some (.record row declared)) :
      IsFirstBranch (.arr (front ++ record :: back)) (.union branches) row declared

theorem IsFirstBranch.kind {type : Json} {s : Schema} {row : Name}
    {declared : List (Avro.Field Schema)} (h : IsFirstBranch type s row declared) :
    s.kind ∈ [.record, .union] := by
  cases h
  simp [Schema.kind]

theorem IsFirstBranch.isRecordOf {type : Json} {s : Schema} {row : Name}
    {declared : List (Avro.Field Schema)} (h : IsFirstBranch type s row declared)
    {items : List Json} (hfirst : Columns.firstRecord? type = some items) {budget fuel : Nat}
    {space : Option String} {scope scope' : Avro.Scope}
    (hread : Avro.Declaration.read? budget fuel space scope type = some (s, scope')) :
    IsRecordOf budget (fuel - 1 - 1) items row declared := by
  obtain ⟨hfront, hrecord, hrow⟩ := h
  rw [Columns.firstRecord?, Columns.firstRecordOf?_append fun v hv =>
    Columns.firstRecord?_eq_none_iff.mpr (hfront v hv)] at hfirst
  obtain ⟨members, rfl⟩ := Json.exists_members_of_get? hrecord.fields_eq
  have hfields := Columns.recordFields?_eq_some_iff.mpr hrecord
  rw [← Columns.firstRecord?] at hfields
  rw [Columns.firstRecordOf?, hfields] at hfirst
  obtain rfl := Option.some.inj hfirst
  exact Columns.isRecordOf_of_branch hfields hread hrow

namespace CachedSchema

/-- The record whose fields are the columns: the schema itself if its document is a list of columns
already, otherwise the type of its field `before`, or the first record of several in that type. A
record that is written with a mark is none: such an object is read as a reference, and no type is
declared by its fields. -/
inductive HasRow (cached : CachedSchema) : Name → List (Avro.Field Schema) → Prop
  | columns {v : Json} {row : Name} {declared : List (Avro.Field Schema)}
      (hv : Json.parse? cached.document = some v) (hlist : Columns.isColumnList v = true)
      (havro : cached.avro = .record row declared) : HasRow cached row declared
  | before {v : Json} {name row : Name} {fields declared : List (Avro.Field Schema)}
      {before : Avro.Field Schema} (hv : Json.parse? cached.document = some v)
      (hlist : Columns.isColumnList v = false)
      (hbefore : cached.avro.HasBefore name row fields declared before) : HasRow cached row declared
  | branch {v entry type : Json} {entries : List Json} {name row : Name}
      {fields declared : List (Avro.Field Schema)} {before : Avro.Field Schema}
      (hv : Json.parse? cached.document = some v) (hlist : Columns.isColumnList v = false)
      (hentries : Columns.IsRecord v entries) (hentry : Columns.IsBefore entry entries)
      (htype : entry.get? "type" = some type) (havro : cached.avro = .record name fields)
      (hbefore : before ∈ fields) (hname : before.name = beforeField)
      (hfirst : IsFirstBranch type before.type row declared) : HasRow cached row declared

/-- A record whose fields the columns are, which the entries that they are taken from declare. -/
def DeclaresRow (cached : CachedSchema) (row : Name)
    (declared : List (Avro.Field Schema)) : Prop :=
  ∃ items budget fuel, Columns.ofFields items = .ok cached.columns.list ∧ fuel ≤ budget ∧
    IsRecordOf budget fuel items row declared

variable {fingerprint : Fingerprint} {document : String} {cached : CachedSchema} {row : Name}
  {declared : List (Avro.Field Schema)}

theorem HasRow.declaresRow (h : cached.HasRow row declared)
    (hparse : parse fingerprint document = .ok cached) : cached.DeclaresRow row declared := by
  obtain ⟨v, hv, havro, hcolumns, -, rfl⟩ := parse_eq_ok_iff.mp hparse
  cases h with
  | @columns w _ _ hw hlist hrecord =>
      obtain rfl := Option.some.inj (hv.symm.trans hw)
      obtain ⟨items, hsource, hitems⟩ := Columns.ofJson_eq_ok hcolumns
      have hfields : Columns.recordFields? v = some items := by
        unfold Columns.sourceFields at hsource
        split at hsource
        · exact nomatch hsource
        · next fields hfields =>
            rw [if_pos hlist] at hsource
            exact Except.ok.inj hsource ▸ hfields
      rw [hrecord] at havro
      obtain ⟨budget, fuel, hbudget, hrow⟩ := Columns.isRecordOf_of_ofJson? hfields havro
      exact ⟨items, budget, fuel, hitems, hbudget, hrow⟩
  | @before w _ _ _ _ _ hw hlist hbefore =>
      obtain rfl := Option.some.inj (hv.symm.trans hw)
      rw [hbefore.eq_record] at havro
      exact Columns.isRecordOf_of_before hlist hcolumns havro hbefore.before_mem
        hbefore.before_name hbefore.before_type
  | @branch w _ _ _ _ _ _ _ _ hw hlist hentries hentry htype hrecord hbefore hname hbranch =>
      obtain rfl := Option.some.inj (hv.symm.trans hw)
      rw [hrecord] at havro
      obtain ⟨entries', entry', type', items, hentries', hentry', htype', hfirst, hitems, budget,
          fuel, scope, scope', hbudget, hread⟩ :=
        Columns.exists_read_before hlist hcolumns havro hbefore hname hbranch.kind
      -- The type that is written for `before` is the one that was read.
      obtain rfl := Option.some.inj
        ((Columns.recordFields?_eq_some_iff.mpr hentries).symm.trans hentries')
      obtain rfl := Option.some.inj
        ((Columns.find?_before_eq_some_iff.mpr hentry).symm.trans hentry')
      obtain rfl := Option.some.inj (htype.symm.trans htype')
      exact ⟨items, budget, _, hitems,
        Nat.le_trans (Nat.sub_le _ 1) (Nat.le_trans (Nat.sub_le _ 1) hbudget),
        hbranch.isRecordOf hfirst hread⟩

theorem exists_near_columns (hparse : parse fingerprint document = .ok cached)
    (hdoubles : ∀ column ∈ cached.columns.list, ∀ x ∈ column.definition.doubles,
      Json.StaysDouble x) :
    ∃ w, Json.parse? cached.columns.document = some w ∧ cached.columns.toJson.Near w := by
  obtain ⟨v, hv, -, hcolumns, -, -⟩ := parse_eq_ok_iff.mp hparse
  have hdocument : Columns.ofDocument document = .ok cached.columns := by
    unfold Columns.ofDocument
    rw [hv]
    exact hcolumns
  obtain ⟨w, hw, hnear⟩ := Json.exists_reread? cached.columns.toJson fun x hx => by
    obtain ⟨column, hcolumn, hx⟩ := Columns.doubles_toJson hx
    exact hdoubles column hcolumn x hx
  refine ⟨w, ?_, hnear⟩
  rw [Columns.document, Json.parse?_compress (Columns.isReadable_of_ofDocument hdocument)]
  exact hw

/-- The canonical document is a schema exactly if it means no types but those that it defines, as
long as the record of its columns is written without a mark, its types are written in full, its
defaults suit their fields whatever is defined around them, and the texts of its doubles are read as
doubles. The records of its rows carry it. -/
theorem isSome_parse?_document_iff (hparse : parse fingerprint document = .ok cached)
    (hrow : cached.HasRow row declared)
    (hsettled : (Schema.record row (declared.filter fun f => !isMissingFlag f.name)).IsSettled)
    (hdoubles : ∀ column ∈ cached.columns.list, ∀ x ∈ column.definition.doubles,
      Json.StaysDouble x)
    (hfull : IsInFull cached.columns.toJson) :
    ((Schema.parse? cached.columns.document).isSome ↔ IsSelfContained cached.columns.toJson) ∧
      ∀ change strict record, normalizeRow change cached.columns strict = .ok record →
        record.schema = cached.columns.document := by
  obtain ⟨w, hw, hnear⟩ := exists_near_columns hparse hdoubles
  obtain ⟨items, budget, fuel, hitems, hbudget, hrecord⟩ := hrow.declaresRow hparse
  have hkept : IsRecordOf budget fuel (items.filter Columns.isColumn) row
      (declared.filter fun f => !isMissingFlag f.name) :=
    hrecord.filter (q := fun name => !isMissingFlag name) fun entry name hname => by
      rw [Columns.isColumn, hname]
      rfl
  rw [← Columns.definitions_eq hitems] at hkept
  refine ⟨?_, fun change strict record hnormalize => (eq_of_normalizeRow hnormalize).1⟩
  rw [Schema.parse?, hw, Option.bind_some]
  constructor
  · intro hsome
    obtain ⟨s, hs⟩ := Option.isSome_iff_exists.mp hsome
    exact (isSelfContained_near hnear).mpr (isSelfContained_of_ofJson? hs)
  · intro hclosed
    have hname : name? none cached.columns.toJson = some ⟨columnsName, none⟩ := by
      rw [Columns.toJson_eq]
      rfl
    have haliases : aliases? ⟨columnsName, none⟩ cached.columns.toJson =
        some [] := by
      rw [Columns.toJson_eq]
      rfl
    obtain ⟨t, ht⟩ := exists_ofJson?_of_isRecordOf hnear
      (by rw [Columns.toJson_eq]; rfl) (by rw [Columns.toJson_eq]; rfl) hname haliases
      (by rw [Columns.toJson_eq]; rfl) hkept hbudget hsettled hclosed hfull
    rw [ht]
    rfl

/-! ## Colors -/

/-- The definition of the type `color`. -/
def colors : Json :=
  .ofMembers [("type", .str "enum"), ("name", .str "color"), ("symbols", .arr [.str "R"])]

def colorSchema : Schema := .enumeration ⟨"color", none⟩ ["R"] none

/-- A column that defines the type `color`. -/
def shadeColumn : Json :=
  .ofMembers [("name", .str "shade"), ("type", colors), ("default", .str "R")]

def shadeField : Avro.Field Schema := ⟨"shade", colorSchema, some (.str "R")⟩

/-- A column that means the type `color`. -/
def toneColumn : Json := .ofMembers [("name", .str "tone"), ("type", .str "color")]

def toneField : Avro.Field Schema := ⟨"tone", .ref ⟨"color", none⟩, none⟩

def colorColumns : Columns := ⟨[⟨"shade", colors, shadeColumn⟩, ⟨"tone", .str "color", toneColumn⟩]⟩

/-- A record of columns, as it is written. -/
def rowOf (name : String) (columns : List Json) : Json :=
  .ofMembers [("type", .str "record"), ("name", .str name), ("fields", .arr columns)]

def colorRow : Json := rowOf "row" [shadeColumn, toneColumn]

def colorRecord : Schema := .record ⟨"row", none⟩ [shadeField, toneField]

def toneRow (name : String) : Json := rowOf name [toneColumn]

def toneRecord (name : String) : Schema := .record ⟨name, none⟩ [toneField]

/-- Changes of a table whose rows are any of the given records, with a field `kind` beside them. -/
def colorTable (kind : Json) (rows : List Json) : Json :=
  .ofMembers [("type", .str "record"), ("name", .str "change"), ("fields", .arr [
    .ofMembers [("name", .str "table"), ("type", .str "string")],
    .ofMembers [("name", .str "op_type"), ("type", .str "string")],
    .ofMembers [("name", .str "kind"), ("type", kind)],
    .ofMembers [("name", .str "before"), ("type", .arr (.str "null" :: rows))]])]

def colorImages (rows : List Schema) : Avro.Field Schema := ⟨"before", .union (.null :: rows), none⟩

def colorFields (kind : Schema) (rows : List Schema) : List (Avro.Field Schema) :=
  [⟨"table", .string, none⟩, ⟨"op_type", .string, none⟩, ⟨"kind", kind, none⟩, colorImages rows]

/-- What these changes are read as. -/
def colorChange (kind : Schema) (rows : List Schema) : Schema :=
  .record ⟨"change", none⟩ (colorFields kind rows)

theorem colorImages_mem (kind : Schema) (rows : List Schema) :
    colorImages rows ∈ colorFields kind rows := by
  simp [colorFields]

theorem isSettled_colors : (Schema.record ⟨"row", none⟩
    ([shadeField, toneField].filter fun f => !isMissingFlag f.name)).IsSettled := by
  have hflags : isMissingFlag "shade" = false ∧ isMissingFlag "tone" = false := by decide +kernel
  have hkept : [shadeField, toneField].filter (fun f => !isMissingFlag f.name) =
      [shadeField, toneField] := by
    simp [shadeField, toneField, hflags]
  have hcolor : colorSchema.StandsAlone :=
    ⟨by simp [colorSchema, Schema.parts, Schema.kind],
      by simp [colorSchema, Schema.labels, Schema.parts, Schema.label?]⟩
  rw [hkept]
  intro name fields hmem f hf d hd
  have hparts : colorRecord.parts = [colorRecord, colorSchema, .ref ⟨"color", none⟩] := rfl
  change .record name fields ∈ colorRecord.parts at hmem
  rw [hparts] at hmem
  obtain ⟨-, rfl⟩ : name = ⟨"row", none⟩ ∧ fields = [shadeField, toneField] := by
    simpa [colorRecord, colorSchema] using hmem
  rcases List.mem_pair.mp hf with rfl | rfl
  · exact Or.inr hcolor
  · simp [toneField] at hd

theorem mentions_colorColumns : mentions colorColumns.toJson.height none colorColumns.toJson =
    [.defines [⟨"columns", none⟩], .defines [⟨"color", none⟩], .refers ⟨"color", none⟩] := by
  decide +kernel

theorem isInFull_colorColumns : IsInFull colorColumns.toJson := by
  intro name
  rw [mentions_colorColumns]
  simp

theorem isSelfContained_colorColumns : IsSelfContained colorColumns.toJson := by
  rw [IsSelfContained, mentions_colorColumns]
  decide

theorem staysDouble_colorColumns :
    ∀ column ∈ colorColumns.list, ∀ x ∈ column.definition.doubles, Json.StaysDouble x := by
  have hdoubles : ∀ column ∈ colorColumns.list, column.definition.doubles = [] := by decide +kernel
  intro column hcolumn x hx
  rw [hdoubles column hcolumn] at hx
  exact absurd hx List.not_mem_nil

/-- One column defines the type that the other one means, in the only record of the rows or in the
first one. -/
theorem isSome_parse?_document_colors :
    (∃ cached, parse ⟨0⟩ (colorTable (.str "string") [colorRow]).compress = .ok cached ∧
      (Schema.parse? cached.columns.document).isSome) ∧
    ∃ cached,
      parse ⟨0⟩ (colorTable (.str "string") [colorRow, toneRow "old"]).compress = .ok cached ∧
      (Schema.parse? cached.columns.document).isSome := by
  constructor
  · have hv : Json.parse? (colorTable (.str "string") [colorRow]).compress =
        some (colorTable (.str "string") [colorRow]) := by
      simp only [Json.parse?, Json.compress, String.toList_ofList]
      decide +kernel
    have hparse : parse ⟨0⟩ (colorTable (.str "string") [colorRow]).compress =
        .ok ⟨⟨0⟩, _, colorChange .string [colorRecord], colorColumns⟩ :=
      parse_eq_ok_iff.mpr ⟨_, hv, rfl, rfl, rfl, rfl⟩
    have hbefore : (colorChange .string [colorRecord]).HasBefore ⟨"change", none⟩ ⟨"row", none⟩
        (colorFields .string [colorRecord]) [shadeField, toneField] (colorImages [colorRecord]) :=
      ⟨rfl, colorImages_mem _ _, rfl, rfl⟩
    exact ⟨_, hparse, (isSome_parse?_document_iff hparse (.before hv rfl hbefore) isSettled_colors
      staysDouble_colorColumns isInFull_colorColumns).1.mpr isSelfContained_colorColumns⟩
  · have hv : Json.parse? (colorTable (.str "string") [colorRow, toneRow "old"]).compress =
        some (colorTable (.str "string") [colorRow, toneRow "old"]) := by
      simp only [Json.parse?, Json.compress, String.toList_ofList]
      decide +kernel
    have hparse : parse ⟨0⟩ (colorTable (.str "string") [colorRow, toneRow "old"]).compress =
        .ok ⟨⟨0⟩, _, colorChange .string [colorRecord, toneRecord "old"], colorColumns⟩ :=
      parse_eq_ok_iff.mpr ⟨_, hv, rfl, rfl, rfl, rfl⟩
    have hentries : Columns.IsRecord (colorTable (.str "string") [colorRow, toneRow "old"]) _ :=
      ⟨rfl, rfl⟩
    have hfirst : IsFirstBranch (.arr ([.str "null"] ++ colorRow :: [toneRow "old"]))
        (.union [.null, colorRecord, toneRecord "old"]) ⟨"row", none⟩ [shadeField, toneField] := by
      refine .mk ?_ ⟨rfl, rfl⟩ rfl
      rintro v hv t ht fields ⟨htype, -⟩
      obtain rfl := List.mem_singleton.mp hv
      obtain rfl := List.mem_singleton.mp ht
      cases htype
    exact ⟨_, hparse, (isSome_parse?_document_iff hparse
      (.branch hv rfl hentries (Columns.find?_before_eq_some_iff.mp rfl) rfl rfl
        (colorImages_mem _ _) rfl hfirst)
      isSettled_colors staysDouble_colorColumns isInFull_colorColumns).1.mpr
        isSelfContained_colorColumns⟩

/-- Here the column means a type that another field of the change defines. -/
theorem parse?_document_colors : ∃ cached,
    parse ⟨0⟩ (colorTable colors [toneRow "row"]).compress = .ok cached ∧
      Schema.parse? cached.columns.document = none := by
  have hv : Json.parse? (colorTable colors [toneRow "row"]).compress =
      some (colorTable colors [toneRow "row"]) := by
    simp only [Json.parse?, Json.compress, String.toList_ofList]
    decide +kernel
  have hparse : parse ⟨0⟩ (colorTable colors [toneRow "row"]).compress =
      .ok ⟨⟨0⟩, _, colorChange colorSchema [toneRecord "row"],
        ⟨[⟨"tone", .str "color", toneColumn⟩]⟩⟩ :=
    parse_eq_ok_iff.mpr ⟨_, hv, rfl, rfl, rfl, rfl⟩
  have hunknown :
      (Schema.parse? (Columns.document ⟨[⟨"tone", .str "color", toneColumn⟩]⟩)).isNone := by
    decide +kernel
  exact ⟨_, hparse, Option.isNone_iff_eq_none.mp hunknown⟩

end CachedSchema

end ChangeCapture.Change
