import ChangeCapture.Proofs.Avro.Decimals
import ChangeCapture.Proofs.Avro.TypedValues

/-!
# Decimals within values

The scale of a column's type is that of the decimal in the column. A decimal that stands deeper, in
an array, a map or a record, has a scale that its own type declares, and that is not looked for: it
is shown without a point.
-/

namespace ChangeCapture

/-! ## Positions -/

namespace Json

/-- A step from an array or an object to one of its parts. -/
inductive Step
  | item (i : Nat)
  | member (key : String)
  deriving DecidableEq

def part? : Json → Step → Option Json
  | .arr items, .item i => items[i]?
  | .obj members, .member key => Keyed.get? key members
  | _, _ => none

/-- The value at a position, which is given by the steps to it. -/
def at? : Json → List Step → Option Json
  | v, [] => some v
  | v, step :: position => (v.part? step).bind fun w => w.at? position

end Json

namespace Avro

/-- A value has a decimal at a position. Unions take no step. -/
inductive Value.HasAt (d : Decimal) : Value → List Json.Step → Prop
  | here : HasAt d (.decimal d) []
  | union {i : Nat} {v : Value} {position : List Json.Step} (h : HasAt d v position) :
      HasAt d (.union i v) position
  | item {items : List Value} {i : Nat} {v : Value} {position : List Json.Step}
      (hv : items[i]? = some v) (h : HasAt d v position) :
      HasAt d (.array items) (.item i :: position)
  | entry {entries : List (String × Value)} {key : String} {v : Value}
      {position : List Json.Step} (hv : (key, v) ∈ entries) (h : HasAt d v position) :
      HasAt d (.map entries) (.member key :: position)
  | field {values : List (String × Value)} {key : String} {v : Value}
      {position : List Json.Step} (hv : (key, v) ∈ values) (h : HasAt d v position) :
      HasAt d (.record values) (.member key :: position)

/-- A value of a type has a decimal at a position, and the type declares a scale there. -/
inductive DecimalAt (defs : Definitions) (d : Decimal) (scale : Nat) :
    Option String → Schema → Value → List Json.Step → Prop
  | here {space : Option String} {inner : Schema} {precision : Nat} :
      DecimalAt defs d scale space (.decimal inner precision scale) (.decimal d) []
  | union {space : Option String} {branches : List Schema} {i : Nat} {s : Schema} {v : Value}
      {position : List Json.Step} (hs : branches[i]? = some s)
      (h : DecimalAt defs d scale space s v position) :
      DecimalAt defs d scale space (.union branches) (.union i v) position
  | item {space : Option String} {s : Schema} {items : List Value} {i : Nat} {v : Value}
      {position : List Json.Step} (hv : items[i]? = some v)
      (h : DecimalAt defs d scale space s v position) :
      DecimalAt defs d scale space (.array s) (.array items) (.item i :: position)
  | entry {space : Option String} {s : Schema} {entries : List (String × Value)} {key : String}
      {v : Value} {position : List Json.Step} (hv : (key, v) ∈ entries)
      (h : DecimalAt defs d scale space s v position) :
      DecimalAt defs d scale space (.map s) (.map entries) (.member key :: position)
  | field {space : Option String} {name : Name} {fields : List (Field Schema)}
      {values : List (String × Value)} {f : Field Schema} {v : Value}
      {position : List Json.Step} (hf : f ∈ fields) (hv : (f.name, v) ∈ values)
      (h : DecimalAt defs d scale (name.within space).space f.type v position) :
      DecimalAt defs d scale space (.record name fields) (.record values)
        (.member f.name :: position)
  | ref {space : Option String} {name : Name} {s : Schema} {v : Value}
      {position : List Json.Step} (hs : defs.lookup (name.within space) = some s)
      (h : DecimalAt defs d scale (name.within space).space s v position) :
      DecimalAt defs d scale space (.ref name) v position

namespace Value

/-! ## Values as JSON -/

theorem itemsToJson?_cons_eq_ok {v : Value} {rest : List Value} {xs : List Json} :
    itemsToJson? (v :: rest) = .ok xs ↔
      ∃ y ys, v.toJson? = .ok y ∧ itemsToJson? rest = .ok ys ∧ y :: ys = xs := by
  rw [itemsToJson?]
  cases v.toJson? with
  | error fault => simp
  | ok y => cases itemsToJson? rest <;> simp

theorem membersToJson?_cons_eq_ok {e : String × Value} {rest : List (String × Value)}
    {xs : List (String × Json)} :
    membersToJson? (e :: rest) = .ok xs ↔
      ∃ y ys, e.2.toJson? = .ok y ∧ membersToJson? rest = .ok ys ∧ (e.1, y) :: ys = xs := by
  rw [membersToJson?]
  cases e.2.toJson? with
  | error fault => simp
  | ok y => cases membersToJson? rest <;> simp

theorem toJson?_array_eq_ok {items : List Value} {x : Json} :
    (array items).toJson? = .ok x ↔ ∃ xs, itemsToJson? items = .ok xs ∧ .arr xs = x := by
  rw [toJson?]
  cases itemsToJson? items <;> simp

theorem toJson?_map_eq_ok {entries : List (String × Value)} {x : Json} :
    (map entries).toJson? = .ok x ↔ ∃ xs, membersToJson? entries = .ok xs ∧ .ofMembers xs = x := by
  rw [toJson?]
  cases membersToJson? entries <;> simp

theorem toJson?_record_eq_ok {values : List (String × Value)} {x : Json} :
    (record values).toJson? = .ok x ↔ ∃ xs, membersToJson? values = .ok xs ∧ .ofMembers xs = x :=
  toJson?_map_eq_ok

theorem itemsToJson?_getElem? {items : List Value} {xs : List Json}
    (h : itemsToJson? items = .ok xs) {i : Nat} {v : Value} (hv : items[i]? = some v) :
    ∃ x, v.toJson? = .ok x ∧ xs[i]? = some x := by
  induction items generalizing xs i with
  | nil => exact nomatch hv
  | cons w rest ih =>
      obtain ⟨y, ys, hw, hrest, rfl⟩ := itemsToJson?_cons_eq_ok.mp h
      cases i with
      | zero =>
          obtain rfl := Option.some.inj hv
          exact ⟨y, hw, rfl⟩
      | succ i => exact ih hrest hv

theorem itemsToJson?_isOk {items : List Value} (h : ∀ v ∈ items, ∃ x, v.toJson? = .ok x) :
    ∃ xs, itemsToJson? items = .ok xs := by
  induction items with
  | nil => exact ⟨[], rfl⟩
  | cons v rest ih =>
      obtain ⟨⟨x, hx⟩, hrest⟩ := List.forall_mem_cons.mp h
      obtain ⟨xs, hxs⟩ := ih hrest
      exact ⟨x :: xs, itemsToJson?_cons_eq_ok.mpr ⟨x, xs, hx, hxs, rfl⟩⟩

theorem membersToJson?_eq_ok {entries : List (String × Value)} {xs : List (String × Json)}
    (h : membersToJson? entries = .ok xs) : xs.map Prod.fst = entries.map Prod.fst ∧
      ∀ e ∈ entries, ∃ x, e.2.toJson? = .ok x ∧ (e.1, x) ∈ xs := by
  induction entries generalizing xs with
  | nil =>
      obtain rfl : [] = xs := Except.ok.inj h
      exact ⟨rfl, List.forall_mem_nil _⟩
  | cons e rest ih =>
      obtain ⟨y, ys, he, hrest, rfl⟩ := membersToJson?_cons_eq_ok.mp h
      obtain ⟨hkeys, hmem⟩ := ih hrest
      refine ⟨by rw [List.map_cons, List.map_cons, hkeys], ?_⟩
      rw [List.forall_mem_cons]
      refine ⟨⟨y, he, List.mem_cons_self⟩, fun d hd => ?_⟩
      obtain ⟨x, hx, hxs⟩ := hmem d hd
      exact ⟨x, hx, List.mem_cons_of_mem _ hxs⟩

theorem membersToJson?_isOk {entries : List (String × Value)}
    (h : ∀ e ∈ entries, ∃ x, e.2.toJson? = .ok x) : ∃ xs, membersToJson? entries = .ok xs := by
  induction entries with
  | nil => exact ⟨[], rfl⟩
  | cons e rest ih =>
      obtain ⟨⟨x, hx⟩, hrest⟩ := List.forall_mem_cons.mp h
      obtain ⟨xs, hxs⟩ := ih hrest
      exact ⟨(e.1, x) :: xs, membersToJson?_cons_eq_ok.mpr ⟨x, xs, hx, hxs, rfl⟩⟩

/-- Of entries with distinct keys each is a member of the object. -/
theorem membersToJson?_get? {entries : List (String × Value)} {xs : List (String × Json)}
    (hdistinct : (entries.map Prod.fst).Nodup) (h : membersToJson? entries = .ok xs)
    {key : String} {v : Value} (hv : (key, v) ∈ entries) :
    ∃ x, v.toJson? = .ok x ∧ (Json.ofMembers xs).part? (.member key) = some x := by
  obtain ⟨hkeys, hmem⟩ := membersToJson?_eq_ok h
  obtain ⟨x, hx, hxs⟩ := hmem (key, v) hv
  exact ⟨x, hx, Keyed.get?_ofList_of_mem (hkeys ▸ hdistinct) hxs⟩

end Value

/-! ## Decimals at their positions -/

section Positions

variable {defs : Definitions} {space : Option String} {s : Schema} {v : Value} {d : Decimal}
  {scale : Nat} {position : List Json.Step}

/-- Wherever a decimal stands, it is shown with no scale. -/
theorem DecimalAt.toJson?_at (h : DecimalAt defs d scale space s v position)
    (hv : v.IsOf defs space s) {json : Json} (hjson : v.toJson? = .ok json) :
    ∃ x, d.toJson? 0 = .ok x ∧ json.at? position = some x := by
  induction h generalizing json with
  | here => exact ⟨json, hjson, rfl⟩
  | union hs h ih => exact ih (hv.of_union hs) hjson
  | @item space s items i w position hw h ih =>
      obtain ⟨xs, hitems, rfl⟩ := Value.toJson?_array_eq_ok.mp hjson
      obtain ⟨x, hx, hpart⟩ := Value.itemsToJson?_getElem? hitems hw
      obtain ⟨y, hy, hat⟩ := ih (hv.of_array w (List.mem_of_getElem? hw)) hx
      refine ⟨y, hy, ?_⟩
      rw [Json.at?, Json.part?, hpart]
      exact hat
  | @entry space s entries key w position hw h ih =>
      obtain ⟨xs, hentries, rfl⟩ := Value.toJson?_map_eq_ok.mp hjson
      obtain ⟨hdistinct, htypes⟩ := hv.of_map
      obtain ⟨x, hx, hpart⟩ := Value.membersToJson?_get? hdistinct hentries hw
      obtain ⟨y, hy, hat⟩ := ih (htypes _ hw) hx
      refine ⟨y, hy, ?_⟩
      rw [Json.at?, hpart]
      exact hat
  | @field space name fields values f w position hf hw h ih =>
      obtain ⟨xs, hvalues, rfl⟩ := Value.toJson?_record_eq_ok.mp hjson
      obtain ⟨hdistinct, htypes⟩ := hv.of_record
      obtain ⟨x, hx, hpart⟩ := Value.membersToJson?_get? hdistinct hvalues hw
      obtain ⟨y, hy, hat⟩ := ih (htypes f hf w hw) hx
      refine ⟨y, hy, ?_⟩
      rw [Json.at?, hpart]
      exact hat
  | ref hs h ih => exact ih (hv.of_ref hs) hjson

theorem DecimalAt.unwrap (h : DecimalAt defs d scale space s v []) : v.unwrap = .decimal d := by
  generalize hposition : [] = position at h
  induction h with
  | here => rfl
  | union hs h ih => exact ih hposition
  | ref hs h ih => exact ih hposition
  | _ => exact nomatch hposition

theorem DecimalAt.unwrap_ne {step : Json.Step}
    (h : DecimalAt defs d scale space s v (step :: position)) (e : Decimal) :
    v.unwrap ≠ .decimal e := by
  generalize hposition : step :: position = steps at h
  induction h with
  | here => exact nomatch hposition
  | union hs h ih => exact ih hposition
  | ref hs h ih => exact ih hposition
  | _ => exact nofun

/-- For every decimal in a value of a type the type declares a scale. -/
theorem Value.IsOf.exists_decimalAt (h : v.IsOf defs space s) (hd : v.HasAt d position) :
    ∃ scale, DecimalAt defs d scale space s v position := by
  induction h generalizing position with
  | null => exact nomatch hd
  | @scalar space s v hv hkind =>
      cases hd with
      | here =>
          cases s with
          | decimal inner precision scale => exact ⟨scale, .here⟩
          | _ => exact nomatch hkind
      | _ => exact nomatch hv
  | union hs h ih =>
      cases hd with
      | union hd =>
          obtain ⟨scale, hat⟩ := ih hd
          exact ⟨scale, .union hs hat⟩
  | cut =>
      cases hd with
      | union hd => exact nomatch hd
  | array h ih =>
      cases hd with
      | item hw hd =>
          obtain ⟨scale, hat⟩ := ih _ (List.mem_of_getElem? hw) hd
          exact ⟨scale, .item hw hat⟩
  | map distinct h ih =>
      cases hd with
      | entry hw hd =>
          obtain ⟨scale, hat⟩ := ih _ hw hd
          exact ⟨scale, .entry hw hat⟩
  | record names distinct h ih =>
      cases hd with
      | @field values key w position hw hd =>
          obtain ⟨f, hf, rfl⟩ := List.mem_map.mp (names ▸ List.mem_map_of_mem hw)
          obtain ⟨scale, hat⟩ := ih f hf w hw hd
          exact ⟨scale, .field hf hw hat⟩
  | ref hs h ih =>
      obtain ⟨scale, hat⟩ := ih hd
      exact ⟨scale, .ref hs hat⟩

theorem Value.hasAt_of_unwrap : (v : Value) → v.unwrap = .decimal d → v.HasAt d []
  | .union _ inner, h => .union (hasAt_of_unwrap inner h)
  | .decimal e, h => by
      obtain rfl := Value.decimal.inj h
      exact .here
  | .null, h | .boolean _, h | .int _, h | .long _, h | .float _, h | .double _, h | .bytes _, h
  | .string _, h | .fixed _ _, h | .enumeration _ _, h | .array _, h | .map _, h | .record _, h
  | .date _, h | .timeMillis _, h | .instant _ _, h | .bigDecimal _, h | .duration _, h
  | .uuid _, h => nomatch h

/-- A value is shown if all of its decimals are. -/
theorem Value.IsOf.toJson?_isOk (h : v.IsOf defs space s)
    (hd : ∀ d position, v.HasAt d position → d.bytes ≠ [] ∧ d.bytes.length ≤ 16) :
    ∃ json, v.toJson? = .ok json := by
  induction h with
  | null => exact ⟨_, rfl⟩
  | @scalar space s v hv hkind =>
      cases v with
      | decimal d =>
          obtain ⟨hne, hfits⟩ := hd d [] .here
          exact ⟨_, Decimal.toJson?_eq_ok_iff.mpr ⟨hne, hfits, rfl⟩⟩
      | union | array | map | record => exact nomatch hv
      | _ => exact ⟨_, rfl⟩
  | union hs h ih => exact ih fun d position hat => hd d position (.union hat)
  | cut => exact ⟨_, rfl⟩
  | @array space s items h ih =>
      obtain ⟨xs, hxs⟩ := itemsToJson?_isOk fun w hw => by
        obtain ⟨i, hi⟩ := List.getElem?_of_mem hw
        exact ih w hw fun d position hat => hd d _ (.item hi hat)
      exact ⟨.arr xs, toJson?_array_eq_ok.mpr ⟨xs, hxs, rfl⟩⟩
  | @map space s entries distinct h ih =>
      obtain ⟨xs, hxs⟩ := membersToJson?_isOk fun e he =>
        ih e he fun d position hat => hd d _ (.entry he hat)
      exact ⟨.ofMembers xs, toJson?_map_eq_ok.mpr ⟨xs, hxs, rfl⟩⟩
  | @record space name fields values names distinct h ih =>
      obtain ⟨xs, hxs⟩ := membersToJson?_isOk fun e he => by
        obtain ⟨f, hf, hname⟩ := List.mem_map.mp (names ▸ List.mem_map_of_mem he)
        have hmem : (f.name, e.2) ∈ values := hname ▸ he
        exact ih f hf e.2 hmem fun d position hat => hd d _ (.field he hat)
      exact ⟨.ofMembers xs, toJson?_record_eq_ok.mpr ⟨xs, hxs, rfl⟩⟩
  | ref hs h ih => exact ih hd

end Positions

/-! ## Columns -/

/-- The scale with which the decimal at a position of a column is shown. -/
def shownScale (type : Json) : List Json.Step → Nat
  | [] => decimalScale type
  | _ :: _ => 0

section Columns

variable {defs : Definitions} {space : Option String} {s : Schema} {v : Value} {d : Decimal}
  {scale : Nat} {position : List Json.Step} {type : Json}

theorem Value.columnToJson?_of_ne (h : ∀ d, v.unwrap ≠ .decimal d) (type : Json) :
    v.columnToJson? type = v.toJson? := by
  unfold columnToJson?
  split
  · next d hd => exact absurd hd (h d)
  · exact toJson?_unwrap v

theorem DecimalAt.columnToJson?_at (h : DecimalAt defs d scale space s v position)
    (hv : v.IsOf defs space s) {json : Json} (hjson : v.columnToJson? type = .ok json) :
    ∃ x, d.toJson? (shownScale type position) = .ok x ∧ json.at? position = some x := by
  cases position with
  | nil =>
      rw [Value.columnToJson?_decimal h.unwrap] at hjson
      exact ⟨json, hjson, rfl⟩
  | cons step position =>
      rw [Value.columnToJson?_of_ne h.unwrap_ne] at hjson
      exact h.toJson?_at hv hjson

theorem Value.IsOf.columnToJson?_isOk_iff (h : v.IsOf defs space s) :
    (∃ json, v.columnToJson? type = .ok json) ↔
      ∀ d position, v.HasAt d position → d.bytes ≠ [] ∧ d.bytes.length ≤ 16 := by
  constructor
  · rintro ⟨json, hjson⟩ d position hd
    obtain ⟨scale, hat⟩ := h.exists_decimalAt hd
    obtain ⟨x, hx, -⟩ := hat.columnToJson?_at h hjson
    obtain ⟨hne, hfits, -⟩ := Decimal.toJson?_eq_ok_iff.mp hx
    exact ⟨hne, hfits⟩
  · intro hd
    by_cases hdecimal : ∃ d, v.unwrap = .decimal d
    · obtain ⟨d, hunwrap⟩ := hdecimal
      obtain ⟨hne, hfits⟩ := hd d [] (hasAt_of_unwrap v hunwrap)
      rw [columnToJson?_decimal hunwrap]
      exact ⟨_, Decimal.toJson?_eq_ok_iff.mpr ⟨hne, hfits, rfl⟩⟩
    · rw [columnToJson?_of_ne (not_exists.mp hdecimal)]
      exact h.toJson?_isOk hd

/-- A column is shown if each of its decimals, at any depth, has one byte at least and sixteen at
most. The type declares a scale for each of them, but only a decimal that is the column itself is
shown with the scale that is found in the type. One that stands deeper is shown without a point,
which is the scale that is declared at its position only if that is zero. -/
theorem Value.IsOf.columnToJson?_decimals (h : v.IsOf defs space s) (type : Json) :
    ((∃ json, v.columnToJson? type = .ok json) ↔
      ∀ d position, v.HasAt d position → d.bytes ≠ [] ∧ d.bytes.length ≤ 16) ∧
    (∀ d position, v.HasAt d position → ∃ scale, DecimalAt defs d scale space s v position) ∧
    ∀ json, v.columnToJson? type = .ok json →
      ∀ d scale position, DecimalAt defs d scale space s v position →
        ∃ text, json.at? position = some (.str (String.ofList text)) ∧
          IsScaledText d.value (shownScale type position) text ∧
          (IsScaledText d.value scale text ↔ scale = shownScale type position) := by
  refine ⟨h.columnToJson?_isOk_iff, fun d position => h.exists_decimalAt, ?_⟩
  intro json hjson d scale position hat
  obtain ⟨x, hx, hpart⟩ := hat.columnToJson?_at h hjson
  obtain ⟨-, -, rfl⟩ := Decimal.toJson?_eq_ok_iff.mp hx
  exact ⟨_, hpart, isScaledText_writeScaled _ _, isScaledText_writeScaled_iff⟩

end Columns

/-- The unscaled amount 12345. -/
def unscaledAmount : Decimal := ⟨[0x30, 0x39]⟩

/-- A list of amounts with two digits after the point. -/
def amountsType : Json :=
  .ofMembers [("type", .str "array"), ("items", .ofMembers [("type", .str "bytes"),
    ("logicalType", .str "decimal"), ("precision", .int 5), ("scale", .int 2)])]

def amounts : Value := .array [.decimal unscaledAmount]

/-- An order that may be missing, with a list of amounts of each kind. -/
def orderType : Json :=
  .arr [.str "null", .ofMembers [("type", .str "record"), ("name", .str "order"),
    ("fields", .arr [.ofMembers [("name", .str "amounts"),
      ("type", .ofMembers [("type", .str "map"), ("values", amountsType)])]])]]

def orderSchema : Schema :=
  .union [.null, .record ⟨"order", none⟩
    [⟨"amounts", .map (.array (.decimal .bytes 5 2)), none⟩]]

def order : Value := .union 1 (.record [("amounts", .map [("net", amounts)])])

theorem Value.IsOf.columnToJson?_decimals_order : Schema.ofJson? orderType = some orderSchema ∧
    ∃ defs, orderSchema.definitions? = some defs ∧ order.IsOf defs none orderSchema ∧
      ∃ json text, order.columnToJson? orderType = .ok json ∧
        json.at? [.member "amounts", .member "net", .item 0] = some (.str (String.ofList text)) ∧
        IsScaledText 12345 0 text ∧ ¬ IsScaledText 12345 2 text := by
  have htype : Schema.ofJson? orderType = some orderSchema := rfl
  obtain ⟨defs, hdefs⟩ : ∃ defs, orderSchema.definitions? = some defs := ⟨_, rfl⟩
  have hread : orderSchema.decode? [2, 2, 6, 0x6e, 0x65, 0x74, 2, 4, 0x30, 0x39, 0, 0] =
      some order := rfl
  have horder : order.IsOf defs none orderSchema :=
    Schema.isOf_of_decode? (Schema.hasDistinctFields_of_ofJson? htype) hdefs hread
  have hat : DecimalAt defs unscaledAmount 2 none orderSchema order
      [.member "amounts", .member "net", .item 0] :=
    .union rfl (.field List.mem_cons_self List.mem_cons_self
      (.entry List.mem_cons_self (.item rfl .here)))
  have hvalue : unscaledAmount.value = 12345 := by decide
  obtain ⟨json, hjson⟩ : ∃ json, order.columnToJson? orderType = .ok json := ⟨_, rfl⟩
  obtain ⟨-, -, hshown⟩ := columnToJson?_decimals horder orderType
  obtain ⟨text, hpart, htext, hdeclared⟩ := hshown json hjson _ 2 _ hat
  rw [hvalue] at htext hdeclared
  refine ⟨htype, defs, hdefs, horder, json, text, hjson, hpart, htext, ?_⟩
  intro h
  exact nomatch hdeclared.mp h

/-- The amount in a list is shown a hundred times as large as it is. -/
theorem Value.columnToJson?_amounts_ne :
    Schema.ofJson? amountsType = some (.array (.decimal .bytes 5 2)) ∧
      (Schema.array (.decimal .bytes 5 2)).decode? [2, 4, 0x30, 0x39, 0] = some amounts ∧
      DecimalAt [] unscaledAmount 2 none (.array (.decimal .bytes 5 2)) amounts [.item 0] ∧
      unscaledAmount.value = 12345 ∧
      amounts.columnToJson? amountsType = .ok (.arr [.str "12345"]) ∧
      IsScaledText 12345 2 "123.45".toList ∧ ¬ IsScaledText 12345 2 "12345".toList := by
  have hwhole : writeScaled 12345 0 = "12345".toList := by decide
  have hscaled : writeScaled 12345 2 = "123.45".toList := by decide
  refine ⟨rfl, rfl, .item rfl .here, by decide, rfl, ?_, ?_⟩
  · rw [← hscaled]
    exact isScaledText_writeScaled 12345 2
  · rw [← hwhole, isScaledText_writeScaled_iff]
    decide

end Avro

end ChangeCapture
