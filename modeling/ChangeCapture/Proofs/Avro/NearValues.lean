import ChangeCapture.Avro.Resolution
import ChangeCapture.Proofs.Json.Nearness

/-!
# Data that differ in floating point numbers

Data from values that are near are read as a basic type in the same way.
-/

namespace ChangeCapture

namespace Avro

namespace Value

/-- Values that differ in their floating point numbers only. -/
inductive Near : Value → Value → Prop
  | refl (v : Value) : Near v v
  | float (x y : UInt32) : Near (.float x) (.float y)
  | double (x y : UInt64) : Near (.double x) (.double y)
  | union (i : Nat) {v w : Value} (h : Near v w) : Near (.union i v) (.union i w)
  | array {xs ys : List Value} (h : List.Forall₂ Near xs ys) : Near (.array xs) (.array ys)
  | map {xs ys : List (String × Value)} (hkeys : xs.map Prod.fst = ys.map Prod.fst)
      (h : List.Forall₂ Near (xs.map Prod.snd) (ys.map Prod.snd)) : Near (.map xs) (.map ys)
  | record {xs ys : List (String × Value)} (hkeys : xs.map Prod.fst = ys.map Prod.fst)
      (h : List.Forall₂ Near (xs.map Prod.snd) (ys.map Prod.snd)) : Near (.record xs) (.record ys)

theorem ofMembers_keys (ms : List (String × Json)) :
    (ofMembers ms).map Prod.fst = ms.map Prod.fst := by
  induction ms with
  | nil => rfl
  | cons m ms ih => rw [ofMembers, List.map_cons, List.map_cons, ih]

mutual

theorem near_ofJson : ∀ (v : Json) {w : Json}, Json.Near v w → Near (ofJson v) (ofJson w)
  | .null, _, .null | .bool _, _, .bool _ | .int _, _, .int _ | .str _, _, .str _ => .refl _
  | .double _, _, .double _ _ => .double _ _
  | .arr xs, _, .arr h => .array (near_ofItems xs h)
  | .obj ms, _, .obj hkeys h => by
      refine .map ?_ (near_ofMembers ms h)
      rw [ofMembers_keys, ofMembers_keys, hkeys]

theorem near_ofItems : ∀ (xs : List Json) {ys : List Json}, List.Forall₂ Json.Near xs ys →
    List.Forall₂ Near (ofItems xs) (ofItems ys)
  | [], _, .nil => .nil
  | x :: xs, _, .cons h hrest => .cons (near_ofJson x h) (near_ofItems xs hrest)

theorem near_ofMembers : ∀ (ms : List (String × Json)) {ns : List (String × Json)},
    List.Forall₂ Json.Near (ms.map Prod.snd) (ns.map Prod.snd) →
    List.Forall₂ Near ((ofMembers ms).map Prod.snd) ((ofMembers ns).map Prod.snd)
  | [], [], _ => .nil
  | (_, v) :: ms, _ :: _, .cons h hrest => .cons (near_ofJson v h) (near_ofMembers ms hrest)

end

/-- What a value holds, if it is one of a union. -/
def inner : Value → Value
  | .union _ v => v
  | v => v

def items? : Value → Option (List Value)
  | .array xs => some xs
  | _ => none

def entries? : Value → Option (List (String × Value))
  | .map entries => some entries
  | _ => none

theorem stripFor_union (branches : List Schema) (v : Value) :
    stripFor (.union branches) v = v := by
  cases v <;> rfl

theorem stripFor_eq_inner {s : Schema} (h : s.kind ≠ .union) (v : Value) :
    stripFor s v = v.inner := by
  cases v with
  | union i v =>
      cases s with
      | union => exact absurd rfl h
      | _ => rfl
  | _ => rfl

section

variable (fuel : Nat) (defs : Definitions) (space : Option String) (v : Value)

theorem resolve?_array (items : Schema) : resolve? (fuel + 1) defs space (.array items) v =
    v.inner.items?.bind fun xs => (xs.mapM (resolve? fuel defs space items)).map .array := by
  cases v with
  | union _ v => cases v <;> rfl
  | _ => rfl

theorem resolve?_map (values : Schema) : resolve? (fuel + 1) defs space (.map values) v =
    v.inner.entries?.bind fun entries => (entries.mapM fun e =>
      (resolve? fuel defs space values e.2).map fun x => (e.1, x)).map .map := by
  cases v with
  | union _ v => cases v <;> rfl
  | _ => rfl

theorem resolve?_union (branches : List Schema) :
    resolve? (fuel + 1) defs space (.union branches) v =
      (branch? (resolve? fuel) defs space branches v.inner).bind fun p =>
        (resolve? fuel defs space p.2 v.inner).map (.union p.1) := by
  simp only [resolve?, stripFor_union]
  cases v <;> (dsimp only [inner]; cases branch? _ _ _ _ _ <;> rfl)

theorem resolve?_record (name : Name) (fields : List (Field Schema)) :
    resolve? (fuel + 1) defs space (.record name fields) v =
      v.inner.asMembers?.bind fun members =>
        (toFields? (resolve? fuel defs space) members fields).map .record := by
  cases v with
  | union _ v => cases v <;> rfl
  | _ => rfl

theorem resolve?_enumeration (name : Name) (symbols : List String) (default : Option String) :
    resolve? (fuel + 1) defs space (.enumeration name symbols default) v =
      v.inner.toSymbol? symbols default := by
  cases v <;> rfl

theorem resolve?_fixed (name : Name) (size : Nat) :
    resolve? (fuel + 1) defs space (.fixed name size) v = v.inner.toFixed? size := by
  cases v <;> rfl

theorem resolve?_decimal (inner : Schema) (precision scale : Nat) :
    resolve? (fuel + 1) defs space (.decimal inner precision scale) v =
      v.inner.toDecimal? inner precision := by
  cases v <;> rfl

end

namespace Near

variable {v w : Value}

theorem kind_eq (h : Near v w) : v.kind = w.kind := by
  cases h <;> rfl

theorem inner (h : Near v w) : Near v.inner w.inner := by
  cases h with
  | union _ h => exact h
  | refl => exact .refl _
  | float => exact .float _ _
  | double => exact .double _ _
  | array h => exact .array h
  | map hkeys h => exact .map hkeys h
  | record hkeys h => exact .record hkeys h

theorem asInt?_eq (h : Near v w) : v.asInt? = w.asInt? := by
  cases h <;> rfl

theorem toInt32?_eq (h : Near v w) : v.toInt32? = w.toInt32? := by
  rw [toInt32?, toInt32?, h.asInt?_eq]

theorem toByte?_eq (h : Near v w) : v.toByte? = w.toByte? := by
  have hint : Schema.int.kind ≠ .union := nofun
  rw [toByte?, toByte?, stripFor_eq_inner hint, stripFor_eq_inner hint, h.inner.toInt32?_eq]

theorem toBytes?_eq (h : Near v w) : v.toBytes? = w.toBytes? := by
  cases h with
  | array h =>
      rw [toBytes?, toBytes?]
      congr 1
      induction h with
      | nil => rfl
      | cons hxy _ ih => rw [List.mapM_cons, List.mapM_cons, hxy.toByte?_eq, ih]
  | _ => rfl

theorem toFloat? (h : Near v w) : Option.Rel Near v.toFloat? w.toFloat? := by
  cases h <;> first | exact rel_refl .refl | exact .some (.float _ _)

theorem toDouble? (h : Near v w) : Option.Rel Near v.toDouble? w.toDouble? := by
  cases h <;> first | exact rel_refl .refl | exact .some (.double _ _)

theorem toString?_eq (h : Near v w) : v.toString? = w.toString? := by
  cases h <;> rfl

theorem toFixed?_eq (h : Near v w) (size : Nat) : v.toFixed? size = w.toFixed? size := by
  cases h <;> rfl

theorem toSymbol?_eq (h : Near v w) (symbols : List String) (default : Option String) :
    v.toSymbol? symbols default = w.toSymbol? symbols default := by
  cases h <;> rfl

theorem toDecimal?_eq (h : Near v w) (inner : Schema) (precision : Nat) :
    v.toDecimal? inner precision = w.toDecimal? inner precision := by
  cases h <;> rfl

theorem toBigDecimal?_eq (h : Near v w) : v.toBigDecimal? = w.toBigDecimal? := by
  cases h <;> rfl

theorem toDuration?_eq (h : Near v w) : v.toDuration? = w.toDuration? := by
  cases h <;> rfl

theorem toInstant?_eq (h : Near v w) (unit : Instant) : v.toInstant? unit = w.toInstant? unit := by
  cases h <;> rfl

theorem items? (h : Near v w) : Option.Rel (List.Forall₂ Near) v.items? w.items? := by
  cases h with
  | refl => exact rel_refl fun xs => List.forall₂_same.mpr fun _ _ => .refl _
  | array h => exact .some h
  | _ => exact .none

theorem entries? (h : Near v w) :
    Option.Rel (List.Forall₂ (SameKey Near)) v.entries? w.entries? := by
  cases h with
  | refl => exact rel_refl fun xs => List.forall₂_same.mpr fun _ _ => ⟨rfl, .refl _⟩
  | map hkeys h => exact .some (forall₂_sameKey hkeys h)
  | _ => exact .none

theorem asMembers? (h : Near v w) :
    Option.Rel (List.Forall₂ (SameKey Near)) v.asMembers? w.asMembers? := by
  cases h with
  | refl =>
      refine rel_refl fun ps => ?_
      exact List.forall₂_same.mpr fun _ _ => ⟨rfl, .refl _⟩
  | map hkeys h => exact .some (forall₂_sameKey hkeys h)
  | record hkeys h => exact .some (List.rel_reverse (forall₂_sameKey hkeys h))
  | _ => exact .none

end Near

end Value

namespace Schema

/-- Types that have no name and hold no other types. -/
def isBasic : Schema → Bool
  | .null | .boolean | .int | .long | .float | .double | .bytes | .string | .bigDecimal | .uuid
  | .date | .timeMillis | .instant _ | .duration => true
  | _ => false

open Value (resolve? Near stripFor_eq_inner)

theorem kind_ne_union_of_basic {s : Schema} (h : s.isBasic) : s.kind ≠ .union := by
  cases s <;> simp [isBasic, kind] at h ⊢

theorem near_resolve?_basic {s : Schema} (hs : s.isBasic) {v w : Value} (h : Near v w)
    (fuel fuel' : Nat) (defs defs' : Definitions) (space space' : Option String) :
    Option.Rel Near (resolve? (fuel + 1) defs space s v)
      (resolve? (fuel' + 1) defs' space' s w) := by
  have hinner := h.inner
  have hkind := kind_ne_union_of_basic hs
  cases s with
  | int | long | bytes | string | bigDecimal | instant | duration =>
      simp only [Value.resolve?, stripFor_eq_inner hkind]
      simp only [hinner.toInt32?_eq, hinner.asInt?_eq, hinner.toBytes?_eq, hinner.toString?_eq,
        hinner.toBigDecimal?_eq, hinner.toInstant?_eq, hinner.toDuration?_eq]
      exact rel_refl .refl
  | float =>
      simp only [Value.resolve?, stripFor_eq_inner hkind]
      exact hinner.toFloat?
  | double =>
      simp only [Value.resolve?, stripFor_eq_inner hkind]
      exact hinner.toDouble?
  | null | boolean | uuid | date | timeMillis =>
      simp only [Value.resolve?, stripFor_eq_inner hkind]
      generalize v.inner = v at hinner
      generalize w.inner = w at hinner
      cases hinner with
      | refl => exact rel_refl .refl
      | _ => exact .none
  | _ => simp [isBasic] at hs

end Schema

end Avro

end ChangeCapture
