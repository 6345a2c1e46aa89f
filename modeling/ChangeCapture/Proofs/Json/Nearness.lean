import ChangeCapture.Proofs.Json.RoundTrip
import Mathlib.Data.List.Forall2

/-!
# Values that differ in doubles

A value that is written and read again keeps everything but the doubles in it, which may be read as
others. What is computed without looking into doubles is the same for values that are near.
-/

namespace ChangeCapture

/-! ## Results that correspond -/

section Related

variable {α β γ δ : Type} {R : α → β → Prop} {S : γ → δ → Prop}

theorem rel_isSome {x : Option α} {y : Option β} (h : Option.Rel R x y) : x.isSome = y.isSome := by
  cases h <;> rfl

theorem exists_of_rel {x : Option α} {y : Option β} (h : Option.Rel R x y) {a : α}
    (hx : x = some a) : ∃ b, y = some b ∧ R a b := by
  cases h with
  | none => exact nomatch hx
  | some h => exact Option.some.inj hx ▸ ⟨_, rfl, h⟩

theorem eq_none_of_rel {x : Option α} {y : Option β} (h : Option.Rel R x y) (hx : x = none) :
    y = none := by
  cases h with
  | none => rfl
  | some => exact nomatch hx

theorem rel_bind {x : Option α} {y : Option β} {f : α → Option γ} {g : β → Option δ}
    (h : Option.Rel R x y) (hfg : ∀ a b, R a b → Option.Rel S (f a) (g b)) :
    Option.Rel S (x.bind f) (y.bind g) := by
  cases h with
  | none => exact .none
  | some h => exact hfg _ _ h

theorem bind_eq_bind {x : Option α} {y : Option β} {f : α → Option γ} {g : β → Option γ}
    (h : Option.Rel R x y) (hfg : ∀ a b, R a b → f a = g b) : x.bind f = y.bind g := by
  cases h with
  | none => rfl
  | some h => exact hfg _ _ h

theorem rel_map {x : Option α} {y : Option β} {f : α → γ} {g : β → δ} (h : Option.Rel R x y)
    (hfg : ∀ a b, R a b → S (f a) (g b)) : Option.Rel S (x.map f) (y.map g) := by
  cases h with
  | none => exact .none
  | some h => exact .some (hfg _ _ h)

theorem rel_refl {x : Option α} {R : α → α → Prop} (h : ∀ a, R a a) : Option.Rel R x x := by
  cases x with
  | none => exact .none
  | some a => exact .some (h a)

theorem rel_mapM {xs : List α} {ys : List β} {f : α → Option γ} {g : β → Option δ}
    (h : List.Forall₂ R xs ys) (hfg : ∀ a b, R a b → Option.Rel S (f a) (g b)) :
    Option.Rel (List.Forall₂ S) (xs.mapM f) (ys.mapM g) := by
  induction h with
  | nil => exact .some .nil
  | cons hxy _ ih =>
      rw [List.mapM_cons, List.mapM_cons]
      refine rel_bind (hfg _ _ hxy) fun a b hab => rel_bind ih fun as bs has => ?_
      exact .some (.cons hab has)

theorem rel_find? {xs : List α} {ys : List β} {p : α → Bool} {q : β → Bool}
    (h : List.Forall₂ R xs ys) (hpq : ∀ a b, R a b → p a = q b) :
    Option.Rel R (xs.find? p) (ys.find? q) := by
  induction h with
  | nil => exact .none
  | @cons a b _ _ hab _ ih =>
      rw [List.find?_cons, List.find?_cons, hpq a b hab]
      cases q b with
      | true => exact .some hab
      | false => exact ih

theorem map_eq_map {xs : List α} {ys : List β} {f : α → γ} {g : β → γ}
    (h : List.Forall₂ R xs ys) (hfg : ∀ a b, R a b → f a = g b) : xs.map f = ys.map g := by
  induction h with
  | nil => rfl
  | cons hab _ ih => rw [List.map_cons, List.map_cons, hfg _ _ hab, ih]

theorem flatMap_eq_flatMap {xs : List α} {ys : List β} {f : α → List γ} {g : β → List γ}
    (h : List.Forall₂ R xs ys) (hfg : ∀ a b, R a b → f a = g b) : xs.flatMap f = ys.flatMap g := by
  rw [List.flatMap_def, List.flatMap_def, map_eq_map h hfg]

theorem forall₂_filter {xs : List α} {ys : List β} {p : α → Bool} {q : β → Bool}
    (h : List.Forall₂ R xs ys) (hpq : ∀ a b, R a b → p a = q b) :
    List.Forall₂ R (xs.filter p) (ys.filter q) := by
  induction h with
  | nil => exact .nil
  | cons hab _ ih =>
      rw [List.filter_cons, List.filter_cons, hpq _ _ hab]
      split
      · exact .cons hab ih
      · exact ih

theorem any_eq_any {xs : List α} {ys : List β} {p : α → Bool} {q : β → Bool}
    (h : List.Forall₂ R xs ys) (hpq : ∀ a b, R a b → p a = q b) : xs.any p = ys.any q := by
  induction h with
  | nil => rfl
  | cons hab _ ih => rw [List.any_cons, List.any_cons, hpq _ _ hab, ih]

end Related

/-- Pairs with the same key, and with values that are related. -/
def SameKey {α : Type} (R : α → α → Prop) (p q : String × α) : Prop := p.1 = q.1 ∧ R p.2 q.2

theorem forall₂_sameKey {α : Type} {R : α → α → Prop} {ps qs : List (String × α)}
    (hkeys : ps.map Prod.fst = qs.map Prod.fst)
    (h : List.Forall₂ R (ps.map Prod.snd) (qs.map Prod.snd)) :
    List.Forall₂ (SameKey R) ps qs := by
  induction ps generalizing qs with
  | nil =>
      obtain rfl := List.map_eq_nil_iff.mp hkeys.symm
      exact .nil
  | cons p ps ih =>
      cases qs with
      | nil => exact nomatch hkeys
      | cons q qs =>
          obtain ⟨hkey, hkeys⟩ := List.cons.inj hkeys
          cases h with
          | cons hvalue h => exact .cons ⟨hkey, hvalue⟩ (ih hkeys h)

theorem rel_lookup {α : Type} {R : α → α → Prop} {ps qs : List (String × α)}
    (h : List.Forall₂ (SameKey R) ps qs) (key : String) :
    Option.Rel R (ps.lookup key) (qs.lookup key) := by
  induction h with
  | nil => exact .none
  | @cons p q _ _ hpq _ ih =>
      rw [List.lookup_cons, List.lookup_cons, hpq.1]
      split
      · exact .some hpq.2
      · exact ih

/-! ## Values that differ in floating point numbers -/

/-- JSON values that differ in their doubles only. -/
inductive Json.Near : Json → Json → Prop
  | null : Near .null .null
  | bool (b : Bool) : Near (.bool b) (.bool b)
  | int (n : Int) : Near (.int n) (.int n)
  | double (x y : Float) : Near (.double x) (.double y)
  | str (s : String) : Near (.str s) (.str s)
  | arr {xs ys : List Json} (h : List.Forall₂ Near xs ys) : Near (.arr xs) (.arr ys)
  | obj {ms ns : List (String × Json)} (hkeys : ms.map Prod.fst = ns.map Prod.fst)
      (h : List.Forall₂ Near (ms.map Prod.snd) (ns.map Prod.snd)) : Near (.obj ms) (.obj ns)

namespace Json

/-! ## Members and items -/

theorem height_le_heightItems {v : Json} {items : List Json} (h : v ∈ items) :
    v.height ≤ heightItems items := by
  induction items with
  | nil => exact absurd h List.not_mem_nil
  | cons w rest ih =>
      rw [heightItems]
      rcases List.mem_cons.mp h with rfl | h
      · exact Nat.le_max_left _ _
      · exact Nat.le_trans (ih h) (Nat.le_max_right _ _)

theorem height_le_heightMembers {key : String} {v : Json} {members : List (String × Json)}
    (h : Keyed.get? key members = some v) : v.height ≤ heightMembers members := by
  induction members with
  | nil => exact nomatch h
  | cons m rest ih =>
      obtain ⟨k, w⟩ := m
      rw [heightMembers]
      rw [Keyed.get?] at h
      split at h
      · exact Option.some.inj h ▸ Nat.le_max_left _ _
      · exact Nat.le_trans (ih h) (Nat.le_max_right _ _)

theorem height_get?_lt {key : String} {v w : Json} (h : v.get? key = some w) :
    w.height < v.height := by
  cases v with
  | obj members =>
      rw [height]
      exact Nat.lt_succ_of_le (height_le_heightMembers h)
  | _ => exact nomatch h

theorem height_lt_of_mem {v : Json} {items : List Json} (h : v ∈ items) :
    v.height < (arr items).height := by
  rw [height]
  exact Nat.lt_succ_of_le (height_le_heightItems h)

namespace Near

variable {v w : Json}

theorem get? (h : Near v w) (key : String) : Option.Rel Near (v.get? key) (w.get? key) := by
  cases h with
  | @obj ms ns hkeys h =>
      show Option.Rel Near (Keyed.get? key ms) (Keyed.get? key ns)
      have hmembers := forall₂_sameKey hkeys h
      clear hkeys h
      induction hmembers with
      | nil => exact .none
      | cons hm _ ih =>
          rw [Keyed.get?, Keyed.get?, hm.1]
          split
          · exact .some hm.2
          · exact ih
  | _ => exact .none

theorem asStr?_eq (h : Near v w) : v.asStr? = w.asStr? := by
  cases h <;> rfl

theorem asNat?_eq (h : Near v w) : v.asNat? = w.asNat? := by
  cases h <;> rfl

theorem asArr? (h : Near v w) : Option.Rel (List.Forall₂ Near) v.asArr? w.asArr? := by
  cases h with
  | arr h => exact .some h
  | _ => exact .none

theorem isSome_asObj?_eq (h : Near v w) : v.asObj?.isSome = w.asObj?.isSome := by
  cases h <;> rfl

theorem text?_eq (h : Near v w) (key : String) : v.text? key = w.text? key :=
  bind_eq_bind (h.get? key) fun _ _ hmember => hmember.asStr?_eq

mutual

theorem height_eq : ∀ {v w : Json}, Near v w → v.height = w.height
  | _, _, .null | _, _, .bool _ | _, _, .int _ | _, _, .double _ _ | _, _, .str _ => rfl
  | _, _, .arr h => congrArg (· + 1) (heightItems_eq h)
  | _, _, .obj _ h => congrArg (· + 1) (heightMembers_eq h)

theorem heightItems_eq : ∀ {xs ys : List Json}, List.Forall₂ Near xs ys →
    heightItems xs = heightItems ys
  | [], _, .nil => rfl
  | _ :: _, _, .cons h hrest => congrArg₂ max (height_eq h) (heightItems_eq hrest)

theorem heightMembers_eq : ∀ {ms ns : List (String × Json)},
    List.Forall₂ Near (ms.map Prod.snd) (ns.map Prod.snd) → heightMembers ms = heightMembers ns
  | [], [], _ => rfl
  | (_, _) :: _, (_, _) :: _, .cons h hrest => congrArg₂ max (height_eq h) (heightMembers_eq hrest)

end

mutual

theorem refl : ∀ v : Json, Near v v
  | .null => .null
  | .bool b => .bool b
  | .int n => .int n
  | .double x => .double x x
  | .str s => .str s
  | .arr items => .arr (refl_items items)
  | .obj members => .obj rfl (refl_members members)

theorem refl_items : ∀ items : List Json, List.Forall₂ Near items items
  | [] => .nil
  | v :: rest => .cons (refl v) (refl_items rest)

theorem refl_members : ∀ members : List (String × Json),
    List.Forall₂ Near (members.map Prod.snd) (members.map Prod.snd)
  | [] => .nil
  | (_, v) :: rest => .cons (refl v) (refl_members rest)

end

theorem ne_str (h : Near v w) {s : String} (hv : v ≠ .str s) : w ≠ .str s := by
  rintro rfl
  cases h
  exact hv rfl

theorem get?_str (h : Near v w) {key s : String} (hs : v.get? key = some (.str s)) :
    w.get? key = some (.str s) := by
  obtain ⟨member, hmember, hnear⟩ := exists_of_rel (h.get? key) hs
  cases hnear
  exact hmember

theorem get?_arr (h : Near v w) {key : String} {items : List Json}
    (hitems : v.get? key = some (.arr items)) :
    ∃ items', w.get? key = some (.arr items') ∧ List.Forall₂ Near items items' := by
  obtain ⟨member, hmember, hnear⟩ := exists_of_rel (h.get? key) hitems
  cases hnear with
  | arr hnear => exact ⟨_, hmember, hnear⟩

theorem list? (h : Near v w) (key : String) : Option.Rel (List.Forall₂ Near)
    ((v.get? key).bind Json.asArr?) ((w.get? key).bind Json.asArr?) :=
  rel_bind (h.get? key) fun _ _ hmember => hmember.asArr?

end Near

theorem mapM_asStr?_eq {xs ys : List Json} (h : List.Forall₂ Near xs ys) :
    xs.mapM asStr? = ys.mapM asStr? := by
  induction h with
  | nil => rfl
  | cons hxy _ ih => rw [List.mapM_cons, List.mapM_cons, hxy.asStr?_eq, ih]

theorem filterMap_asStr?_eq {xs ys : List Json} (h : List.Forall₂ Near xs ys) :
    xs.filterMap asStr? = ys.filterMap asStr? := by
  induction h with
  | nil => rfl
  | cons hxy _ ih => rw [List.filterMap_cons, List.filterMap_cons, hxy.asStr?_eq, ih]

/-! ## Reading again -/

/-- A double whose text is read as some double. -/
def StaysDouble (x : Float) : Prop := ∃ y, parse? (double x).compress = some (.double y)

theorem StaysDouble.exists_rereadDouble? {x : Float} (h : StaysDouble x) :
    ∃ y, rereadDouble? x = some (.double y) := by
  obtain ⟨y, hy⟩ := h
  rw [parse?_compress (.double x)] at hy
  exact ⟨y, hy⟩

mutual

theorem exists_reread? : ∀ v : Json, (∀ x ∈ v.doubles, StaysDouble x) →
    ∃ w, v.reread? = some w ∧ Near v w
  | .null, _ => ⟨_, rfl, .null⟩
  | .bool b, _ => ⟨_, rfl, .bool b⟩
  | .int n, _ => ⟨_, rfl, .int n⟩
  | .str s, _ => ⟨_, rfl, .str s⟩
  | .double x, hx => by
      obtain ⟨y, hy⟩ := (hx x (List.mem_singleton_self x)).exists_rereadDouble?
      exact ⟨.double y, hy, .double x y⟩
  | .arr items, hx => by
      obtain ⟨items', hitems, hnear⟩ := exists_rereadItems? items hx
      exact ⟨.arr items', by rw [reread?, hitems]; rfl, .arr hnear⟩
  | .obj members, hx => by
      obtain ⟨members', hmembers, hnear⟩ := exists_rereadMembers? members hx
      exact ⟨.obj members', by rw [reread?, hmembers]; rfl,
        .obj (keys_of_rereadMembers? hmembers).symm hnear⟩

theorem exists_rereadItems? : ∀ items : List Json, (∀ x ∈ itemDoubles items, StaysDouble x) →
    ∃ items', rereadItems? items = some items' ∧ List.Forall₂ Near items items'
  | [], _ => ⟨_, rfl, .nil⟩
  | v :: rest, hx => by
      obtain ⟨hv, hrest⟩ := List.forall_mem_append.mp hx
      obtain ⟨w, hw, hnear⟩ := exists_reread? v hv
      obtain ⟨rest', hrest', hnears⟩ := exists_rereadItems? rest hrest
      exact ⟨w :: rest', by simp only [rereadItems?, hw, hrest'], .cons hnear hnears⟩

theorem exists_rereadMembers? : ∀ members : List (String × Json),
    (∀ x ∈ memberDoubles members, StaysDouble x) →
    ∃ members', rereadMembers? members = some members' ∧
      List.Forall₂ Near (members.map Prod.snd) (members'.map Prod.snd)
  | [], _ => ⟨_, rfl, .nil⟩
  | (k, v) :: rest, hx => by
      obtain ⟨hv, hrest⟩ := List.forall_mem_append.mp hx
      obtain ⟨w, hw, hnear⟩ := exists_reread? v hv
      obtain ⟨rest', hrest', hnears⟩ := exists_rereadMembers? rest hrest
      exact ⟨(k, w) :: rest', by simp only [rereadMembers?, hw, hrest'], .cons hnear hnears⟩

end

theorem mem_itemDoubles {x : Float} {items : List Json} (h : x ∈ itemDoubles items) :
    ∃ v ∈ items, x ∈ v.doubles := by
  induction items with
  | nil => exact absurd h List.not_mem_nil
  | cons v rest ih =>
      rcases List.mem_append.mp h with h | h
      · exact ⟨v, List.mem_cons_self, h⟩
      · obtain ⟨w, hw, hx⟩ := ih h
        exact ⟨w, List.mem_cons_of_mem v hw, hx⟩

end Json

end ChangeCapture
