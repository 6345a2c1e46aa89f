import ChangeCapture.Proofs.Change.Rows
import Mathlib.Data.List.Forall2

/-!
# Fields in any order

Taking a field moves others, so the fields that are left come in an order of their own each time. As
long as no two fields have one name, this makes no difference to the row that is taken from a record
or to the reason why there is none, and neither do unions around the parts that are taken.
-/

namespace ChangeCapture

namespace Avro.Value

/-- A value within unions, of which the indexes of the branches are given from outside to inside. -/
def wrap : List Nat → Value → Value
  | [], v => v
  | index :: rest, v => .union index (wrap rest v)

@[simp] theorem unwrap_wrap (indexes : List Nat) (v : Value) :
    (wrap indexes v).unwrap = v.unwrap := by
  induction indexes with
  | nil => rfl
  | cons index rest ih => rw [wrap, unwrap, ih]

theorem exists_wrap_unwrap (v : Value) : ∃ indexes, v = wrap indexes v.unwrap := by
  fun_induction unwrap v with
  | case1 index inner ih =>
      obtain ⟨indexes, hinner⟩ := ih
      exact ⟨index :: indexes, by rw [wrap, ← hinner]⟩
  | case2 v _ => exact ⟨[], rfl⟩

/-- Two values of which one becomes the other when unions around it are taken away or added. -/
def SameCore (v w : Value) : Prop :=
  ∃ core indexes indexes', v = wrap indexes core ∧ w = wrap indexes' core

theorem sameCore_iff {v w : Value} : v.SameCore w ↔ v.unwrap = w.unwrap := by
  constructor
  · rintro ⟨core, indexes, indexes', rfl, rfl⟩
    rw [unwrap_wrap, unwrap_wrap]
  · intro h
    obtain ⟨indexes, hv⟩ := exists_wrap_unwrap v
    obtain ⟨indexes', hw⟩ := exists_wrap_unwrap w
    exact ⟨v.unwrap, indexes, indexes', hv, h ▸ hw⟩

end Avro.Value

namespace Change

open Avro (Value)

namespace Fields

/-! ## Taking by name -/

theorem lastFirst_perm (fields : Fields) : (lastFirst fields).Perm fields := by
  rcases List.eq_nil_or_concat fields with rfl | ⟨init, last, rfl⟩
  · exact List.Perm.refl _
  · rw [List.concat_eq_append, lastFirst_append_singleton]
    exact (List.perm_append_singleton last init).symm

theorem take?_perm {name : String} {fields rest : Fields} {v : Value}
    (h : take? name fields = some (v, rest)) : fields.Perm ((name, v) :: rest) := by
  induction fields generalizing rest with
  | nil => exact nomatch h
  | cons f fields ih =>
      obtain ⟨n, w⟩ := f
      unfold take? at h
      split at h
      · next hn =>
          obtain ⟨rfl, rfl⟩ := Prod.mk.inj (Option.some.inj h)
          exact hn ▸ (lastFirst_perm fields).symm.cons _
      · obtain ⟨⟨w', rest'⟩, htake, heq⟩ := Option.map_eq_some_iff.mp h
        obtain ⟨rfl, rfl⟩ := Prod.mk.inj heq
        exact ((ih htake).cons _).trans (List.Perm.swap _ _ _)

theorem take?_isSome_iff {name : String} {fields : Fields} :
    (take? name fields).isSome ↔ ∃ v, (name, v) ∈ fields := by
  constructor
  · intro h
    obtain ⟨⟨v, rest⟩, htake⟩ := Option.isSome_iff_exists.mp h
    exact ⟨v, (take?_eq_some htake).1⟩
  · rintro ⟨v, hv⟩
    induction fields with
    | nil => exact nomatch hv
    | cons f fields ih =>
        obtain ⟨n, w⟩ := f
        unfold take?
        split
        · rfl
        · next hn =>
            rcases List.mem_cons.mp hv with heq | hmem
            · exact absurd (Prod.mk.inj heq).1.symm hn
            · rw [Option.isSome_map]
              exact ih hmem

/-- Fields without a name twice. -/
def AreDistinct (fields : Fields) : Prop := (fields.map Prod.fst).Nodup

variable {fs gs : Fields}

theorem AreDistinct.perm (h : AreDistinct fs) (hperm : fs.Perm gs) : AreDistinct gs :=
  (hperm.map Prod.fst).nodup_iff.mp h

theorem AreDistinct.tail {f : String × Value} (h : AreDistinct (f :: fs)) : AreDistinct fs :=
  (List.nodup_cons.mp h).2

theorem AreDistinct.ne_of_mem {f g : String × Value} (h : AreDistinct (f :: fs)) (hg : g ∈ fs) :
    g.1 ≠ f.1 := fun hname => (List.nodup_cons.mp h).1 (hname ▸ List.mem_map_of_mem hg)

/-! ## Fields that differ in unions and in order -/

/-- The fields that are taken from a record to make a row of it. -/
def takenNames : List String := ["table", "primary_keys", "op_type", "before", "after"]

/-- Fields of one name whose values differ at most in unions: around a value that is taken, and
around each of the primary keys. -/
inductive SameField : String × Value → String × Value → Prop
  | refl (f : String × Value) : SameField f f
  | taken {name : String} {v w : Value} (taken : name ∈ takenNames) (core : v.SameCore w) :
      SameField (name, v) (name, w)
  | keys {v w : Value} {items items' : List Value} (left : v.SameCore (.array items))
      (right : w.SameCore (.array items')) (each : List.Forall₂ Value.SameCore items items') :
      SameField ("primary_keys", v) ("primary_keys", w)

theorem SameField.name_eq {f g : String × Value} (h : SameField f g) : f.1 = g.1 := by
  cases h <;> rfl

theorem SameField.unwrap_eq {name : String} {v w : Value}
    (h : SameField (name, v) (name, w)) (hname : name ≠ "primary_keys") : v.unwrap = w.unwrap := by
  cases h with
  | refl => rfl
  | taken _ core => exact Value.sameCore_iff.mp core
  | keys => exact absurd rfl hname

theorem SameField.items {v w : Value} (h : SameField ("primary_keys", v) ("primary_keys", w)) :
    v.unwrap = w.unwrap ∨ ∃ items items', v.unwrap = .array items ∧ w.unwrap = .array items' ∧
      List.Forall₂ Value.SameCore items items' := by
  cases h with
  | refl => exact Or.inl rfl
  | taken _ core => exact Or.inl (Value.sameCore_iff.mp core)
  | keys left right each =>
      exact Or.inr ⟨_, _, Value.sameCore_iff.mp left, Value.sameCore_iff.mp right, each⟩

/-- The same fields in any order. Each field of one list has its counterpart in the other. -/
structure AreSame (fs gs : Fields) : Prop where
  left : AreDistinct fs
  right : AreDistinct gs
  forth : ∀ f ∈ fs, ∃ g ∈ gs, SameField f g
  back : ∀ g ∈ gs, ∃ f ∈ fs, SameField f g

theorem AreSame.perm {fs' gs' : Fields} (h : AreSame fs gs) (hfs : fs.Perm fs')
    (hgs : gs.Perm gs') : AreSame fs' gs' where
  left := h.left.perm hfs
  right := h.right.perm hgs
  forth f hf := by
    obtain ⟨g, hg, hsame⟩ := h.forth f (hfs.mem_iff.mpr hf)
    exact ⟨g, hgs.mem_iff.mp hg, hsame⟩
  back g hg := by
    obtain ⟨f, hf, hsame⟩ := h.back g (hgs.mem_iff.mpr hg)
    exact ⟨f, hfs.mem_iff.mp hf, hsame⟩

/-- Fields of one name belong together, and the others are the same without them. -/
theorem AreSame.of_cons {name : String} {v w : Value}
    (h : AreSame ((name, v) :: fs) ((name, w) :: gs)) :
    SameField (name, v) (name, w) ∧ AreSame fs gs := by
  constructor
  · obtain ⟨g, hg, hsame⟩ := h.forth _ List.mem_cons_self
    rcases List.mem_cons.mp hg with rfl | hg
    · exact hsame
    · exact absurd hsame.name_eq.symm (h.right.ne_of_mem hg)
  · refine ⟨h.left.tail, h.right.tail, ?_, ?_⟩
    · intro f hf
      obtain ⟨g, hg, hsame⟩ := h.forth f (List.mem_cons_of_mem _ hf)
      rcases List.mem_cons.mp hg with rfl | hg
      · exact absurd hsame.name_eq (h.left.ne_of_mem hf)
      · exact ⟨g, hg, hsame⟩
    · intro g hg
      obtain ⟨f, hf, hsame⟩ := h.back g (List.mem_cons_of_mem _ hg)
      rcases List.mem_cons.mp hf with rfl | hf
      · exact absurd hsame.name_eq.symm (h.right.ne_of_mem hg)
      · exact ⟨f, hf, hsame⟩

/-- The same field is taken from both lists, if any, and the same fields are left. -/
theorem take?_areSame (h : AreSame fs gs) (name : String) :
    (take? name fs = none ∧ take? name gs = none) ∨ ∃ v w fs' gs',
      take? name fs = some (v, fs') ∧ take? name gs = some (w, gs') ∧
        SameField (name, v) (name, w) ∧ AreSame fs' gs' := by
  have hisSome : (take? name fs).isSome ↔ (take? name gs).isSome := by
    simp only [take?_isSome_iff]
    constructor
    · rintro ⟨v, hv⟩
      obtain ⟨⟨n, w⟩, hw, hsame⟩ := h.forth _ hv
      obtain rfl : name = n := hsame.name_eq
      exact ⟨w, hw⟩
    · rintro ⟨w, hw⟩
      obtain ⟨⟨n, v⟩, hv, hsame⟩ := h.back _ hw
      obtain rfl : n = name := hsame.name_eq
      exact ⟨v, hv⟩
  cases hfs : take? name fs with
  | none =>
      rw [hfs, Option.isSome_none, Bool.false_eq_true, false_iff, Option.not_isSome_iff_eq_none]
        at hisSome
      exact Or.inl ⟨rfl, hisSome⟩
  | some p =>
      obtain ⟨v, fs'⟩ := p
      obtain ⟨⟨w, gs'⟩, hgs⟩ := Option.isSome_iff_exists.mp (hisSome.mp (by rw [hfs]; rfl))
      obtain ⟨hsame, hrest⟩ := (h.perm (take?_perm hfs) (take?_perm hgs)).of_cons
      exact Or.inr ⟨v, w, fs', gs', rfl, hgs, hsame, hrest⟩

/-- Fields that correspond one to one, after those of one list were moved around. -/
theorem areSame_of_forall₂ {moved : Fields} (hdistinct : AreDistinct fs) (hmoved : fs.Perm moved)
    (h : List.Forall₂ SameField moved gs) : AreSame fs gs := by
  have hboth : moved.map Prod.fst = gs.map Prod.fst ∧ (∀ f ∈ moved, ∃ g ∈ gs, SameField f g) ∧
      ∀ g ∈ gs, ∃ f ∈ moved, SameField f g := by
    clear hmoved
    induction h with
    | nil => exact ⟨rfl, List.forall_mem_nil _, List.forall_mem_nil _⟩
    | @cons f g moved gs hsame _ ih =>
        obtain ⟨hnames, hforth, hback⟩ := ih
        refine ⟨by rw [List.map_cons, List.map_cons, hsame.name_eq, hnames], ?_, ?_⟩
        · refine List.forall_mem_cons.mpr ⟨⟨g, List.mem_cons_self, hsame⟩, fun f' hf' => ?_⟩
          obtain ⟨g', hg', hsame'⟩ := hforth f' hf'
          exact ⟨g', List.mem_cons_of_mem _ hg', hsame'⟩
        · refine List.forall_mem_cons.mpr ⟨⟨f, List.mem_cons_self, hsame⟩, fun g' hg' => ?_⟩
          obtain ⟨f', hf', hsame'⟩ := hback g' hg'
          exact ⟨f', List.mem_cons_of_mem _ hf', hsame'⟩
  obtain ⟨hnames, hforth, hback⟩ := hboth
  have hmovedDistinct : AreDistinct moved := hdistinct.perm hmoved
  have hall : AreSame moved gs := by
    refine ⟨hmovedDistinct, ?_, hforth, hback⟩
    rw [AreDistinct, ← hnames]
    exact hmovedDistinct
  exact hall.perm hmoved.symm (List.Perm.refl gs)

/-- Two ways of taking something that give the same and leave the same fields, or fail for the same
reason. -/
inductive TakeAlike {α : Type} :
    Except DataFault (α × Fields) → Except DataFault (α × Fields) → Prop
  | error (fault : DataFault) : TakeAlike (.error fault) (.error fault)
  | ok (a : α) {fs gs : Fields} (rest : AreSame fs gs) : TakeAlike (.ok (a, fs)) (.ok (a, gs))

/-- What goes on in the same way from the same fields ends in the same way. -/
theorem TakeAlike.bind_eq {α β : Type} {x y : Except DataFault (α × Fields)} (h : TakeAlike x y)
    {next : α × Fields → Except DataFault β}
    (hnext : ∀ a fs gs, AreSame fs gs → next (a, fs) = next (a, gs)) :
    x >>= next = y >>= next := by
  cases h with
  | error fault => rfl
  | ok a rest => exact hnext a _ _ rest

theorem takeString_alike (h : AreSame fs gs) {name : String} (hname : name ≠ "primary_keys") :
    TakeAlike (takeString name fs) (takeString name gs) := by
  unfold takeString
  rcases take?_areSame h name with ⟨hfs, hgs⟩ | ⟨v, w, fs', gs', hfs, hgs, hsame, hrest⟩
  · rw [hfs, hgs]
    exact .error _
  · rw [hfs, hgs]
    dsimp only
    rw [hsame.unwrap_eq hname]
    split
    · exact .ok _ hrest
    · exact .ok _ hrest
    · exact .error _

theorem strings_congr (name : String) {items items' : List Value}
    (h : List.Forall₂ Value.SameCore items items') : strings name items = strings name items' := by
  induction h with
  | nil => rfl
  | cons hitem _ ih =>
      rw [strings, strings, Value.sameCore_iff.mp hitem, ih]

theorem takeStrings_alike (h : AreSame fs gs) :
    TakeAlike (takeStrings "primary_keys" fs) (takeStrings "primary_keys" gs) := by
  unfold takeStrings
  rcases take?_areSame h "primary_keys" with
    ⟨hfs, hgs⟩ | ⟨v, w, fs', gs', hfs, hgs, hsame, hrest⟩
  · rw [hfs, hgs]
    exact .ok [] h
  · rw [hfs, hgs]
    dsimp only
    have hstrings : ∀ x : Except DataFault (List String),
        TakeAlike (x.map (·, fs')) (x.map (·, gs')) := by
      rintro (fault | ss)
      · exact .error fault
      · exact .ok ss hrest
    rcases hsame.items with hunwrap | ⟨items, items', hv, hw, heach⟩
    · rw [hunwrap]
      split
      · exact hstrings _
      · exact .ok [] hrest
      · exact .error _
    · rw [hv, hw]
      dsimp only
      rw [strings_congr _ heach]
      exact hstrings _

end Fields

namespace Row

open Fields (AreSame TakeAlike SameField)

theorem takeImage_alike {fs gs : Fields} (h : AreSame fs gs) {name : String}
    (hname : name ≠ "primary_keys") : TakeAlike (takeImage name fs) (takeImage name gs) := by
  unfold takeImage
  rcases Fields.take?_areSame h name with ⟨hfs, hgs⟩ | ⟨v, w, fs', gs', hfs, hgs, hsame, hrest⟩
  · rw [hfs, hgs]
    exact .ok none h
  · rw [hfs, hgs]
    dsimp only
    rw [hsame.unwrap_eq hname]
    split
    · exact .ok none hrest
    · cases Fields.ofValue name w.unwrap with
      | error fault => exact .error fault
      | ok image => exact TakeAlike.ok (some (RowImage.mk image)) hrest

/-- A row depends on what the fields of its record hold under their names. -/
theorem ofValue_congr {v w : Value} {fs gs : Fields} (hv : v.unwrap = .record fs)
    (hw : w.unwrap = .record gs) (h : AreSame fs gs) : ofValue v = ofValue w := by
  have hfs : Fields.ofValue "row payload" v = .ok fs := by rw [Fields.ofValue, hv]
  have hgs : Fields.ofValue "row payload" w = .ok gs := by rw [Fields.ofValue, hw]
  unfold ofValue
  rw [hfs, hgs]
  refine (Fields.takeString_alike h (by decide)).bind_eq fun table _ _ h => ?_
  refine (Fields.takeStrings_alike h).bind_eq fun primaryKeys _ _ h => ?_
  refine (Fields.takeString_alike h (by decide)).bind_eq fun opType _ _ h => ?_
  refine (takeImage_alike h (by decide)).bind_eq fun before _ _ h => ?_
  exact (takeImage_alike h (by decide)).bind_eq fun after _ _ _ => rfl

/-- The same comes of the fields of a record in every order, with any unions around the record,
around the values that are taken and around each of the primary keys: the same row, or the same
reason why there is none. -/
theorem ofValue_rearranged {fields moved fields' : Fields}
    (hdistinct : (fields.map Prod.fst).Nodup) (hmoved : fields.Perm moved)
    (hsame : List.Forall₂ SameField moved fields') (indexes indexes' : List Nat) :
    ofValue (Value.wrap indexes (.record fields)) =
      ofValue (Value.wrap indexes' (.record fields')) :=
  ofValue_congr (Value.unwrap_wrap indexes _) (Value.unwrap_wrap indexes' _)
    (Fields.areSame_of_forall₂ hdistinct hmoved hsame)

/-- The insertion of a note, with a field that no row has. -/
def noteFields : Fields :=
  [("table", .string "SALES.NOTES"), ("primary_keys", .array [.string "id"]),
    ("op_type", .string "I"), ("before", .null), ("after", .record [("id", .long 1)]),
    ("version", .int 7)]

/-- The same fields from the last to the first, all but one within unions. -/
def wrappedFields : Fields :=
  [("version", .int 7), ("after", .union 1 (.union 0 (.record [("id", .long 1)]))),
    ("before", .union 0 .null), ("op_type", .union 1 (.string "I")),
    ("primary_keys", .union 1 (.array [.union 1 (.string "id")])),
    ("table", .union 0 (.string "SALES.NOTES"))]

theorem ofValue_rearranged_note : (noteFields.map Prod.fst).Nodup ∧
    List.Forall₂ SameField noteFields.reverse wrappedFields ∧
    ∃ row, ofValue (.record noteFields) = .ok row ∧ row.table = "SALES.NOTES" ∧
      row.primaryKeys = ["id"] ∧ row.opType = "I" ∧ row.before.isNone ∧ row.after.isSome ∧
      ofValue (.union 1 (.union 0 (.record wrappedFields))) = .ok row := by
  have hdistinct : (noteFields.map Prod.fst).Nodup := by decide
  have hsame : List.Forall₂ SameField noteFields.reverse wrappedFields := by
    have htaken : ∀ {name v w}, name ∈ Fields.takenNames → Value.unwrap v = w.unwrap →
        SameField (name, v) (name, w) := fun hname h => .taken hname (Value.sameCore_iff.mpr h)
    have hkeys : SameField ("primary_keys", .array [.string "id"])
        ("primary_keys", .union 1 (.array [.union 1 (.string "id")])) :=
      .keys (Value.sameCore_iff.mpr rfl) (Value.sameCore_iff.mpr rfl)
        (.cons (Value.sameCore_iff.mpr rfl) .nil)
    exact .cons (.refl _) (.cons (htaken (by decide) rfl) (.cons (htaken (by decide) rfl)
      (.cons (htaken (by decide) rfl) (.cons hkeys (.cons (htaken (by decide) rfl) .nil)))))
  have h := ofValue_rearranged hdistinct noteFields.reverse_perm.symm hsame [] [1, 0]
  have hrow : ofValue (.record noteFields) =
      .ok ⟨"SALES.NOTES", ["id"], "I", none, some ⟨[("id", .long 1)]⟩⟩ := rfl
  exact ⟨hdistinct, hsame, _, hrow, rfl, rfl, rfl, rfl, rfl, h.symm.trans hrow⟩

end Row

end Change

end ChangeCapture
