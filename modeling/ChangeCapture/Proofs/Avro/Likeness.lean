import ChangeCapture.Proofs.Avro.NearValues
import Mathlib.Data.List.Nodup

/-!
# Types that are alike

Two types are alike if they differ in the namespaces of their names only, and in what they refer to.
A type that stands alone refers to nothing and defines every label once. Whether a default suits it
does not depend on the definitions around it, so it suits all types that are like it.
-/

namespace ChangeCapture

namespace Avro

namespace Schema

/-! ## Alike types -/

/-- The size of a type that is held in a fixed number of bytes. -/
def fixedSize? : Schema → Option Nat
  | .fixed _ size => some size
  | _ => none

/-- Types that nest less than `n` deep and differ in the namespaces of their names only, in what
they refer to, and in the doubles of the defaults within them. -/
inductive Alike : Nat → Schema → Schema → Prop
  | basic {n : Nat} {s : Schema} (h : s.isBasic) : Alike (n + 1) s s
  | array {n : Nat} {s t : Schema} (h : Alike n s t) : Alike (n + 1) (.array s) (.array t)
  | map {n : Nat} {s t : Schema} (h : Alike n s t) : Alike (n + 1) (.map s) (.map t)
  | union {n : Nat} {ss ts : List Schema} (hlength : ss.length = ts.length)
      (h : ∀ {s t}, (s, t) ∈ ss.zip ts → Alike n s t) : Alike (n + 1) (.union ss) (.union ts)
  | record {n : Nat} {a b : Name} {fs gs : List (Field Schema)} (hlabel : a.label = b.label)
      (hlength : fs.length = gs.length)
      (hname : ∀ {f g}, (f, g) ∈ fs.zip gs → f.name = g.name)
      (htype : ∀ {f g}, (f, g) ∈ fs.zip gs → Alike n f.type g.type)
      (hdefault : ∀ {f g}, (f, g) ∈ fs.zip gs → Option.Rel Json.Near f.default g.default) :
      Alike (n + 1) (.record a fs) (.record b gs)
  | enumeration {n : Nat} {a b : Name} (symbols : List String) (default : Option String)
      (hlabel : a.label = b.label) :
      Alike (n + 1) (.enumeration a symbols default) (.enumeration b symbols default)
  | fixed {n : Nat} {a b : Name} (size : Nat) (hlabel : a.label = b.label) :
      Alike (n + 1) (.fixed a size) (.fixed b size)
  | decimal {n : Nat} {s t : Schema} (precision scale : Nat) (h : s.fixedSize? = t.fixedSize?) :
      Alike (n + 1) (.decimal s precision scale) (.decimal t precision scale)
  | ref {n : Nat} (a b : Name) : Alike (n + 1) (.ref a) (.ref b)

/-- Fields of one name with types that are alike. -/
structure FieldAlike (n : Nat) (f g : Field Schema) : Prop where
  name_eq : f.name = g.name
  type : Alike n f.type g.type
  default : Option.Rel Json.Near f.default g.default

namespace Alike

variable {n : Nat} {s t : Schema}

theorem kind_eq (h : Alike n s t) : s.kind = t.kind := by
  cases h <;> rfl

theorem of_branches {ss ts : List Schema} (h : List.Forall₂ (Alike n) ss ts) :
    Alike (n + 1) (.union ss) (.union ts) :=
  .union h.length_eq (List.forall₂_iff_zip.mp h).2

theorem of_fields {a b : Name} (hlabel : a.label = b.label) {fs gs : List (Field Schema)}
    (h : List.Forall₂ (FieldAlike n) fs gs) : Alike (n + 1) (.record a fs) (.record b gs) := by
  have hzip : ∀ {f g}, (f, g) ∈ fs.zip gs → FieldAlike n f g := (List.forall₂_iff_zip.mp h).2
  exact .record hlabel h.length_eq (fun hp => (hzip hp).name_eq) (fun hp => (hzip hp).type)
    fun hp => (hzip hp).default

theorem fields {a b : Name} {fs gs : List (Field Schema)}
    (h : Alike (n + 1) (.record a fs) (.record b gs)) :
    a.label = b.label ∧ List.Forall₂ (FieldAlike n) fs gs := by
  cases h with
  | basic h => exact nomatch h
  | record hlabel hlength hname htype hdefault =>
      exact ⟨hlabel, List.forall₂_iff_zip.mpr ⟨hlength, fun hp =>
        ⟨hname hp, htype hp, hdefault hp⟩⟩⟩

end Alike

/-! ## Types that stand alone -/

mutual

/-- A type and the types within it, in the order in which they are met. -/
def parts : Schema → List Schema
  | .array items => .array items :: items.parts
  | .map values => .map values :: values.parts
  | .union branches => .union branches :: branchParts branches
  | .record name fields => .record name fields :: fieldParts fields
  | s => [s]

def branchParts : List Schema → List Schema
  | [] => []
  | s :: rest => s.parts ++ branchParts rest

def fieldParts : List (Field Schema) → List Schema
  | [] => []
  | f :: rest => fieldPart f ++ fieldParts rest

def fieldPart : Field Schema → List Schema
  | ⟨_, type, _⟩ => type.parts

end

theorem branchParts_eq (branches : List Schema) :
    branchParts branches = branches.flatMap parts := by
  induction branches with
  | nil => rfl
  | cons s rest ih => rw [branchParts, ih, List.flatMap_cons]

theorem fieldParts_eq (fields : List (Field Schema)) :
    fieldParts fields = fields.flatMap fun f => f.type.parts := by
  induction fields with
  | nil => rfl
  | cons f rest ih =>
      obtain ⟨_, _, _⟩ := f
      rw [fieldParts, ih, List.flatMap_cons, fieldPart]

theorem parts_subset_branchParts {branches : List Schema} {s : Schema} (h : s ∈ branches) :
    s.parts ⊆ branchParts branches := by
  intro p hp
  rw [branchParts_eq]
  exact List.mem_flatMap_of_mem h hp

theorem parts_subset_fieldParts {fields : List (Field Schema)} {f : Field Schema}
    (h : f ∈ fields) : f.type.parts ⊆ fieldParts fields := by
  intro p hp
  rw [fieldParts_eq]
  exact List.mem_flatMap_of_mem h hp

/-- The label of a type that is defined where it stands. -/
def label? : Schema → Option String
  | .record name _ | .enumeration name _ _ | .fixed name _ => some name.label
  | _ => none

/-- The labels of the types that a type defines. -/
def labels (s : Schema) : List String := s.parts.filterMap label?

/-- A type that refers to no other and defines every label once. -/
structure StandsAlone (s : Schema) : Prop where
  kind_ne : ∀ p ∈ s.parts, p.kind ≠ .ref
  nodup : s.labels.Nodup

theorem StandsAlone.of_sublist {s t : Schema} (h : s.StandsAlone)
    (hparts : t.parts.Sublist s.parts) : t.StandsAlone :=
  ⟨fun p hp => h.kind_ne p (hparts.subset hp), h.nodup.sublist (hparts.filterMap label?)⟩

theorem StandsAlone.of_mem_branches {branches : List Schema} (h : (union branches).StandsAlone)
    {s : Schema} (hs : s ∈ branches) : s.StandsAlone := by
  refine h.of_sublist ?_
  rw [parts, branchParts_eq, List.flatMap_def]
  exact (List.sublist_flatten_of_mem (List.mem_map_of_mem hs)).cons _

theorem StandsAlone.of_mem_fields {name : Name} {fields : List (Field Schema)}
    (h : (record name fields).StandsAlone) {f : Field Schema} (hf : f ∈ fields) :
    f.type.StandsAlone := by
  refine h.of_sublist ?_
  have hparts : f.type.parts ∈ fields.map fun f => f.type.parts := List.mem_map.mpr ⟨f, hf, rfl⟩
  rw [parts, fieldParts_eq, List.flatMap_def]
  exact (List.sublist_flatten_of_mem hparts).cons _

theorem StandsAlone.of_items {items : Schema} (h : (array items).StandsAlone) :
    items.StandsAlone :=
  h.of_sublist (List.sublist_cons_self _ _)

theorem StandsAlone.of_values {values : Schema} (h : (map values).StandsAlone) :
    values.StandsAlone :=
  h.of_sublist (List.sublist_cons_self _ _)

/-- The part that a type has in what is defined. -/
def role (s : Schema) : Kind × Option String := (s.kind, s.label?)

theorem labels_eq_roles (s : Schema) : s.labels = (s.parts.map role).filterMap Prod.snd := by
  rw [labels, List.filterMap_map]
  rfl

theorem Alike.roles_eq {n : Nat} {s t : Schema} (h : Alike n s t) :
    s.parts.map role = t.parts.map role := by
  -- The parts of a union or a record are alike at a smaller depth, but there are many of them.
  induction n generalizing s t with
  | zero => nomatch h
  | succ n ih =>
      cases h with
      | basic => rfl
      | array h | map h => exact congrArg₂ List.cons rfl (ih h)
      | union hlength h =>
          have hbranches := List.forall₂_iff_zip.mpr ⟨hlength, h⟩
          have hroles := map_eq_map hbranches fun _ _ => ih
          rw [parts, parts, branchParts_eq, branchParts_eq, List.map_cons, List.map_cons,
            List.map_flatMap, List.map_flatMap, List.flatMap_def, List.flatMap_def, hroles]
          rfl
      | record hlabel hlength _ htype _ =>
          have hfields := List.forall₂_iff_zip.mpr ⟨hlength, htype⟩
          have hroles := map_eq_map hfields fun _ _ => ih
          rw [parts, parts, fieldParts_eq, fieldParts_eq, List.map_cons, List.map_cons,
            List.map_flatMap, List.map_flatMap, List.flatMap_def, List.flatMap_def, hroles, role,
            label?, hlabel]
          rfl
      | enumeration _ _ hlabel | fixed _ hlabel =>
          simp only [parts, List.map_cons, List.map_nil, role, label?, kind, hlabel]
      | decimal | ref => rfl

theorem Alike.standsAlone {n : Nat} {s t : Schema} (h : Alike n s t) (hs : s.StandsAlone) :
    t.StandsAlone := by
  constructor
  · intro q hq
    have hrole : q.role ∈ s.parts.map role := h.roles_eq ▸ List.mem_map_of_mem hq
    obtain ⟨p, hp, hpq⟩ := List.mem_map.mp hrole
    have hkind : p.kind = q.kind := congrArg Prod.fst hpq
    exact hkind ▸ hs.kind_ne p hp
  · rw [labels_eq_roles, ← h.roles_eq, ← labels_eq_roles]
    exact hs.nodup

end Schema

/-! ## Types that stand alone can be defined -/

/-- The labels of the types that are defined. -/
def Definitions.labels (defs : Definitions) : List String := defs.map fun p => p.1.label

theorem Definitions.lookup_eq_none {defs : Definitions} {name : Name}
    (h : name.label ∉ defs.labels) : (defs.lookup name).isSome = false := by
  rw [Option.isSome_eq_false_iff, Option.isNone_iff_eq_none, List.lookup_eq_none_iff]
  intro p hp
  rw [bne_iff_ne]
  rintro rfl
  exact h (List.mem_map_of_mem hp)

namespace Schema

/-- Types that refer to nothing, whose labels are new among those that are defined. -/
structure CanFollow (ps : List Schema) (defs : Definitions) : Prop where
  kind_ne : ∀ p ∈ ps, p.kind ≠ .ref
  nodup : ((ps.filterMap label?).reverse ++ defs.labels).Nodup

/-- Definitions with those of more types in front of them. -/
def Follows (ps : List Schema) (defs defs' : Definitions) : Prop :=
  defs'.labels = (ps.filterMap label?).reverse ++ defs.labels

namespace CanFollow

variable {ps qs : List Schema} {defs mid : Definitions}

theorem of_append_left (h : CanFollow (ps ++ qs) defs) : CanFollow ps defs := by
  obtain ⟨hkind, hnodup⟩ := h
  refine ⟨fun p hp => hkind p (List.mem_append_left _ hp), ?_⟩
  rw [List.filterMap_append, List.reverse_append, List.append_assoc] at hnodup
  exact hnodup.of_append_right

theorem of_append_right (h : CanFollow (ps ++ qs) defs) (hmid : Follows ps defs mid) :
    CanFollow qs mid := by
  obtain ⟨hkind, hnodup⟩ := h
  refine ⟨fun p hp => hkind p (List.mem_append_right _ hp), ?_⟩
  rw [List.filterMap_append, List.reverse_append, List.append_assoc] at hnodup
  rwa [hmid]

end CanFollow

theorem Follows.append {ps qs : List Schema} {defs mid defs' : Definitions}
    (h : Follows ps defs mid) (h' : Follows qs mid defs') : Follows (ps ++ qs) defs defs' := by
  unfold Follows at *
  rw [h', h, List.filterMap_append, List.reverse_append, List.append_assoc]

theorem CanFollow.tail {s : Schema} {ps : List Schema} {defs : Definitions}
    (hs : s.label? = none) (h : CanFollow (s :: ps) defs) : CanFollow ps defs := by
  obtain ⟨hkind, hnodup⟩ := h
  rw [List.filterMap_cons_none hs] at hnodup
  exact ⟨fun p hp => hkind p (List.mem_cons_of_mem s hp), hnodup⟩

theorem CanFollow.named {s : Schema} {ps : List Schema} {defs : Definitions} (name : Name)
    (hs : s.label? = some name.label) (h : CanFollow (s :: ps) defs) :
    (defs.lookup name).isSome = false ∧ CanFollow ps ((name, s) :: defs) := by
  obtain ⟨hkind, hnodup⟩ := h
  rw [List.filterMap_cons_some hs, List.reverse_cons, List.append_assoc] at hnodup
  refine ⟨Definitions.lookup_eq_none ?_, fun p hp => hkind p (List.mem_cons_of_mem s hp), hnodup⟩
  exact (List.nodup_cons.mp hnodup.of_append_right).1

theorem Follows.named {s : Schema} {ps : List Schema} {defs defs' : Definitions} (name : Name)
    (hs : s.label? = some name.label) (h : Follows ps ((name, s) :: defs) defs') :
    Follows (s :: ps) defs defs' := by
  unfold Follows at *
  rw [h, List.filterMap_cons_some hs, List.reverse_cons, List.append_assoc]
  rfl

mutual

theorem exists_define? : ∀ (s : Schema) {known defs : Definitions} {space : Option String},
    CanFollow s.parts defs → ∃ defs', define? known space defs s = some defs' ∧
      Follows s.parts defs defs'
  | .array items, _, _, _, h => exists_define? items (h.tail rfl)
  | .map values, _, _, _, h => exists_define? values (h.tail rfl)
  | .union branches, _, _, _, h => exists_defineBranches? branches (h.tail rfl)
  | .record name fields, _, defs, space, h => by
      obtain ⟨hnew, hrest⟩ := h.named (name.within space) rfl
      obtain ⟨defs', hdefine, hfollows⟩ := exists_defineFields? fields hrest
      exact ⟨defs', by rw [define?, hnew]; exact hdefine, hfollows.named (name.within space) rfl⟩
  | .enumeration name symbols default, _, defs, space, h => by
      obtain ⟨hnew, -⟩ := h.named (name.within space) rfl
      exact ⟨_, by rw [define?, hnew]; rfl, Follows.named (name.within space) rfl rfl⟩
  | .fixed name size, _, defs, space, h => by
      obtain ⟨hnew, -⟩ := h.named (name.within space) rfl
      exact ⟨_, by rw [define?, hnew]; rfl, Follows.named (name.within space) rfl rfl⟩
  | .ref name, _, _, _, h => absurd rfl (h.kind_ne (.ref name) (List.mem_singleton_self _))
  | .null, _, _, _, _ | .boolean, _, _, _, _ | .int, _, _, _, _ | .long, _, _, _, _
  | .float, _, _, _, _ | .double, _, _, _, _ | .bytes, _, _, _, _ | .string, _, _, _, _
  | .decimal _ _ _, _, _, _, _ | .bigDecimal, _, _, _, _ | .uuid, _, _, _, _
  | .date, _, _, _, _ | .timeMillis, _, _, _, _ | .instant _, _, _, _, _
  | .duration, _, _, _, _ => ⟨_, rfl, rfl⟩

theorem exists_defineBranches? : ∀ (branches : List Schema) {known defs : Definitions}
    {space : Option String}, CanFollow (branchParts branches) defs →
    ∃ defs', defineBranches? known space defs branches = some defs' ∧
      Follows (branchParts branches) defs defs'
  | [], _, _, _, _ => ⟨_, rfl, rfl⟩
  | s :: rest, _, _, _, h => by
      obtain ⟨mid, hs, hmid⟩ := exists_define? s h.of_append_left
      obtain ⟨defs', hrest, hdefs'⟩ := exists_defineBranches? rest (h.of_append_right hmid)
      exact ⟨defs', by rw [defineBranches?, hs]; exact hrest, hmid.append hdefs'⟩

theorem exists_defineFields? : ∀ (fields : List (Field Schema)) {known defs : Definitions}
    {space : Option String}, CanFollow (fieldParts fields) defs →
    ∃ defs', defineFields? known space defs fields = some defs' ∧
      Follows (fieldParts fields) defs defs'
  | [], _, _, _, _ => ⟨_, rfl, rfl⟩
  | ⟨_, type, _⟩ :: rest, _, _, _, h => by
      obtain ⟨mid, htype, hmid⟩ := exists_define? type h.of_append_left
      obtain ⟨defs', hrest, hdefs'⟩ := exists_defineFields? rest (h.of_append_right hmid)
      exact ⟨defs', by rw [defineFields?, defineField?, htype]; exact hrest, hmid.append hdefs'⟩

end

theorem StandsAlone.exists_define? {s : Schema} (h : s.StandsAlone) (known : Definitions)
    (space : Option String) : ∃ defs, define? known space [] s = some defs := by
  have hfollow : CanFollow s.parts [] := by
    refine ⟨h.kind_ne, ?_⟩
    rw [Definitions.labels, List.map_nil, List.append_nil, List.nodup_reverse]
    exact h.nodup
  obtain ⟨defs, hdefs, -⟩ := Schema.exists_define? s hfollow
  exact ⟨defs, hdefs⟩

end Schema

/-! ## Defaults of types that are alike -/

namespace Value

open Schema (Alike FieldAlike StandsAlone)

/-- Ways to read values that give what is near for types that are alike, wherever these stand. -/
def Agree (bound : Nat) (r r' : Definitions → Option String → Schema → Value → Option Value) :
    Prop :=
  ∀ ⦃n s t v w⦄, n ≤ bound → Alike n s t → s.StandsAlone → Near v w →
    ∀ defs defs' space space', Option.Rel Near (r defs space s v) (r' defs' space' t w)

/-- Numbered branches that are alike and stand alone. -/
structure BranchAlike (n : Nat) (p q : Nat × Schema) : Prop where
  index_eq : p.1 = q.1
  alike : Alike n p.2 q.2
  alone : p.2.StandsAlone

section

variable {bound n : Nat}
  {r r' : Definitions → Option String → Schema → Value → Option Value} {v w : Value}

theorem rel_firstBranch? (hr : Agree bound r r') (hn : n ≤ bound) (hv : Near v w)
    {ps qs : List (Nat × Schema)} (h : List.Forall₂ (BranchAlike n) ps qs)
    (space space' : Option String) (defs defs' : Definitions) : Option.Rel (BranchAlike n)
      (firstBranch? r space v defs ps) (firstBranch? r' space' w defs' qs) := by
  induction h generalizing defs defs' with
  | nil => exact .none
  | @cons p q ps qs hpq _ ih =>
      obtain ⟨i, b⟩ := p
      obtain ⟨j, c⟩ := q
      -- What the branches define differs, which the readers do not see.
      obtain ⟨own, hown⟩ := hpq.alone.exists_define? defs space
      obtain ⟨own', hown'⟩ := (hpq.alike.standsAlone hpq.alone).exists_define? defs' space'
      have hread := rel_isSome (hr hn hpq.alike hpq.alone hv (own ++ defs) (own' ++ defs')
        (b.space?.or space) (c.space?.or space'))
      simp only [firstBranch?, hown, hown', hread]
      split
      · exact .some hpq
      · exact ih (own ++ defs) (own' ++ defs')

theorem forall₂_numbered {ss ts : List Schema} (h : List.Forall₂ (Alike n) ss ts)
    (hs : ∀ s ∈ ss, s.StandsAlone) (i : Nat) : List.Forall₂ (BranchAlike n)
      ((ss.zipIdx i).map fun p => (p.2, p.1)) ((ts.zipIdx i).map fun p => (p.2, p.1)) := by
  induction h generalizing i with
  | nil => exact .nil
  | cons hst _ ih =>
      obtain ⟨hhead, htail⟩ := List.forall_mem_cons.mp hs
      rw [List.zipIdx_cons, List.zipIdx_cons]
      exact .cons ⟨rfl, hst, hhead⟩ (ih htail (i + 1))

theorem rel_branch? (hr : Agree bound r r') (hn : n ≤ bound) (hv : Near v w)
    {ss ts : List Schema} (h : List.Forall₂ (Alike n) ss ts) (hs : ∀ s ∈ ss, s.StandsAlone)
    (defs defs' : Definitions) (space space' : Option String) :
    Option.Rel (BranchAlike n) (branch? r defs space ss v) (branch? r' defs' space' ts w) := by
  have hnumbered := forall₂_numbered h hs 0
  have hfind := rel_find? hnumbered
    (p := fun p => decide (p.2.kind = v.kind ∧ ¬p.2.kind.isNamed))
    (q := fun p => decide (p.2.kind = w.kind ∧ ¬p.2.kind.isNamed)) fun p q hpq => by
      rw [hpq.alike.kind_eq, hv.kind_eq]
  unfold branch?
  dsimp only
  revert hfind
  generalize List.find? _ _ = x
  generalize List.find? _ _ = y
  intro hfind
  cases hfind with
  | some hpq => exact .some hpq
  | none => exact rel_firstBranch? hr hn hv hnumbered space space' defs defs'

theorem ofDefault?_basic {q : Schema → Value → Option Value} {s : Schema} (h : s.isBasic)
    (d : Json) : ofDefault? q s d = some (ofJson d) := by
  cases s <;> first | rfl | simp [Schema.isBasic] at h

theorem ofDefault?_union {q : Schema → Value → Option Value} {first : Schema}
    (h : first.kind ≠ .null) (rest : List Schema) (d : Json) :
    ofDefault? q (.union (first :: rest)) d = (q first (ofJson d)).map (.union 0) := by
  cases first with
  | null => exact absurd rfl h
  | _ => rfl

theorem eq_null_of_kind {s : Schema} (h : s.kind = .null) : s = .null := by
  cases s <;> first | rfl | exact nomatch h

theorem rel_ofDefault? (hr : Agree bound r r') (hn : n ≤ bound) {s t : Schema} (h : Alike n s t)
    (hs : s.StandsAlone) {d d' : Json} (hd : Json.Near d d') (defs defs' : Definitions)
    (space space' : Option String) :
    Option.Rel Near (ofDefault? (r defs space) s d) (ofDefault? (r' defs' space') t d') := by
  have hvalue := near_ofJson d hd
  cases h with
  | basic h =>
      rw [ofDefault?_basic h, ofDefault?_basic h]
      exact .some hvalue
  | enumeration symbols default _ =>
      simp only [ofDefault?, hvalue.toSymbol?_eq]
      exact rel_refl .refl
  | @union n ss ts hlength h =>
      have hbranches := List.forall₂_iff_zip.mpr ⟨hlength, h⟩
      cases hbranches with
      | nil => exact .none
      | @cons first first' rest rest' hfirst _ =>
          by_cases hnull : first.kind = .null
          · obtain rfl := eq_null_of_kind hnull
            obtain rfl := eq_null_of_kind (hfirst.kind_eq ▸ hnull)
            exact .some (.refl _)
          · rw [ofDefault?_union hnull, ofDefault?_union (hfirst.kind_eq ▸ hnull)]
            have halone := hs.of_mem_branches List.mem_cons_self
            refine rel_map (hr (by omega) hfirst halone hvalue defs defs' space space') ?_
            exact fun _ _ => .union 0
  | _ => exact .some hvalue

theorem rel_toFields? (hr : Agree bound r r') (hn : n ≤ bound) {fs gs : List (Field Schema)}
    (h : List.Forall₂ (FieldAlike n) fs gs) (hs : ∀ f ∈ fs, f.type.StandsAlone)
    {ms ns : List (String × Value)} (hmembers : List.Forall₂ (SameKey Near) ms ns)
    (defs defs' : Definitions) (space space' : Option String) :
    Option.Rel (List.Forall₂ (SameKey Near)) (toFields? (r defs space) ms fs)
      (toFields? (r' defs' space') ns gs) := by
  induction h with
  | nil => exact .some .nil
  | @cons f g fs gs hfg _ ih =>
      obtain ⟨hf, hfs⟩ := List.forall_mem_cons.mp hs
      -- what is given for the field is read as its type, then the later fields are
      have hlater : ∀ v w, Near v w → Option.Rel (List.Forall₂ (SameKey Near))
          ((r defs space f.type v).bind fun x =>
            (toFields? (r defs space) ms fs).bind fun xs => some ((f.name, x) :: xs))
          ((r' defs' space' g.type w).bind fun y =>
            (toFields? (r' defs' space') ns gs).bind fun ys => some ((g.name, y) :: ys)) := by
        intro v w hv
        refine rel_bind (hr hn hfg.type hf hv defs defs' space space') fun x y hx => ?_
        exact rel_bind (ih hfs) fun xs ys hxs => .some (.cons ⟨hfg.name_eq, hx⟩ hxs)
      have hlookup := rel_lookup hmembers f.name
      rw [toFields?, toFields?, ← hfg.name_eq]
      rw [← hfg.name_eq] at hlater
      revert hlookup
      generalize ms.lookup f.name = x
      generalize ns.lookup f.name = y
      intro hlookup
      cases hlookup with
      | some hv => exact hlater _ _ hv
      | none =>
          refine rel_bind (rel_bind hfg.default fun d d' hd => ?_) hlater
          exact rel_ofDefault? hr hn hfg.type hf hd defs defs' space space'

end

/-- Of the type that a decimal is held in only the size counts. -/
theorem toDecimal?_of_fixedSize? {s t : Schema} (h : s.fixedSize? = t.fixedSize?) (precision : Nat)
    (v : Value) : v.toDecimal? s precision = v.toDecimal? t precision := by
  have hsize : ∀ s : Schema, v.toDecimal? s precision =
      v.toDecimal? (s.fixedSize?.elim .bytes (.fixed ⟨"", none⟩)) precision := by
    intro s
    cases s <;> rfl
  rw [hsize s, h, ← hsize t]

/-- A value is read as types that are alike in the same way, if these stand alone. -/
theorem agree_resolve? (bound : Nat) {fuel fuel' : Nat} (hfuel : bound ≤ fuel)
    (hfuel' : bound ≤ fuel') : Agree bound (resolve? fuel) (resolve? fuel') := by
  -- Every type within a type nests less deep, so the readers of one step less agree on it.
  induction bound generalizing fuel fuel' with
  | zero =>
      intro n s t v w hn h
      obtain rfl := Nat.le_zero.mp hn
      nomatch h
  | succ bound ih =>
      obtain ⟨fuel, rfl⟩ := Nat.exists_eq_add_of_le' (Nat.le_trans (Nat.le_add_left 1 bound) hfuel)
      obtain ⟨fuel', rfl⟩ :=
        Nat.exists_eq_add_of_le' (Nat.le_trans (Nat.le_add_left 1 bound) hfuel')
      have hr := ih (Nat.le_of_succ_le_succ hfuel) (Nat.le_of_succ_le_succ hfuel')
      intro n s t v w hn h hs hv defs defs' space space'
      have hinner := hv.inner
      cases h with
      | basic h => exact Schema.near_resolve?_basic h hv fuel fuel' defs defs' space space'
      | ref a b => exact absurd rfl (hs.kind_ne (.ref a) (List.mem_singleton_self _))
      | enumeration symbols default _ =>
          rw [resolve?_enumeration, resolve?_enumeration, hinner.toSymbol?_eq]
          exact rel_refl .refl
      | fixed size _ =>
          rw [resolve?_fixed, resolve?_fixed, hinner.toFixed?_eq]
          exact rel_refl .refl
      | decimal precision scale h =>
          rw [resolve?_decimal, resolve?_decimal, hinner.toDecimal?_eq, toDecimal?_of_fixedSize? h]
          exact rel_refl .refl
      | @array m s t h =>
          rw [resolve?_array, resolve?_array]
          refine rel_bind hinner.items? fun xs ys hxs => ?_
          refine rel_map (rel_mapM hxs fun x y hx => ?_) fun _ _ => .array
          exact hr (by omega) h hs.of_items hx defs defs' space space'
      | @map m s t h =>
          rw [resolve?_map, resolve?_map]
          refine rel_bind hinner.entries? fun xs ys hxs => ?_
          have hentries := rel_mapM (S := SameKey Near) hxs fun x y hx =>
            rel_map (hr (by omega) h hs.of_values hx.2 defs defs' space space')
              fun a b hab => (⟨hx.1, hab⟩ : SameKey Near (x.1, a) (y.1, b))
          refine rel_map hentries fun xs ys hxs => ?_
          exact .map (map_eq_map hxs fun _ _ hx => hx.1) (List.rel_map (fun _ _ hx => hx.2) hxs)
      | @union m ss ts hlength h =>
          have hbranches := List.forall₂_iff_zip.mpr ⟨hlength, h⟩
          rw [resolve?_union, resolve?_union]
          refine rel_bind (rel_branch? hr (n := m) (by omega) hinner hbranches
            (fun s => hs.of_mem_branches) defs defs' space space') fun p q hpq => ?_
          rw [← hpq.index_eq]
          exact rel_map (hr (by omega) hpq.alike hpq.alone hinner defs defs' space space')
            fun _ _ => .union p.1
      | @record m a b fs gs hlabel hlength hname htype hdefault =>
          obtain ⟨-, hfields⟩ := (Alike.record hlabel hlength hname htype hdefault).fields
          rw [resolve?_record, resolve?_record]
          refine rel_bind hinner.asMembers? fun ms ns hms => ?_
          refine rel_map (rel_toFields? hr (n := m) (by omega) hfields
            (fun f => hs.of_mem_fields) hms defs defs' space space') fun xs ys hxs => ?_
          exact .record (map_eq_map hxs fun _ _ hx => hx.1) (List.rel_map (fun _ _ hx => hx.2) hxs)

end Value

namespace Schema

open Value (resolve? near_ofJson agree_resolve?)

/-- A union that null is a branch of. -/
def holdsNull : Schema → Bool
  | .union branches => branches.any fun b => b.kind == .null
  | _ => false

theorem suits_of_ne_union {s : Schema} (h : s.kind ≠ .union) (defs : Definitions) (fuel : Nat)
    (d : Json) : s.suits defs fuel d = (resolve? fuel defs s.space? s (Value.ofJson d)).isSome := by
  cases s with
  | union => exact absurd rfl h
  | _ => rfl

variable {n fuel fuel' : Nat} {s t : Schema} {d d' : Json} {defs : Definitions}

/-- A default that suits a type that stands alone suits all types that are like it. -/
theorem Alike.suits (h : Alike n s t) (hfuel : n ≤ fuel) (hfuel' : n ≤ fuel')
    (hs : s.StandsAlone) (hd : Json.Near d d') (defs' : Definitions)
    (hsuits : s.suits defs fuel d) : t.suits defs' fuel' d' := by
  have hvalue := near_ofJson d hd
  have hagree := agree_resolve? n hfuel hfuel'
  -- A default suits a union if it suits any branch, not only the one that a value is read as.
  by_cases hunion : s.kind = .union
  · cases h with
    | basic h => exact absurd hunion (kind_ne_union_of_basic h)
    | @union m ss ts hlength h =>
        have hbranches := (List.forall₂_and_left _ _).mpr
          ⟨fun s => hs.of_mem_branches, List.forall₂_iff_zip.mpr ⟨hlength, h⟩⟩
        have hsame : (Schema.union ss).suits defs fuel d = (Schema.union ts).suits defs' fuel' d' :=
          any_eq_any hbranches fun b c hbc =>
            rel_isSome (hagree (Nat.le_succ m) hbc.2 hbc.1 hvalue defs defs' b.space? c.space?)
        exact hsame ▸ hsuits
    | _ => exact nomatch hunion
  · rw [suits_of_ne_union hunion] at hsuits
    rw [suits_of_ne_union (h.kind_eq ▸ hunion), ← hsuits]
    exact (rel_isSome (hagree (Nat.le_refl n) h hs hvalue _ _ _ _)).symm

theorem Alike.holdsNull_eq (h : Alike n s t) : s.holdsNull = t.holdsNull := by
  cases h with
  | union hlength h =>
      refine any_eq_any (List.forall₂_iff_zip.mpr ⟨hlength, h⟩) fun b c hbc => ?_
      rw [hbc.kind_eq]
  | _ => rfl

/-- Null suits every union that it is a branch of. -/
theorem suits_null (h : s.holdsNull) (defs : Definitions) (fuel : Nat) :
    s.suits defs (fuel + 1) .null := by
  cases s with
  | union branches =>
      obtain ⟨b, hb, hkind⟩ := List.any_eq_true.mp h
      obtain rfl := Value.eq_null_of_kind (by simpa using hkind)
      exact List.any_eq_true.mpr ⟨.null, hb, rfl⟩
  | _ => exact nomatch h

end Schema

end Avro

end ChangeCapture
