import ChangeCapture.Proofs.Avro.Readings

/-!
# Names in a declaration

A declaration mentions names in a fixed order: it defines some of them and refers to others. It is
read only if every name that it refers to was defined before it, and a scope knows exactly the names
that were defined.
-/

namespace ChangeCapture.Avro

/-- What a declaration says of a name: that a type of it is defined here, with aliases, or is meant
here. A type may also be meant by an object without the members of a definition. -/
inductive Mention
  | defines (names : List Name)
  | refers (name : Name)
  | copies (name : Name)
  deriving DecidableEq, Repr

namespace Mention

/-- The names that are defined. -/
def defined : List Mention → List Name
  | [] => []
  | .defines names :: rest => names ++ defined rest
  | _ :: rest => defined rest

/-- Every name that is meant is known from the beginning or was defined before. -/
def Closed : List Name → List Mention → Prop
  | _, [] => True
  | known, .defines names :: rest => Closed (names ++ known) rest
  | known, .refers name :: rest => name ∈ known ∧ Closed known rest
  | known, .copies name :: rest => name ∈ known ∧ Closed known rest

instance decidableClosed : (known : List Name) → (ms : List Mention) → Decidable (Closed known ms)
  | _, [] => .isTrue trivial
  | known, .defines names :: rest => decidableClosed (names ++ known) rest
  | known, .refers name :: rest | known, .copies name :: rest =>
      @instDecidableAnd (name ∈ known) _ _ (decidableClosed known rest)

variable {known known' : List Name} {ms ns : List Mention}

theorem Closed.mono (h : Closed known ms) (hknown : known ⊆ known') : Closed known' ms := by
  induction ms generalizing known known' with
  | nil => trivial
  | cons m ms ih =>
      cases m with
      | defines names => exact ih h (List.append_subset.mpr
          ⟨List.subset_append_left _ _, List.subset_append_of_subset_right _ hknown⟩)
      | refers name | copies name => exact ⟨hknown h.1, ih h.2 hknown⟩

theorem defined_append (ms ns : List Mention) : defined (ms ++ ns) = defined ms ++ defined ns := by
  induction ms with
  | nil => rfl
  | cons m ms ih =>
      cases m with
      | defines names => simp only [List.cons_append, defined, ih, List.append_assoc]
      | refers | copies => exact ih

theorem closed_append :
    Closed known (ms ++ ns) ↔ Closed known ms ∧ Closed (defined ms ++ known) ns := by
  induction ms generalizing known with
  | nil => exact (true_and _).symm ▸ Iff.rfl
  | cons m ms ih =>
      cases m with
      | defines names =>
          -- The names that were defined come in another order here.
          rw [List.cons_append, Closed, ih, Closed, defined]
          have hnames : ∀ n, n ∈ defined ms ++ (names ++ known) ↔
              n ∈ names ++ defined ms ++ known := by
            simp only [List.mem_append]
            grind
          exact and_congr_right fun _ => ⟨fun h => h.mono fun n => (hnames n).mp,
            fun h => h.mono fun n => (hnames n).mpr⟩
      | refers | copies => simp only [List.cons_append, Closed, defined, ih, and_assoc]

end Mention

/-- The names that a scope knows. -/
def Scope.names (scope : Scope) : List Name :=
  scope.complete.map Prod.fst ++ scope.pending.map Prod.fst

namespace Declaration

/-- The entries of a record's list of fields. -/
def entries (v : Json) : List Json :=
  (((v.get? "fields").bind Json.asArr?).getD []).filter isObject

def wordMentions (space : Option String) (word : String) : List Mention :=
  match primitive? word with
  | some _ => []
  | none => (((Name.ofText? word).map (Name.within space)).map Mention.refers).toList

/-- A definition has the member `key`; without it the object means the type of the name `word`. -/
def definitionMentions (word key : String) (inside : Option String → List Mention)
    (space : Option String) (v : Json) : List Mention :=
  match v.get? key with
  | none => [.copies (Name.within space ⟨word, none⟩)]
  | some _ =>
      match name? space v with
      | none => []
      | some name => .defines (name :: (aliases? name v).getD []) :: inside name.space

def fixedMentions : Option String → Json → List Mention :=
  definitionMentions "fixed" "size" fun _ => []

/-- The mentions of an object whose mark is known. -/
def markedMentions (inside : Option String → Json → List Mention) (space : Option String)
    (v : Json) : List Mention :=
  match v.get? "type" with
  | none => []
  | some (.str "fixed") => fixedMentions space v
  | some type => inside space type

/-- The mentions of an object without such a mark. -/
def plainMentions (inside : Option String → Json → List Mention) (space : Option String)
    (v : Json) : List Mention :=
  match v.get? "type" with
  | some (.str "record") =>
      definitionMentions "record" "fields" (fun space => (entries v).flatMap (inside space)) space v
  | some (.str "enum") => definitionMentions "enum" "symbols" (fun _ => []) space v
  | some (.str "array") => ((v.get? "items").map (inside space)).getD []
  | some (.str "map") => ((v.get? "values").map (inside space)).getD []
  | some (.str "fixed") => fixedMentions space v
  | some (.str word) => wordMentions space word
  | some type => inside space type
  | none => []

theorem plainMentions_nested {inside : Option String → Json → List Mention} {v type : Json}
    (h : v.get? "type" = some type) (hnested : IsNested type) (space : Option String) :
    plainMentions inside space v = inside space type := by
  cases type with
  | arr | obj => simp only [plainMentions, h]
  | _ => exact hnested.elim

/-- The mentions of a type that stands inside a namespace, in the order in which it is read. -/
def mentions : Nat → Option String → Json → List Mention
  | 0, _, _ => []
  | fuel + 1, space, v =>
      match v with
      | .str word => wordMentions space word
      | .arr branches => branches.flatMap (mentions fuel space)
      | .obj _ =>
          match mark? v with
          | some _ => markedMentions (mentions fuel) space v
          | none => plainMentions (mentions fuel) space v
      | _ => []

/-- The names that a piece of a declaration means are known, and those that it defines are known
after it. -/
structure Covers (scope scope' : Scope) (ms : List Mention) : Prop where
  closed : Mention.Closed scope.names ms
  mem_names : ∀ n, n ∈ scope'.names ↔ n ∈ Mention.defined ms ++ scope.names

namespace Covers

variable {scope mid scope' : Scope} {ms ns : List Mention}

theorem refl (scope : Scope) : Covers scope scope [] := ⟨trivial, fun _ => Iff.rfl⟩

theorem append (h : Covers scope mid ms) (h' : Covers mid scope' ns) :
    Covers scope scope' (ms ++ ns) := by
  refine ⟨Mention.closed_append.mpr ⟨h.closed, h'.closed.mono fun n => (h.mem_names n).mp⟩, ?_⟩
  intro n
  rw [h'.mem_names, Mention.defined_append, List.mem_append, h.mem_names]
  simp only [List.mem_append]
  grind

theorem refers {name : Name} (h : name ∈ scope.names) : Covers scope scope [.refers name] :=
  ⟨⟨h, trivial⟩, fun _ => Iff.rfl⟩

theorem copies {name : Name} (h : name ∈ scope.names) : Covers scope scope [.copies name] :=
  ⟨⟨h, trivial⟩, fun _ => Iff.rfl⟩

theorem mem_names_start (scope : Scope) (name : Name) (aliases : List Name) (n : Name) :
    n ∈ (scope.start name aliases).names ↔ n ∈ name :: aliases ++ scope.names := by
  simp only [Scope.start, Scope.names, List.map_append, List.map_cons, List.map_map,
    List.mem_append, List.mem_cons, List.mem_map, Function.comp_apply, exists_eq_right]
  grind

theorem mem_names_finish (scope : Scope) (name : Name) (aliases : List Name) (s : Schema)
    (n : Name) :
    n ∈ (scope.finish name aliases s).names ↔ n ∈ name :: aliases ++ scope.names := by
  have hcomplete : n ∈ (scope.finish name aliases s).complete.map Prod.fst ↔
      n ∈ name :: aliases ∨ n ∈ scope.complete.map Prod.fst := by
    rw [Scope.finish, List.map_append, List.map_reverse, List.mem_append, List.mem_reverse,
      List.map_map]
    exact or_congr_left (by simp)
  have hpending : n ∈ (scope.finish name aliases s).pending.map Prod.fst ↔
      n ∉ name :: aliases ∧ n ∈ scope.pending.map Prod.fst := by
    simp only [Scope.finish, List.mem_map, List.mem_filter, Bool.not_eq_true', List.contains_eq_mem,
      decide_eq_false_iff_not]
    grind
  rw [Scope.names, List.mem_append, hcomplete, hpending, List.mem_append, Scope.names,
    List.mem_append]
  grind

theorem finish (scope : Scope) (name : Name) (aliases : List Name) (s : Schema) :
    Covers scope (scope.finish name aliases s) [.defines (name :: aliases)] := by
  refine ⟨trivial, fun n => ?_⟩
  rw [mem_names_finish, Mention.defined, Mention.defined, List.append_nil]

theorem definition {name : Name} {aliases : List Name} {s : Schema}
    (h : Covers (scope.start name aliases) mid ms) :
    Covers scope (mid.finish name aliases s) (.defines (name :: aliases) :: ms) := by
  refine ⟨h.closed.mono fun n => (mem_names_start scope name aliases n).mp, fun n => ?_⟩
  rw [mem_names_finish, List.mem_append, h.mem_names, List.mem_append, mem_names_start,
    Mention.defined]
  simp only [List.mem_append]
  grind

end Covers

/-! ## What is read is closed -/

theorem isSome_lookup {β : Type} {ps : List (Name × β)} {n : Name} :
    (ps.lookup n).isSome ↔ n ∈ ps.map Prod.fst := by
  induction ps with
  | nil => simp
  | cons p rest ih =>
      rw [List.lookup_cons, List.map_cons, List.mem_cons, ← ih]
      split
      · next h => simp [eq_of_beq h]
      · next h => simp [ne_of_beq_false h]

theorem mem_names_iff {scope : Scope} {n : Name} :
    n ∈ scope.names ↔ (scope.complete.lookup n).isSome ∨ (scope.pending.lookup n).isSome := by
  rw [isSome_lookup, isSome_lookup, Scope.names, List.mem_append]

section

variable {budget : Nat} {space : Option String} {scope scope' : Scope} {v : Json} {s : Schema}

/-- Whatever is read mentions known names, and adds those that it defines. -/
def ReadsMentions (read : Reader) (inside : Json → List Mention) : Prop :=
  ∀ ⦃scope v s scope'⦄, read scope v = some (s, scope') → Covers scope scope' (inside v)

theorem sameWord?_covers {word : String} (h : scope.sameWord? space word = some (s, scope')) :
    Covers scope scope' [.copies (Name.within space ⟨word, none⟩)] := by
  unfold Scope.sameWord? at h
  dsimp only at h
  split at h
  · next target htarget =>
      obtain ⟨-, rfl⟩ := Prod.mk.inj (Option.some.inj h)
      exact .copies (mem_names_iff.mpr (Or.inr (by rw [htarget]; rfl)))
  · obtain ⟨t, ht, heq⟩ := Option.map_eq_some_iff.mp h
    obtain ⟨-, rfl⟩ := Prod.mk.inj heq
    exact .copies (mem_names_iff.mpr (Or.inl (by rw [ht]; rfl)))

theorem reference?_mem {word : String} {t : Schema} (h : scope.reference? space word = some t) :
    ∃ n, Name.ofText? word = some n ∧ n.within space ∈ scope.names := by
  unfold Scope.reference? at h
  split at h
  · exact nomatch h
  · next name hname =>
      obtain ⟨n, hn, rfl⟩ := Option.map_eq_some_iff.mp hname
      refine ⟨n, hn, mem_names_iff.mpr ?_⟩
      split at h
      · next s hs => exact Or.inl (by rw [hs]; rfl)
      · obtain ⟨target, htarget, -⟩ := Option.map_eq_some_iff.mp h
        exact Or.inr (by rw [htarget]; rfl)

theorem word?_covers {word : String} (h : word? space scope word = some (s, scope')) :
    Covers scope scope' (wordMentions space word) := by
  unfold word? at h
  cases hword : primitive? word with
  | some t =>
      simp only [hword] at h
      obtain ⟨-, rfl⟩ := Prod.mk.inj (Option.some.inj h)
      simp only [wordMentions, hword]
      exact .refl scope
  | none =>
      simp only [hword] at h
      obtain ⟨t, ht, heq⟩ := Option.map_eq_some_iff.mp h
      obtain ⟨-, rfl⟩ := Prod.mk.inj heq
      obtain ⟨n, hn, hmem⟩ := reference?_mem ht
      simp only [wordMentions, hword, hn]
      exact .refers hmem

theorem branches?_covers {read : Reader} {inside : Json → List Mention}
    (hread : ReadsMentions read inside) {branches : List Json} {ss : List Schema}
    (h : branches? read scope branches = some (ss, scope')) :
    Covers scope scope' (branches.flatMap inside) := by
  induction branches generalizing scope ss with
  | nil =>
      obtain ⟨-, rfl⟩ := branches?_nil.mp h
      exact .refl scope'
  | cons b rest ih =>
      obtain ⟨t, mid, ts, hb, hrest, -⟩ := branches?_cons.mp h
      exact (hread hb).append (ih hrest)

theorem fields?_covers {read : Reader} {inside : Json → List Mention}
    (hread : ReadsMentions read inside) {items : List Json} {fields : List (Field Schema)}
    (h : fields? read budget scope items = some (fields, scope')) :
    Covers scope scope' (items.flatMap inside) := by
  induction items generalizing scope fields with
  | nil =>
      obtain ⟨-, rfl⟩ := fields?_nil.mp h
      exact .refl scope'
  | cons v rest ih =>
      obtain ⟨f, mid, fs, hf, hrest, -⟩ := fields?_cons.mp h
      obtain ⟨-, -, htype, -⟩ := field?_eq_some_iff.mp hf
      exact (hread htype).append (ih hrest)

theorem entries_eq {items : List Json} (h : v.get? "fields" = some (.arr items)) :
    entries v = items.filter isObject := by
  rw [entries, h]
  rfl

theorem definitionMentions_eq {word key : String} {inside : Option String → List Mention}
    {member : Json} {name : Name} {aliases : List Name} (hmember : v.get? key = some member)
    (hname : name? space v = some name) (haliases : aliases? name v = some aliases) :
    definitionMentions word key inside space v =
      .defines (name :: aliases) :: inside name.space := by
  simp only [definitionMentions, hmember, hname, haliases, Option.getD_some]

theorem definitionMentions_none {word key : String} {inside : Option String → List Mention}
    (h : v.get? key = none) :
    definitionMentions word key inside space v = [.copies (Name.within space ⟨word, none⟩)] := by
  simp only [definitionMentions, h]

theorem record?_covers {read : Option String → Reader}
    {inside : Option String → Json → List Mention}
    (hread : ∀ space, ReadsMentions (read space) (inside space))
    (h : record? read budget space scope v = some (s, scope')) :
    Covers scope scope' (definitionMentions "record" "fields"
      (fun space => (entries v).flatMap (inside space)) space v) := by
  rcases record?_eq_some_iff.mp h with ⟨hnone, hsame⟩ |
    ⟨items, name, aliases, fields, mid, hitems, hname, haliases, hfields, -, -, rfl⟩
  · rw [definitionMentions_none hnone]
    exact sameWord?_covers hsame
  · rw [definitionMentions_eq hitems hname haliases, entries_eq hitems]
    exact (fields?_covers (hread name.space) hfields).definition

theorem enumeration?_covers (h : enumeration? space scope v = some (s, scope')) :
    Covers scope scope' (definitionMentions "enum" "symbols" (fun _ => []) space v) := by
  rcases enumeration?_eq_some_iff.mp h with ⟨hnone, hsame⟩ |
    ⟨items, name, aliases, symbols, default, hitems, hname, haliases, -, -, -, -, -, rfl⟩
  · rw [definitionMentions_none hnone]
    exact sameWord?_covers hsame
  · rw [definitionMentions_eq hitems hname haliases]
    exact .finish scope name aliases s

theorem fixed?_covers (h : fixed? space scope v = some (s, scope')) :
    Covers scope scope' (fixedMentions space v) := by
  rcases fixed?_eq_some_iff.mp h with ⟨hnone, hsame⟩ |
    ⟨w, size, name, aliases, hw, -, -, hname, haliases, -, rfl⟩
  · rw [fixedMentions, definitionMentions_none hnone]
    exact sameWord?_covers hsame
  · rw [fixedMentions, definitionMentions_eq hw hname haliases]
    exact .finish scope name aliases s

theorem marked?_covers {read : Option String → Reader}
    {inside : Option String → Json → List Mention}
    (hread : ∀ space, ReadsMentions (read space) (inside space)) {mark : Logical}
    (h : marked? read space scope mark v = some (s, scope')) :
    Covers scope scope' (markedMentions inside space v) := by
  obtain ⟨t, ⟨htype, ht⟩ | ⟨type, htype, hfixed, ht⟩, -⟩ := marked?_eq_some h
  · simp only [markedMentions, htype]
    exact fixed?_covers ht
  · simp only [markedMentions, htype]
    exact hread space ht

theorem plain?_covers {read : Option String → Reader}
    {inside : Option String → Json → List Mention}
    (hread : ∀ space, ReadsMentions (read space) (inside space))
    (h : plain? read budget space scope v = some (s, scope')) :
    Covers scope scope' (plainMentions inside space v) := by
  have hplain := h
  unfold plain? at h
  split at h
  · next htype =>
      simp only [plainMentions, htype]
      exact record?_covers hread h
  · next htype =>
      simp only [plainMentions, htype]
      exact enumeration?_covers h
  · next htype =>
      obtain ⟨items, t, hitems, ht, -⟩ := (plain?_array htype).mp hplain
      simp only [plainMentions, htype, hitems]
      exact hread space ht
  · next htype =>
      obtain ⟨values, t, hvalues, ht, -⟩ := (plain?_map htype).mp hplain
      simp only [plainMentions, htype, hvalues]
      exact hread space ht
  · next htype =>
      simp only [plainMentions, htype]
      exact fixed?_covers h
  · next htype =>
      simp only [plainMentions, htype]
      exact word?_covers h
  · next htype =>
      simp only [plainMentions, htype]
      exact hread space h
  · next htype =>
      simp only [plainMentions, htype]
      exact hread space h
  · exact nomatch h

theorem readsMentions_read? (budget fuel : Nat) (space : Option String) :
    ReadsMentions (read? budget fuel space) (mentions fuel space) := by
  induction fuel generalizing space with
  | zero => exact fun _ _ _ _ h => nomatch h
  | succ fuel ih =>
      intro scope v s scope' h
      cases v with
      | str word => exact word?_covers h
      | arr branches =>
          obtain ⟨ss, hss, -, -⟩ := union?_eq_some_iff.mp h
          exact branches?_covers (ih space) hss
      | obj members =>
          obtain ⟨-, h⟩ := read?_obj_iff.mp h
          rw [mentions]
          cases hmark : mark? (.obj members) with
          | some mark =>
              simp only [hmark] at h ⊢
              exact marked?_covers ih h
          | none =>
              simp only [hmark] at h ⊢
              exact plain?_covers ih h
      | _ => exact nomatch h

end

end Declaration

end ChangeCapture.Avro
