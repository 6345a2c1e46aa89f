import ChangeCapture.Proofs.Avro.Declarations
import ChangeCapture.Proofs.Avro.Likeness
import ChangeCapture.Proofs.Avro.Mentions

/-!
# Reading a declaration elsewhere

A declaration that was read at one place is read at another one too, as a type that is like it, if
the names that it means are known there. This needs defaults that suit their fields whatever is
defined around them.
-/

namespace ChangeCapture.Avro

namespace Schema

/-- The default of a field suits its type whatever is defined around it. -/
def SettlesDefault (f : Field Schema) : Prop :=
  ∀ d, f.default = some d → (d = .null ∧ f.type.holdsNull) ∨ f.type.StandsAlone

/-- The defaults within a type are settled. -/
def IsSettled (s : Schema) : Prop :=
  ∀ name fields, .record name fields ∈ s.parts → ∀ f ∈ fields, SettlesDefault f

namespace IsSettled

theorem of_subset {s t : Schema} (h : s.IsSettled) (hparts : t.parts ⊆ s.parts) : t.IsSettled :=
  fun name fields hmem => h name fields (hparts hmem)

theorem of_items {items : Schema} (h : (array items).IsSettled) : items.IsSettled :=
  h.of_subset (List.subset_cons_self _ _)

theorem of_values {values : Schema} (h : (map values).IsSettled) : values.IsSettled :=
  h.of_subset (List.subset_cons_self _ _)

theorem of_mem_branches {branches : List Schema} (h : (union branches).IsSettled) {s : Schema}
    (hs : s ∈ branches) : s.IsSettled :=
  h.of_subset fun _ hp => List.mem_cons_of_mem _ (parts_subset_branchParts hs hp)

theorem of_mem_fields {name : Name} {fields : List (Field Schema)}
    (h : (record name fields).IsSettled) {f : Field Schema} (hf : f ∈ fields) :
    SettlesDefault f ∧ f.type.IsSettled := by
  refine ⟨h name fields List.mem_cons_self f hf, h.of_subset fun _ hp => ?_⟩
  exact List.mem_cons_of_mem _ (parts_subset_fieldParts hf hp)

/-- Fields whose defaults are settled make up a record whose defaults are. -/
theorem of_fields {name : Name} {fields : List (Field Schema)}
    (h : ∀ f ∈ fields, SettlesDefault f ∧ f.type.IsSettled) : (record name fields).IsSettled := by
  intro other columns hmem f hf
  rcases List.mem_cons.mp hmem with heq | hpart
  · obtain ⟨rfl, rfl⟩ := record.inj heq
    exact (h f hf).1
  · rw [fieldParts_eq] at hpart
    obtain ⟨g, hg, hpart⟩ := List.mem_flatMap.mp hpart
    exact (h g hg).2 other columns hpart f hf

theorem of_leaf {s : Schema} (hparts : s.parts = [s]) (hkind : s.kind ≠ .record) :
    s.IsSettled := by
  intro name fields hmem
  obtain rfl := List.mem_singleton.mp (hparts ▸ hmem)
  exact absurd rfl hkind

end IsSettled

variable {n m : Nat} {s t : Schema}

theorem Alike.pos (h : Alike n s t) : 0 < n := by
  cases h <;> exact Nat.succ_pos _

theorem Alike.mono (h : Alike n s t) (hle : n ≤ m) : Alike m s t := by
  induction n generalizing m s t with
  | zero => exact absurd h.pos (Nat.lt_irrefl 0)
  | succ n ih =>
      obtain ⟨m, rfl⟩ := Nat.exists_eq_add_of_le' (Nat.le_trans (Nat.le_add_left 1 n) hle)
      have hle := Nat.le_of_succ_le_succ hle
      cases h with
      | basic h => exact .basic h
      | array h => exact .array (ih h hle)
      | map h => exact .map (ih h hle)
      | union hlength h => exact .union hlength fun hp => ih (h hp) hle
      | record hlabel hlength hname htype hdefault =>
          exact .record hlabel hlength hname (fun hp => ih (htype hp) hle) hdefault
      | enumeration symbols default hlabel => exact .enumeration symbols default hlabel
      | fixed size hlabel => exact .fixed size hlabel
      | decimal precision scale h => exact .decimal precision scale h
      | ref a b => exact .ref a b

/-- A settled default suits all types that are like the type of its field. -/
theorem suits_of_settled {f : Field Schema} (hf : SettlesDefault f) {t : Schema}
    (h : Alike n f.type t) {budget budget' : Nat} (hn : n ≤ budget) (hn' : n ≤ budget')
    {d d' : Json} (hdefault : f.default = some d) (hd : Json.Near d d') {defs : Definitions}
    (hsuits : f.type.suits defs budget d) (defs' : Definitions) : t.suits defs' budget' d' := by
  rcases hf d hdefault with ⟨rfl, hnull⟩ | halone
  · cases hd with
    | null =>
        obtain ⟨k, rfl⟩ := Nat.exists_eq_add_of_le' (Nat.le_trans h.pos hn')
        exact suits_null (h.holdsNull_eq ▸ hnull) defs' k
  · exact h.suits hn hn' halone hd defs' hsuits

end Schema

open Schema (Alike FieldAlike IsSettled SettlesDefault)

namespace Logical

theorem precisionAndScale?_eq {v w : Json} (h : v.Near w) :
    precisionAndScale? v = precisionAndScale? w := by
  have hprecision : (v.get? "precision").bind Json.asNat? = (w.get? "precision").bind Json.asNat? :=
    bind_eq_bind (h.get? "precision") fun _ _ hmember => hmember.asNat?_eq
  unfold precisionAndScale?
  rw [hprecision]
  cases hscale : v.get? "scale" with
  | none => rw [eq_none_of_rel (h.get? "scale") hscale]
  | some scale =>
      obtain ⟨scale', hscale', hnear⟩ := exists_of_rel (h.get? "scale") hscale
      simp only [hscale', hnear.asNat?_eq]

theorem apply_near {v w : Json} (h : v.Near w) (mark : Logical) (s : Schema) :
    mark.apply v s = mark.apply w s := by
  unfold apply
  rw [precisionAndScale?_eq h]

theorem apply_alike (attributes : Json) (mark : Logical) {n : Nat} {s t : Schema}
    (h : Alike n s t) : Alike n (mark.apply attributes s) (mark.apply attributes t) := by
  cases h with
  | basic h =>
      unfold apply
      split
      -- Bytes may become a decimal; a type with a name is not basic.
      all_goals first | exact .basic h | exact .basic rfl | exact absurd h Bool.false_ne_true | skip
      split
      · exact .decimal _ _ rfl
      · exact .basic rfl
  | fixed size hlabel =>
      cases mark with
      | decimal =>
          simp only [apply]
          split
          · exact .decimal _ _ rfl
          · exact .fixed size hlabel
      | uuid =>
          simp only [apply]
          split
          · exact .basic rfl
          · exact .fixed size hlabel
      | duration => exact .basic rfl
      | _ => exact .fixed size hlabel
  | array h => cases mark <;> exact .array h
  | map h => cases mark <;> exact .map h
  | union hlength h => cases mark <;> exact .union hlength h
  | record hlabel hlength hname htype hdefault =>
      cases mark <;> exact .record hlabel hlength hname htype hdefault
  | enumeration symbols default hlabel => cases mark <;> exact .enumeration symbols default hlabel
  | decimal precision scale h => cases mark <;> exact .decimal precision scale h
  | ref a b => cases mark <;> exact .ref a b

theorem isSettled_of_apply {attributes : Json} {mark : Logical} {s : Schema}
    (h : (mark.apply attributes s).IsSettled) : s.IsSettled := by
  unfold apply at h
  split at h
  all_goals first | exact .of_leaf rfl nofun | exact h

end Logical

namespace Declaration

/-! ## Names -/

/-- A namespace that a definition may stand in. -/
def IsSpace (space : Option String) : Prop := isNamespace ((Name.nonempty space).getD "").toList

variable {budget budget' n height : Nat} {space space' : Option String} {v w : Json} {s : Schema}
  {scope scope' known : Scope}

theorem isSpace_none : IsSpace none := by
  unfold IsSpace
  decide

theorem nonempty_nonempty (space : Option String) :
    Name.nonempty (Name.nonempty space) = Name.nonempty space := by
  unfold Name.nonempty
  rw [Option.filter_filter]
  simp

theorem name?_eq (h : v.Near w) (space : Option String) : name? space v = name? space w := by
  rw [name?, name?, h.text?_eq, h.text?_eq]

theorem aliases?_eq (h : v.Near w) (name : Name) : aliases? name v = aliases? name w := by
  have hwords : ((v.get? "aliases").bind Json.asArr?).bind (·.mapM Json.asStr?) =
      ((w.get? "aliases").bind Json.asArr?).bind (·.mapM Json.asStr?) :=
    bind_eq_bind (h.list? "aliases") fun _ _ hlist => Json.mapM_asStr?_eq hlist
  rw [aliases?, aliases?, hwords]

theorem name?_near (h : v.Near w) {name : Name} (hname : name? space v = some name)
    (hspace : IsSpace space') :
    ∃ name', name? space' w = some name' ∧ name.label = name'.label ∧ IsSpace name'.space := by
  rw [← name?_eq h]
  unfold name? at hname ⊢
  obtain ⟨written, hwritten, hname⟩ := Option.bind_eq_some_iff.mp hname
  simp only [hwritten, Option.bind_eq_bind, Option.bind_some]
  generalize written.space.or (v.text? "namespace") = own at hname ⊢
  dsimp only at hname
  split at hname
  · next hvalid =>
      obtain rfl := Option.some.inj hname
      -- Without a namespace of its own the definition takes that around it.
      have hvalid' : isNamespace ((Name.nonempty (own.or space')).getD "").toList := by
        cases own with
        | none => exact hspace
        | some own => exact hvalid
      refine ⟨_, if_pos hvalid', rfl, ?_⟩
      rw [IsSpace, nonempty_nonempty]
      exact hvalid'
  · exact nomatch hname

/-- Whether a text is a name does not depend on where it stands. -/
theorem exists_mapM_within {words : List String} {names : List Name} (space : Option String)
    (h : (words.mapM fun word => (Name.ofText? word).map (Name.within space)) = some names)
    (space' : Option String) :
    ∃ names', (words.mapM fun word => (Name.ofText? word).map (Name.within space')) =
      some names' := by
  induction words generalizing names with
  | nil => exact ⟨[], rfl⟩
  | cons word rest ih =>
      rw [List.mapM_cons] at h
      obtain ⟨name, hname, h⟩ := Option.bind_eq_some_iff.mp h
      obtain ⟨more, hmore, -⟩ := Option.bind_eq_some_iff.mp h
      obtain ⟨n, hn, -⟩ := Option.map_eq_some_iff.mp hname
      obtain ⟨more', hmore'⟩ := ih hmore
      refine ⟨n.within space' :: more', ?_⟩
      rw [List.mapM_cons, hn, hmore']
      rfl

theorem aliases?_near (h : v.Near w) {name : Name} {aliases : List Name}
    (haliases : aliases? name v = some aliases) (name' : Name) :
    ∃ aliases', aliases? name' w = some aliases' := by
  rw [← aliases?_eq h]
  unfold aliases? at haliases ⊢
  revert haliases
  cases ((v.get? "aliases").bind Json.asArr?).bind (·.mapM Json.asStr?) with
  | none => exact fun _ => ⟨[], rfl⟩
  | some words =>
      intro haliases
      exact exists_mapM_within name.space haliases name'.space

/-! ## Types -/

theorem exists_reference? {word : String} {n : Name} (hn : Name.ofText? word = some n)
    (h : n.within space ∈ scope.names) :
    ∃ target, scope.reference? space word = some (.ref target) := by
  unfold Scope.reference?
  simp only [hn, Option.map_some]
  cases hcomplete : scope.complete.lookup (n.within space) with
  | some => exact ⟨_, rfl⟩
  | none =>
      rcases mem_names_iff.mp h with hmem | hmem
      · rw [hcomplete] at hmem
        exact nomatch hmem
      · obtain ⟨target, htarget⟩ := Option.isSome_iff_exists.mp hmem
        exact ⟨target, by rw [htarget]; rfl⟩

/-- What a piece of a declaration means is known, and its types are written in full. -/
structure Admits (scope : Scope) (ms : List Mention) : Prop where
  closed : Mention.Closed scope.names ms
  inFull : ∀ name, .copies name ∉ ms

namespace Admits

variable {ms ns : List Mention}

theorem of_append_left (h : Admits scope (ms ++ ns)) : Admits scope ms :=
  ⟨(Mention.closed_append.mp h.closed).1, fun name hmem =>
    h.inFull name (List.mem_append_left ns hmem)⟩

theorem of_append_right (h : Admits scope (ms ++ ns)) (hcovers : Covers scope scope' ms) :
    Admits scope' ns :=
  ⟨(Mention.closed_append.mp h.closed).2.mono fun n => (hcovers.mem_names n).mpr, fun name hmem =>
    h.inFull name (List.mem_append_right ms hmem)⟩

theorem of_definition {name : Name} {aliases : List Name}
    (h : Admits scope (.defines (name :: aliases) :: ms)) :
    Admits (scope.start name aliases) ms := by
  have hclosed : Mention.Closed (name :: aliases ++ scope.names) ms := h.closed
  exact ⟨hclosed.mono fun n => (Covers.mem_names_start scope name aliases n).mpr, fun n hmem =>
    h.inFull n (List.mem_cons_of_mem _ hmem)⟩

/-- A definition that is written in full has its member. -/
theorem get?_ne_none {word key : String} {inside : Option String → List Mention}
    (h : Admits scope (definitionMentions word key inside space v)) : v.get? key ≠ none := by
  intro hnone
  rw [definitionMentions_none hnone] at h
  exact h.inFull _ (List.mem_singleton_self _)

end Admits

/-- What one reader has read, the other one reads as a type that is like it. -/
def Rereads (n height : Nat) (read read' : Reader) (inside : Json → List Mention) : Prop :=
  ∀ ⦃scope known v w s scope'⦄, read scope v = some (s, scope') → s.IsSettled → v.Near w →
    w.height ≤ height → Admits known (inside w) →
    ∃ t known', read' known w = some (t, known') ∧ Alike n s t

theorem isBasic_of_primitive? {word : String} (h : primitive? word = some s) : s.isBasic := by
  unfold primitive? at h
  repeat' split at h
  all_goals first | (obtain rfl := Option.some.inj h; rfl) | exact nomatch h

theorem word?_reread {word : String} (h : word? space scope word = some (s, scope'))
    (hadmits : Admits known (wordMentions space' word)) :
    ∃ t known', word? space' known word = some (t, known') ∧ Alike (n + 1) s t := by
  unfold word? at h ⊢
  cases hword : primitive? word with
  | some t =>
      simp only [hword, Option.some.injEq, Prod.mk.injEq] at h
      obtain ⟨rfl, -⟩ := h
      exact ⟨t, known, rfl, .basic (isBasic_of_primitive? hword)⟩
  | none =>
      obtain ⟨source, rfl⟩ := word?_eq_ref hword h
      simp only [hword] at h
      obtain ⟨t, ht, -⟩ := Option.map_eq_some_iff.mp h
      obtain ⟨n, hn, -⟩ := reference?_mem ht
      have hclosed := hadmits.closed
      simp only [wordMentions, hword, hn] at hclosed
      obtain ⟨target, htarget⟩ := exists_reference? hn hclosed.1
      exact ⟨_, known, by simp only [htarget, Option.map_some], .ref source target⟩

theorem isUnion_eq {ss ts : List Schema} (h : List.Forall₂ (Alike n) ss ts) :
    isUnion ss = isUnion ts := by
  unfold isUnion
  rw [map_eq_map h fun _ _ hst => hst.kind_eq]

theorem branches?_reread {read read' : Reader} {inside : Json → List Mention}
    (hread : Rereads n height read read' inside) (hmentions : ReadsMentions read' inside)
    {bs cs : List Json} {ss : List Schema}
    (hbranches : List.Forall₂ (fun b t => ∃ scope scope', read scope b = some (t, scope')) bs ss)
    (hsettled : ∀ t ∈ ss, t.IsSettled) (hnear : List.Forall₂ Json.Near bs cs)
    (hheight : ∀ c ∈ cs, c.height ≤ height) (hadmits : Admits known (cs.flatMap inside)) :
    ∃ ts known', branches? read' known cs = some (ts, known') ∧
      List.Forall₂ (Alike n) ss ts := by
  induction hbranches generalizing cs known with
  | nil =>
      cases hnear
      exact ⟨[], known, rfl, .nil⟩
  | cons hb _ ih =>
      cases hnear with
      | cons hbc hnear =>
          obtain ⟨_, _, hb⟩ := hb
          obtain ⟨hs, hsettled⟩ := List.forall_mem_cons.mp hsettled
          obtain ⟨hc, hheight⟩ := List.forall_mem_cons.mp hheight
          rw [List.flatMap_cons] at hadmits
          obtain ⟨t, mid, ht, halike⟩ := hread hb hs hbc hc hadmits.of_append_left
          obtain ⟨ts, last, hts, halikes⟩ :=
            ih hsettled hnear hheight (hadmits.of_append_right (hmentions ht))
          exact ⟨t :: ts, last, branches?_cons.mpr ⟨t, mid, ts, ht, hts, rfl⟩, .cons halike halikes⟩

theorem union?_reread {read read' : Reader} {inside : Json → List Mention}
    (hread : Rereads n height read read' inside) (hmentions : ReadsMentions read' inside)
    {bs cs : List Json} (h : union? read scope bs = some (s, scope')) (hsettled : s.IsSettled)
    (hnear : List.Forall₂ Json.Near bs cs) (hheight : ∀ c ∈ cs, c.height ≤ height)
    (hadmits : Admits known (cs.flatMap inside)) :
    ∃ t known', union? read' known cs = some (t, known') ∧ Alike (n + 1) s t := by
  obtain ⟨ss, hss, hunion, rfl⟩ := union?_eq_some_iff.mp h
  obtain ⟨ts, known', hts, halikes⟩ := branches?_reread hread hmentions (branches?_eq_some hss)
    (fun t => hsettled.of_mem_branches) hnear hheight hadmits
  exact ⟨.union ts, known', union?_eq_some_iff.mpr ⟨ts, hts, isUnion_eq halikes ▸ hunion, rfl⟩,
    .of_branches halikes⟩

theorem field?_reread {read read' : Reader} {inside : Json → List Mention}
    (hread : Rereads n height read read' inside) (hn : n ≤ budget) (hn' : n ≤ budget')
    {f : Field Schema} (h : field? read budget scope v = some (f, scope'))
    (hsettled : SettlesDefault f ∧ f.type.IsSettled) (hnear : v.Near w)
    (hheight : w.height ≤ height) (hadmits : Admits known (inside w)) :
    ∃ g known', field? read' budget' known w = some (g, known') ∧ FieldAlike n f g ∧
      read' known w = some (g.type, known') := by
  obtain ⟨hname, hidentifier, htype, hdefault, hsuits⟩ := field?_eq_some_iff.mp h
  obtain ⟨t, known', ht, halike⟩ := hread htype hsettled.2 hnear hheight hadmits
  have hrel := hnear.get? "default"
  refine ⟨⟨f.name, t, w.get? "default"⟩, known', ?_, ⟨rfl, halike, hdefault ▸ hrel⟩, ht⟩
  refine field?_eq_some_iff.mpr ⟨hnear.text?_eq "name" ▸ hname, hidentifier, ht, rfl, ?_⟩
  -- A default is there as well, and it suits the type that is read now.
  intro d' hd'
  cases hd : v.get? "default" with
  | none => exact absurd (eq_none_of_rel hrel hd) (by rw [hd']; exact nofun)
  | some d =>
      obtain ⟨e, he, hde⟩ := exists_of_rel hrel hd
      obtain rfl := Option.some.inj (hd'.symm.trans he)
      exact Schema.suits_of_settled hsettled.1 halike hn hn' (hdefault.trans hd) hde (hsuits d hd) _

theorem fields?_reread {read read' : Reader} {inside : Json → List Mention}
    (hread : Rereads n height read read' inside) (hmentions : ReadsMentions read' inside)
    (hn : n ≤ budget) (hn' : n ≤ budget') {vs ws : List Json} {fs : List (Field Schema)}
    (hfields : List.Forall₂ (fun v f => ∃ scope scope', field? read budget scope v =
      some (f, scope')) vs fs)
    (hsettled : ∀ f ∈ fs, SettlesDefault f ∧ f.type.IsSettled)
    (hnear : List.Forall₂ Json.Near vs ws) (hheight : ∀ w ∈ ws, w.height ≤ height)
    (hadmits : Admits known (ws.flatMap inside)) :
    ∃ gs known', fields? read' budget' known ws = some (gs, known') ∧
      List.Forall₂ (FieldAlike n) fs gs := by
  induction hfields generalizing ws known with
  | nil =>
      cases hnear
      exact ⟨[], known, rfl, .nil⟩
  | cons hf _ ih =>
      cases hnear with
      | cons hvw hnear =>
          obtain ⟨_, _, hf⟩ := hf
          obtain ⟨hs, hsettled⟩ := List.forall_mem_cons.mp hsettled
          obtain ⟨hw, hheight⟩ := List.forall_mem_cons.mp hheight
          rw [List.flatMap_cons] at hadmits
          obtain ⟨g, mid, hg, halike, ht⟩ :=
            field?_reread hread hn hn' hf hs hvw hw hadmits.of_append_left
          obtain ⟨gs, last, hgs, halikes⟩ :=
            ih hsettled hnear hheight (hadmits.of_append_right (hmentions ht))
          exact ⟨g :: gs, last, fields?_cons.mpr ⟨g, mid, gs, hg, hgs, rfl⟩, .cons halike halikes⟩

theorem fieldAliases_eq (h : v.Near w) : fieldAliases v = fieldAliases w := by
  unfold fieldAliases
  cases hlist : (v.get? "aliases").bind Json.asArr? with
  | none => rw [eq_none_of_rel (h.list? "aliases") hlist]
  | some items =>
      obtain ⟨items', hitems', hnear⟩ := exists_of_rel (h.list? "aliases") hlist
      rw [hitems']
      exact Json.filterMap_asStr?_eq hnear

theorem areDistinct_eq {vs ws : List Json} (h : List.Forall₂ Json.Near vs ws)
    (taken : List String) : areDistinct taken vs = areDistinct taken ws := by
  induction h generalizing taken with
  | nil => rfl
  | cons hvw _ ih => simp only [areDistinct, hvw.text?_eq, fieldAliases_eq hvw, ih]

theorem filter_isObject_near {vs ws : List Json} (h : List.Forall₂ Json.Near vs ws) :
    List.Forall₂ Json.Near (vs.filter isObject) (ws.filter isObject) :=
  forall₂_filter h fun _ _ hvw => hvw.isSome_asObj?_eq

/-- The entries of a record are read again where a definition of it stands. -/
theorem fields_reread {read : Reader} {read' : Option String → Reader}
    {inside : Option String → Json → List Mention}
    (hread : ∀ space', IsSpace space' → Rereads n height read (read' space') (inside space'))
    (hmentions : ∀ space', ReadsMentions (read' space') (inside space'))
    (hn : n ≤ budget) (hn' : n ≤ budget') (hspace : IsSpace space') {items : List Json}
    {name row : Name} {aliases : List Name} {fields : List (Field Schema)}
    (hitems : v.get? "fields" = some (.arr items)) (hname : name? space v = some name)
    (haliases : aliases? name v = some aliases)
    (hfields : List.Forall₂ (fun entry f => ∃ scope scope', field? read budget scope entry =
      some (f, scope')) (items.filter isObject) fields)
    (hdistinct : areDistinct [] (items.filter isObject))
    (hsettled : (Schema.record row fields).IsSettled) (hnear : v.Near w)
    (hheight : w.height ≤ height + 1)
    (hadmits : Admits known (definitionMentions "record" "fields"
      (fun space => (entries w).flatMap (inside space)) space' w)) :
    ∃ name' gs known', record? read' budget' space' known w = some (.record name' gs, known') ∧
      name.label = name'.label ∧ List.Forall₂ (FieldAlike n) fields gs := by
  obtain ⟨items', hitems', hitemsNear⟩ := hnear.get?_arr hitems
  obtain ⟨name', hname', hlabel, hspace⟩ := name?_near hnear hname hspace
  obtain ⟨aliases', haliases'⟩ := aliases?_near hnear haliases name'
  rw [definitionMentions_eq hitems' hname' haliases', entries_eq hitems'] at hadmits
  have hentries := filter_isObject_near hitemsNear
  have hlow : ∀ entry ∈ items'.filter isObject, entry.height ≤ height := by
    intro entry hentry
    have hentryItems := Json.height_lt_of_mem (List.mem_of_mem_filter hentry)
    have hitemsMember := Json.height_get?_lt hitems'
    omega
  obtain ⟨gs, last, hgs, halikes⟩ := fields?_reread (hread name'.space hspace)
    (hmentions name'.space) hn hn' hfields (fun f => hsettled.of_mem_fields) hentries hlow
    hadmits.of_definition
  exact ⟨name', gs, _, record?_eq_some_iff.mpr (Or.inr ⟨items', name', aliases', gs, last, hitems',
    hname', haliases', hgs, areDistinct_eq hentries [] ▸ hdistinct, rfl, rfl⟩), hlabel, halikes⟩

theorem record?_reread {read read' : Option String → Reader}
    {inside : Option String → Json → List Mention}
    (hread : ∀ space space', IsSpace space' →
      Rereads n height (read space) (read' space') (inside space'))
    (hmentions : ∀ space', ReadsMentions (read' space') (inside space'))
    (hn : n ≤ budget) (hn' : n ≤ budget') (hspace : IsSpace space')
    (h : record? read budget space scope v = some (s, scope')) (hsettled : s.IsSettled)
    (hnear : v.Near w) (hheight : w.height ≤ height + 1)
    (hadmits : Admits known (definitionMentions "record" "fields"
      (fun space => (entries w).flatMap (inside space)) space' w)) :
    ∃ t known', record? read' budget' space' known w = some (t, known') ∧ Alike (n + 1) s t := by
  rcases record?_eq_some_iff.mp h with ⟨hnone, -⟩ |
    ⟨items, name, aliases, fields, mid, hitems, hname, haliases, hfields, hdistinct, rfl, -⟩
  · exact absurd (eq_none_of_rel (hnear.get? "fields") hnone) hadmits.get?_ne_none
  · obtain ⟨name', gs, known', hrecord, hlabel, halikes⟩ := fields_reread (hread name.space)
      hmentions hn hn' hspace hitems hname haliases (fields?_eq_some hfields) hdistinct hsettled
      hnear hheight hadmits
    exact ⟨.record name' gs, known', hrecord, .of_fields hlabel halikes⟩

theorem defaultSymbol?_eq (h : v.Near w) (symbols : List String) :
    defaultSymbol? symbols v = defaultSymbol? symbols w := by
  unfold defaultSymbol?
  cases hdefault : v.get? "default" with
  | none => rw [eq_none_of_rel (h.get? "default") hdefault]
  | some default =>
      obtain ⟨default', hdefault', hnear⟩ := exists_of_rel (h.get? "default") hdefault
      rw [hdefault']
      cases hnear <;> rfl

theorem enumeration?_reread (hspace : IsSpace space')
    (h : enumeration? space scope v = some (s, scope')) (hnear : v.Near w)
    (hadmits : Admits known (definitionMentions "enum" "symbols" (fun _ => []) space' w)) :
    ∃ t known', enumeration? space' known w = some (t, known') ∧ Alike (n + 1) s t := by
  rcases enumeration?_eq_some_iff.mp h with ⟨hnone, -⟩ | ⟨items, name, aliases, symbols, default,
    hitems, hname, haliases, hsymbols, hidentifiers, hnodup, hdefault, rfl, -⟩
  · exact absurd (eq_none_of_rel (hnear.get? "symbols") hnone) hadmits.get?_ne_none
  obtain ⟨items', hitems', hitemsNear⟩ := hnear.get?_arr hitems
  obtain ⟨name', hname', hlabel, -⟩ := name?_near hnear hname hspace
  obtain ⟨aliases', haliases'⟩ := aliases?_near hnear haliases name'
  refine ⟨.enumeration name' symbols default, _, enumeration?_eq_some_iff.mpr (Or.inr ⟨items',
    name', aliases', symbols, default, hitems', hname', haliases', ?_, hidentifiers, hnodup, ?_,
    rfl, rfl⟩), .enumeration symbols default hlabel⟩
  · rw [← Json.mapM_asStr?_eq hitemsNear]
    exact hsymbols
  · rw [← defaultSymbol?_eq hnear]
    exact hdefault

theorem fixed?_reread (hspace : IsSpace space') (h : fixed? space scope v = some (s, scope'))
    (hnear : v.Near w) (hadmits : Admits known (fixedMentions space' w)) :
    ∃ t known', fixed? space' known w = some (t, known') ∧ Alike (n + 1) s t := by
  rcases fixed?_eq_some_iff.mp h with ⟨hnone, -⟩ |
    ⟨member, size, name, aliases, hmember, hsize, hdefault, hname, haliases, rfl, -⟩
  · exact absurd (eq_none_of_rel (hnear.get? "size") hnone) hadmits.get?_ne_none
  obtain ⟨member', hmember', hmemberNear⟩ := exists_of_rel (hnear.get? "size") hmember
  obtain ⟨name', hname', hlabel, -⟩ := name?_near hnear hname hspace
  obtain ⟨aliases', haliases'⟩ := aliases?_near hnear haliases name'
  refine ⟨.fixed name' size, _, fixed?_eq_some_iff.mpr (Or.inr ⟨member', size, name', aliases',
    hmember', ?_, ?_, hname', haliases', rfl, rfl⟩), .fixed size hlabel⟩
  · rw [← hmemberNear.asNat?_eq]
    exact hsize
  · rw [fixedDefaultSuits, ← hnear.text?_eq]
    exact hdefault

/-- A type in a member is read again if that member's mentions admit it. -/
theorem member_reread {read read' : Reader} {inside : Json → List Mention}
    (hread : Rereads n height read read' inside) {key : String} {member : Json}
    (hmember : v.get? key = some member) (h : read scope member = some (s, scope'))
    (hsettled : s.IsSettled) (hnear : v.Near w) (hheight : w.height ≤ height + 1)
    (hadmits : ∀ member', w.get? key = some member' → member.Near member' →
      Admits known (inside member')) :
    ∃ member' t known', w.get? key = some member' ∧ member.Near member' ∧
      read' known member' = some (t, known') ∧ Alike n s t := by
  obtain ⟨member', hmember', hmemberNear⟩ := exists_of_rel (hnear.get? key) hmember
  have hlow := Json.height_get?_lt hmember'
  obtain ⟨t, known', ht, halike⟩ :=
    hread h hsettled hmemberNear (by omega) (hadmits member' hmember' hmemberNear)
  exact ⟨member', t, known', hmember', hmemberNear, ht, halike⟩

theorem marked?_reread {read read' : Option String → Reader}
    {inside : Option String → Json → List Mention}
    (hread : Rereads n height (read space) (read' space') (inside space'))
    (hspace : IsSpace space') {mark : Logical}
    (h : marked? read space scope mark v = some (s, scope')) (hsettled : s.IsSettled)
    (hnear : v.Near w) (hheight : w.height ≤ height + 1)
    (hadmits : Admits known (markedMentions inside space' w)) :
    ∃ t known', marked? read' space' known mark w = some (t, known') ∧ Alike (n + 1) s t := by
  obtain ⟨t, ⟨htype, ht⟩ | ⟨type, htype, hfixed, ht⟩, rfl⟩ := marked?_eq_some h
  · have htype' := hnear.get?_str htype
    simp only [markedMentions, htype'] at hadmits
    obtain ⟨t', known', ht', halike⟩ := fixed?_reread (n := n) hspace ht hnear hadmits
    refine ⟨_, known', (marked?_fixed htype').mpr ⟨t', ht', rfl⟩, ?_⟩
    rw [Logical.apply_near hnear]
    exact Logical.apply_alike w mark halike
  · obtain ⟨type', t', known', htype', hmember, ht', halike⟩ := member_reread hread htype ht
      (Logical.isSettled_of_apply hsettled) hnear hheight fun type' htype' hmember => by
        have hfixed' := hmember.ne_str hfixed
        simpa only [markedMentions, htype'] using hadmits
    refine ⟨_, known', (marked?_type htype' (hmember.ne_str hfixed)).mpr ⟨t', ht', rfl⟩, ?_⟩
    rw [Logical.apply_near hnear]
    exact (Logical.apply_alike w mark halike).mono (Nat.le_succ n)

theorem isNested_near (h : v.Near w) (hv : IsNested v) : IsNested w := by
  cases h <;> exact hv

theorem nested_reread {read read' : Option String → Reader}
    {inside : Option String → Json → List Mention}
    (hread : Rereads n height (read space) (read' space') (inside space')) {type : Json}
    (htype : v.get? "type" = some type) (hnested : IsNested type)
    (h : read space scope type = some (s, scope')) (hsettled : s.IsSettled) (hnear : v.Near w)
    (hheight : w.height ≤ height + 1) (hadmits : Admits known (plainMentions inside space' w)) :
    ∃ t known', plain? read' budget' space' known w = some (t, known') ∧ Alike (n + 1) s t := by
  obtain ⟨type', t, known', htype', hmember, ht, halike⟩ :=
    member_reread hread htype h hsettled hnear hheight fun type' htype' hmember => by
      rwa [plainMentions_nested htype' (isNested_near hmember hnested)] at hadmits
  refine ⟨t, known', ?_, halike.mono (Nat.le_succ n)⟩
  rwa [plain?_nested htype' (isNested_near hmember hnested)]

theorem plain?_reread {read read' : Option String → Reader}
    {inside : Option String → Json → List Mention}
    (hread : ∀ space space', IsSpace space' →
      Rereads n height (read space) (read' space') (inside space'))
    (hmentions : ∀ space', ReadsMentions (read' space') (inside space'))
    (hn : n ≤ budget) (hn' : n ≤ budget') (hspace : IsSpace space')
    (h : plain? read budget space scope v = some (s, scope')) (hsettled : s.IsSettled)
    (hnear : v.Near w) (hheight : w.height ≤ height + 1)
    (hadmits : Admits known (plainMentions inside space' w)) :
    ∃ t known', plain? read' budget' space' known w = some (t, known') ∧ Alike (n + 1) s t := by
  have hplain := h
  unfold plain? at h
  split at h
  · next htype =>
      have htype' := hnear.get?_str htype
      simp only [plainMentions, htype'] at hadmits
      simp only [plain?, htype']
      exact record?_reread hread hmentions hn hn' hspace h hsettled hnear hheight hadmits
  · next htype =>
      have htype' := hnear.get?_str htype
      simp only [plainMentions, htype'] at hadmits
      simp only [plain?, htype']
      exact enumeration?_reread hspace h hnear hadmits
  · next htype =>
      have htype' := hnear.get?_str htype
      obtain ⟨items, t, hitems, ht, rfl⟩ := (plain?_array htype).mp hplain
      obtain ⟨items', t', known', hitems', -, ht', halike⟩ := member_reread
        (hread space space' hspace) hitems ht hsettled.of_items hnear hheight
        fun items' hitems' _ => by
          simpa only [plainMentions, htype', hitems', Option.map_some, Option.getD_some]
            using hadmits
      exact ⟨.array t', known', (plain?_array htype').mpr ⟨items', t', hitems', ht', rfl⟩,
        .array halike⟩
  · next htype =>
      have htype' := hnear.get?_str htype
      obtain ⟨values, t, hvalues, ht, rfl⟩ := (plain?_map htype).mp hplain
      obtain ⟨values', t', known', hvalues', -, ht', halike⟩ := member_reread
        (hread space space' hspace) hvalues ht hsettled.of_values hnear hheight
        fun values' hvalues' _ => by
          simpa only [plainMentions, htype', hvalues', Option.map_some, Option.getD_some]
            using hadmits
      exact ⟨.map t', known', (plain?_map htype').mpr ⟨values', t', hvalues', ht', rfl⟩,
        .map halike⟩
  · next htype =>
      have htype' := hnear.get?_str htype
      simp only [plainMentions, htype'] at hadmits
      simp only [plain?, htype']
      exact fixed?_reread hspace h hnear hadmits
  · next htype =>
      have htype' := hnear.get?_str htype
      simp only [plainMentions, htype'] at hadmits
      simp only [plain?, htype']
      exact word?_reread h hadmits
  · next htype =>
      exact nested_reread (hread space space' hspace) htype trivial h hsettled hnear hheight hadmits
  · next htype =>
      exact nested_reread (hread space space' hspace) htype trivial h hsettled hnear hheight hadmits
  · simp at h

theorem mark?_eq (h : v.Near w) : mark? v = mark? w := by
  rw [mark?, mark?, h.text?_eq]

theorem isMarkedByText_near (h : v.Near w) (hv : IsMarkedByText v) : IsMarkedByText w := by
  intro mark' hmark'
  cases hmark : v.get? "logicalType" with
  | none => exact absurd (eq_none_of_rel (h.get? "logicalType") hmark) (by rw [hmark']; exact nofun)
  | some mark =>
      obtain ⟨word, rfl⟩ := hv mark hmark
      exact ⟨word, Option.some.inj (hmark'.symm.trans (h.get?_str hmark))⟩

theorem read?_reread {fuel fuel' : Nat} (hbudget : fuel ≤ budget) (hbudget' : fuel' ≤ budget')
    (space : Option String) (hspace : IsSpace space') :
    Rereads (min fuel fuel') fuel' (read? budget fuel space) (read? budget' fuel' space')
      (mentions fuel' space') := by
  -- Both readers go one step down at a time, and what they read nests as deep as the shorter way.
  induction fuel generalizing fuel' space space' with
  | zero =>
      intro scope known v w s scope' h
      simp [read?] at h
  | succ fuel ih =>
      intro scope known v w s scope' h hsettled hnear hheight hadmits
      cases fuel' with
      | zero => exact absurd hheight (by cases w <;> simp [Json.height])
      | succ fuel' =>
          have hlow : fuel ≤ budget := by omega
          have hlow' : fuel' ≤ budget' := by omega
          have hread : ∀ space space', IsSpace space' → Rereads (min fuel fuel') fuel'
              (read? budget fuel space) (read? budget' fuel' space') (mentions fuel' space') :=
            fun space _ hspace => ih hlow hlow' space hspace
          have hn : min fuel fuel' ≤ budget := Nat.le_trans (Nat.min_le_left _ _) hlow
          have hn' : min fuel fuel' ≤ budget' := Nat.le_trans (Nat.min_le_right _ _) hlow'
          rw [Nat.add_min_add_right]
          cases hnear with
          | str word => exact word?_reread h hadmits
          | @arr bs cs hitems =>
              have hitemsHeight : ∀ c ∈ cs, c.height ≤ fuel' := by
                intro c hc
                have := Json.height_lt_of_mem hc
                omega
              exact union?_reread (hread space space' hspace)
                (readsMentions_read? budget' fuel' space') h hsettled hitems hitemsHeight hadmits
          | @obj ms ns hkeys hmembers =>
              have hnear := Json.Near.obj hkeys hmembers
              obtain ⟨hmarked, h⟩ := read?_obj_iff.mp h
              rw [mentions, ← mark?_eq hnear] at hadmits
              simp only [read?_obj_iff, ← mark?_eq hnear]
              cases hmark : mark? (.obj ms) with
              | some mark =>
                  simp only [hmark] at h hadmits
                  obtain ⟨t, known', ht, halike⟩ := marked?_reread (hread space space' hspace)
                    hspace h hsettled hnear hheight hadmits
                  exact ⟨t, known', ⟨isMarkedByText_near hnear hmarked, ht⟩, halike⟩
              | none =>
                  simp only [hmark] at h hadmits
                  obtain ⟨t, known', ht, halike⟩ := plain?_reread hread
                    (readsMentions_read? budget' fuel') hn hn' hspace h hsettled hnear hheight
                    hadmits
                  exact ⟨t, known', ⟨isMarkedByText_near hnear hmarked, ht⟩, halike⟩
          | _ => simp [read?] at h

end Declaration

end ChangeCapture.Avro
