import ChangeCapture.Proofs.Avro.Rereading

/-!
# Self-contained declarations

A declaration is self-contained if it defines every name before it means it. Fields that were
declared somewhere are read as a record of their own if the declaration of that record is so.
-/

namespace ChangeCapture.Avro.Declaration

variable {budget : Nat} {space : Option String} {v w : Json} {s : Schema} {scope : Scope}

/-! ## What near values mention -/

theorem entries_near (h : v.Near w) : List.Forall₂ Json.Near (entries v) (entries w) := by
  unfold entries
  cases hlist : (v.get? "fields").bind Json.asArr? with
  | none =>
      rw [eq_none_of_rel (h.list? "fields") hlist]
      exact .nil
  | some items =>
      obtain ⟨items', hitems', hnear⟩ := exists_of_rel (h.list? "fields") hlist
      rw [hitems']
      exact filter_isObject_near hnear

theorem height_le_of_mem_entries {height : Nat} (h : v.height ≤ height + 1) :
    ∀ entry ∈ entries v, entry.height ≤ height := by
  intro entry hentry
  rw [entries] at hentry
  cases hlist : (v.get? "fields").bind Json.asArr? with
  | none => simp [hlist] at hentry
  | some items =>
      rw [hlist, Option.getD_some] at hentry
      obtain ⟨member, hmember, hitems⟩ := Option.bind_eq_some_iff.mp hlist
      have hmemberHeight := Json.height_get?_lt hmember
      cases member with
      | arr list =>
          obtain rfl : list = items := Option.some.inj hitems
          have hentryHeight := Json.height_lt_of_mem (List.mem_of_mem_filter hentry)
          omega
      | _ => cases hitems

theorem definitionMentions_near (h : v.Near w) {word key : String}
    {inside inside' : Option String → List Mention}
    (hinside : ∀ space, inside space = inside' space) (space : Option String) :
    definitionMentions word key inside space v = definitionMentions word key inside' space w := by
  unfold definitionMentions
  cases hmember : v.get? key with
  | none => rw [eq_none_of_rel (h.get? key) hmember]
  | some member =>
      obtain ⟨member', hmember', -⟩ := exists_of_rel (h.get? key) hmember
      rw [hmember', ← name?_eq h]
      cases name? space v with
      | none => rfl
      | some name => simp only [aliases?_eq h, hinside]

/-- Mentions that are the same in near values of a bounded height. -/
def AgreeOnNear (height : Nat) (inside inside' : Option String → Json → List Mention) : Prop :=
  ∀ space ⦃v w⦄, Json.Near v w → v.height ≤ height → inside space v = inside' space w

section

variable {height : Nat} {inside inside' : Option String → Json → List Mention}

theorem AgreeOnNear.flatMap (hinside : AgreeOnNear height inside inside') {vs ws : List Json}
    (h : List.Forall₂ Json.Near vs ws) (hheight : ∀ v ∈ vs, v.height ≤ height)
    (space : Option String) : vs.flatMap (inside space) = ws.flatMap (inside' space) :=
  flatMap_eq_flatMap ((List.forall₂_and_left _ _).mpr ⟨hheight, h⟩) fun _ _ hvw =>
    hinside space hvw.2 hvw.1

theorem AgreeOnNear.member (hinside : AgreeOnNear height inside inside')
    (hheight : v.height ≤ height + 1) {key : String} {member member' : Json}
    (hmember : v.get? key = some member) (hnear : member.Near member') (space : Option String) :
    inside space member = inside' space member' :=
  hinside space hnear (Nat.le_of_lt_succ (Nat.lt_of_lt_of_le (Json.height_get?_lt hmember) hheight))

theorem memberMentions_near (hinside : AgreeOnNear height inside inside') (h : v.Near w)
    (hheight : v.height ≤ height + 1) (key : String) (space : Option String) :
    ((v.get? key).map (inside space)).getD [] = ((w.get? key).map (inside' space)).getD [] := by
  cases hmember : v.get? key with
  | none => rw [eq_none_of_rel (h.get? key) hmember]; rfl
  | some member =>
      obtain ⟨member', hmember', hnear⟩ := exists_of_rel (h.get? key) hmember
      rw [hmember', Option.map_some, Option.map_some,
        hinside.member hheight hmember hnear space]

theorem markedMentions_type {type : Json} (htype : v.get? "type" = some type)
    (hfixed : type ≠ .str "fixed") (space : Option String) :
    markedMentions inside space v = inside space type := by
  simp only [markedMentions, htype]

theorem markedMentions_near (hinside : AgreeOnNear height inside inside') (h : v.Near w)
    (hheight : v.height ≤ height + 1) (space : Option String) :
    markedMentions inside space v = markedMentions inside' space w := by
  cases htype : v.get? "type" with
  | none =>
      rw [markedMentions, markedMentions, htype, eq_none_of_rel (h.get? "type") htype]
  | some type =>
      obtain ⟨type', htype', hnear⟩ := exists_of_rel (h.get? "type") htype
      by_cases hfixed : type = .str "fixed"
      · subst hfixed
        rw [markedMentions, markedMentions, htype, h.get?_str htype]
        exact definitionMentions_near h (fun _ => rfl) space
      · rw [markedMentions_type htype hfixed, markedMentions_type htype' (hnear.ne_str hfixed)]
        exact hinside.member hheight htype hnear space

theorem plainMentions_near (hinside : AgreeOnNear height inside inside') (h : v.Near w)
    (hheight : v.height ≤ height + 1) (space : Option String) :
    plainMentions inside space v = plainMentions inside' space w := by
  unfold plainMentions
  split
  · next htype =>
      simp only [h.get?_str htype]
      exact definitionMentions_near h (fun space =>
        hinside.flatMap (entries_near h) (height_le_of_mem_entries hheight) space) space
  · next htype =>
      simp only [h.get?_str htype]
      exact definitionMentions_near h (fun _ => rfl) space
  · next htype =>
      simp only [h.get?_str htype]
      exact memberMentions_near hinside h hheight "items" space
  · next htype =>
      simp only [h.get?_str htype]
      exact memberMentions_near hinside h hheight "values" space
  · next htype =>
      simp only [h.get?_str htype]
      exact definitionMentions_near h (fun _ => rfl) space
  · next htype => simp only [h.get?_str htype]
  · next type _ _ _ _ _ hword htype =>
      obtain ⟨type', htype', hnear⟩ := exists_of_rel (h.get? "type") htype
      have hsame := hinside.member hheight htype hnear space
      rw [htype']
      cases hnear with
      | str word => exact absurd rfl (hword word)
      | _ => exact hsame
  · next htype => rw [eq_none_of_rel (h.get? "type") htype]

/-- Mentions do not depend on doubles, nor on how deep a value might have nested. -/
theorem mentions_near {n m : Nat} (h : v.Near w) (hn : v.height ≤ n) (hm : v.height ≤ m)
    (space : Option String) : mentions n space v = mentions m space w := by
  induction n generalizing m v w space with
  | zero => exact absurd hn (by cases v <;> simp [Json.height])
  | succ n ih =>
      cases m with
      | zero => exact absurd hm (by cases v <;> simp [Json.height])
      | succ m =>
          have hinside : AgreeOnNear (min n m) (mentions n) (mentions m) := fun space _ _ h hlow =>
            ih h (Nat.le_trans hlow (Nat.min_le_left _ _))
              (Nat.le_trans hlow (Nat.min_le_right _ _)) space
          have hheight : v.height ≤ min n m + 1 := by omega
          cases h with
          | @arr xs _ h =>
              refine hinside.flatMap h (fun x hx => ?_) space
              exact Nat.le_of_lt_succ (Nat.lt_of_lt_of_le (Json.height_lt_of_mem hx) hheight)
          | @obj ms ns hkeys hmembers =>
              have hnear := Json.Near.obj hkeys hmembers
              rw [mentions, mentions, ← mark?_eq hnear]
              cases mark? (.obj ms) with
              | some => exact markedMentions_near hinside hnear hheight space
              | none => exact plainMentions_near hinside hnear hheight space
          | _ => rfl

end

/-! ## Records of declared fields -/

/-- A declaration whose names are known wherever they are meant. -/
def IsSelfContained (v : Json) : Prop := Mention.Closed [] (mentions v.height none v)

/-- A declaration in which every type is written in full. -/
def IsInFull (v : Json) : Prop := ∀ name, .copies name ∉ mentions v.height none v

theorem isSelfContained_of_ofJson? (h : Schema.ofJson? v = some s) : IsSelfContained v := by
  obtain ⟨⟨t, scope⟩, hread, -⟩ := Option.map_eq_some_iff.mp h
  exact (readsMentions_read? _ _ none hread).closed

theorem isSelfContained_near (h : v.Near w) : IsSelfContained v ↔ IsSelfContained w := by
  rw [IsSelfContained, IsSelfContained,
    mentions_near h (Nat.le_refl _) (Nat.le_of_eq h.height_eq) none]

theorem areDistinct_sublist {vs ws : List Json} {taken taken' : List String}
    (h : areDistinct taken vs) (hsublist : ws.Sublist vs) (htaken : taken' ⊆ taken) :
    areDistinct taken' ws := by
  -- Fewer entries take fewer names, so the names that are taken shrink along the list.
  induction hsublist generalizing taken taken' with
  | slnil => exact rfl
  | @cons vs ws v hsublist ih =>
      rw [areDistinct] at h
      split at h
      · exact ih h htaken
      · next name _ =>
          refine ih (Bool.and_eq_true_iff.mp h).2 ?_
          exact List.subset_append_of_subset_right _ htaken
  | @cons_cons vs ws v hsublist ih =>
      rw [areDistinct] at h ⊢
      split at h
      · exact ih h htaken
      · next name hname =>
          obtain ⟨hnew, hrest⟩ := Bool.and_eq_true_iff.mp h
          refine Bool.and_eq_true_iff.mpr ⟨?_, ih hrest (List.append_subset.mpr
            ⟨List.subset_append_left _ _, List.subset_append_of_subset_right _ htaken⟩)⟩
          simp only [Bool.not_eq_true', List.contains_eq_mem, decide_eq_false_iff_not] at hnew ⊢
          exact fun hmem => hnew (htaken hmem)

/-- Some of the fields of a record are declared by their own entries. -/
theorem IsRecordOf.filter {fuel : Nat} {items : List Json} {name : Name}
    {fields : List (Field Schema)} (h : IsRecordOf budget fuel items name fields)
    {p : Json → Bool} {q : String → Bool}
    (hpq : ∀ entry text, entry.text? "name" = some text → p entry = q text) :
    IsRecordOf budget fuel (items.filter p) name (fields.filter fun f => q f.name) := by
  have hcomm : (items.filter p).filter isObject = (items.filter isObject).filter p := by
    rw [List.filter_filter, List.filter_filter]
    exact List.filter_congr fun _ _ => Bool.and_comm _ _
  constructor
  · rw [hcomm]
    exact forall₂_filter h.reads fun entry f ⟨_, _, hf⟩ => hpq entry f.name (field?_declares hf).1
  · rw [hcomm]
    exact areDistinct_sublist h.apart List.filter_sublist (List.Subset.refl _)

/-- A record defines its names and mentions what the entries of its list of fields mention. -/
theorem mentions_record {items : List Json} {name : Name} {aliases : List Name}
    (htype : v.get? "type" = some (.str "record")) (hmark : v.get? "logicalType" = none)
    (hname : name? none v = some name) (haliases : aliases? name v = some aliases)
    (hitems : v.get? "fields" = some (.arr items)) :
    mentions v.height none v = .defines (name :: aliases) ::
      (items.filter isObject).flatMap fun entry => mentions entry.height name.space entry := by
  have hitemsHeight := Json.height_get?_lt hitems
  obtain ⟨members, rfl⟩ := Json.exists_members_of_get? htype
  rw [Json.height, mentions, mark?_eq_none hmark]
  simp only [plainMentions, htype]
  rw [definitionMentions_eq hitems hname haliases, entries_eq hitems]
  refine congrArg _ (List.flatMap_congr fun entry hentry => ?_)
  have hentryHeight := Json.height_lt_of_mem (List.mem_of_mem_filter hentry)
  have hheight : (Json.obj members).height = Json.heightMembers members + 1 := rfl
  exact mentions_near (.refl entry) (by omega) (Nat.le_refl _) name.space

/-- What the declaration of a record is read as. -/
theorem exists_isRecordOf_of_ofJson? {items : List Json} {name : Name}
    (htype : v.get? "type" = some (.str "record")) (hmark : v.get? "logicalType" = none)
    (hname : name? none v = some name) (hitems : v.get? "fields" = some (.arr items))
    (h : Schema.ofJson? v = some s) :
    ∃ fields budget fuel, s = .record name fields ∧ IsRecordOf budget fuel items name fields := by
  obtain ⟨⟨t, scope⟩, hread, rfl⟩ := Option.map_eq_some_iff.mp h
  obtain ⟨members, rfl⟩ := Json.exists_members_of_get? htype
  obtain ⟨-, hplain⟩ := read?_obj_iff.mp hread
  rw [mark?_eq_none hmark] at hplain
  simp only [plain?, htype] at hplain
  rcases record?_eq_some_iff.mp hplain with ⟨hnone, -⟩ |
    ⟨items', name', aliases, fields, mid, hitems', hname', -, hfields, hdistinct, rfl, -⟩
  · rw [hitems] at hnone
    cases hnone
  · obtain rfl := Json.arr.inj (Option.some.inj (hitems.symm.trans hitems'))
    obtain rfl := Option.some.inj (hname.symm.trans hname')
    exact ⟨fields, _, _, rfl, fields?_eq_some hfields, hdistinct⟩

/-- Fields that are declared somewhere make up a record of their own, if its declaration is
self-contained. -/
theorem exists_ofJson?_of_isRecordOf {fuel : Nat} {items : List Json} {name row : Name}
    {aliases : List Name} {declared : List (Field Schema)} (hnear : v.Near w)
    (htype : v.get? "type" = some (.str "record")) (hmark : v.get? "logicalType" = none)
    (hname : name? none v = some name) (haliases : aliases? name v = some aliases)
    (hitems : v.get? "fields" = some (.arr items))
    (hrecord : IsRecordOf budget fuel items row declared) (hbudget : fuel ≤ budget)
    (hsettled : (Schema.record row declared).IsSettled) (hclosed : IsSelfContained v)
    (hfull : IsInFull v) : ∃ t, Schema.ofJson? w = some t := by
  have htype' := hnear.get?_str htype
  obtain ⟨members, rfl⟩ := Json.exists_members_of_get? htype'
  have hmark' := eq_none_of_rel (hnear.get? "logicalType") hmark
  have hunmarked := mark?_eq_none hmark'
  have hheight : (Json.obj members).height = Json.heightMembers members + 1 := rfl
  have hbound := Nat.le_of_succ_le (Json.height_le_budget (.obj members))
  have hadmits : Admits .empty (mentions (Json.obj members).height none (.obj members)) := by
    have hmentions := mentions_near hnear (Nat.le_refl _) (Nat.le_of_eq hnear.height_eq) none
    rw [IsSelfContained, hmentions] at hclosed
    rw [IsInFull, hmentions] at hfull
    exact ⟨hclosed, hfull⟩
  rw [hheight, mentions, hunmarked] at hadmits
  simp only [plainMentions, htype'] at hadmits
  -- The entries are read again, each of them where it stands now.
  obtain ⟨name', gs, known, hread, -⟩ := fields_reread
    (fun _ => read?_reread hbudget hbound row.space) (readsMentions_read? _ _)
    (Nat.le_trans (Nat.min_le_left _ _) hbudget) (Nat.le_trans (Nat.min_le_right _ _) hbound)
    isSpace_none hitems hname haliases hrecord.reads hrecord.apart hsettled hnear (by rw [hheight])
    hadmits
  suffices hwhole : read? _ (Json.obj members).height none .empty (.obj members) =
      some (.record name' gs, known) from ⟨_, Option.map_eq_some_iff.mpr ⟨_, hwhole, rfl⟩⟩
  rw [hheight, read?_obj_iff, hunmarked]
  refine ⟨fun mark hmark => absurd hmark (by simp [hmark']), ?_⟩
  simp only [plain?, htype']
  exact hread

end ChangeCapture.Avro.Declaration
