import ChangeCapture.Proofs.Change.Caches
import ChangeCapture.Proofs.Change.Documents

/-!
# State records in any order

The entries of a state record come in no order of their own. What a cache finds does not depend on
it as long as the keys that write one fingerprint in several ways go with one document, or with
documents of which none can be used.
-/

namespace ChangeCapture.Change

namespace StateRecord

/-- The fingerprint and the document of an entry, if its key is a fingerprint. -/
def pair? (entry : String × String) : Option (Fingerprint × String) :=
  (Fingerprint.ofText entry.1).toOption.map (·, entry.2)

theorem documents_cons_eq_ok {entry : String × String} {data : List (String × String)}
    {pairs : List (Fingerprint × String)} (h : documents (entry :: data) = .ok pairs) :
    ∃ p rest, pair? entry = some p ∧ documents data = .ok rest ∧ pairs = p :: rest := by
  obtain ⟨key, document⟩ := entry
  rw [documents] at h
  cases hkey : Fingerprint.ofText key with
  | error fault => simp [hkey] at h
  | ok fingerprint =>
      cases hrest : documents data with
      | error e => simp [hkey, hrest] at h
      | ok rest =>
          obtain rfl : (fingerprint, document) :: rest = pairs := by simpa [hkey, hrest] using h
          exact ⟨_, rest, by simp [pair?, hkey, Except.toOption], rfl, rfl⟩

theorem filterMap_pair? {data : List (String × String)} {pairs : List (Fingerprint × String)}
    (h : documents data = .ok pairs) : data.filterMap pair? = pairs := by
  induction data generalizing pairs with
  | nil => exact Except.ok.inj h
  | cons entry data ih =>
      obtain ⟨p, rest, hp, hrest, rfl⟩ := documents_cons_eq_ok h
      rw [List.filterMap_cons_some hp, ih hrest]

theorem documents_isOk_iff {data : List (String × String)} :
    (∃ pairs, documents data = .ok pairs) ↔ ∀ entry ∈ data, (pair? entry).isSome := by
  induction data with
  | nil => exact ⟨fun _ => by simp, fun _ => ⟨[], rfl⟩⟩
  | cons entry data ih =>
      rw [List.forall_mem_cons, ← ih]
      constructor
      · rintro ⟨pairs, h⟩
        obtain ⟨p, rest, hp, hrest, -⟩ := documents_cons_eq_ok h
        exact ⟨by rw [hp]; rfl, rest, hrest⟩
      · rintro ⟨hentry, rest, hrest⟩
        obtain ⟨key, document⟩ := entry
        rw [documents]
        cases hkey : Fingerprint.ofText key with
        | error fault => simp [pair?, hkey, Except.toOption] at hentry
        | ok fingerprint => exact ⟨_, by rw [hrest]⟩

/-- No two entries whose keys are one fingerprint go with documents that are to be told apart. -/
def IsUnambiguous (data : List (String × String)) : Prop :=
  ∀ f d d', (f, d) ∈ data.filterMap pair? → (f, d') ∈ data.filterMap pair? →
    d = d' ∨ (CachedSchema.parse f d).toOption = none ∧ (CachedSchema.parse f d').toOption = none

end StateRecord

namespace SchemaCache

/-- The same schema, or failures of one kind. -/
inductive SameResolution : Except Error CachedSchema → Except Error CachedSchema → Prop
  | found {s s' : CachedSchema} (document : s.document = s'.document)
      (columns : s.columns = s'.columns) : SameResolution (.ok s) (.ok s')
  | failed {e e' : Error} (code : e.code = e'.code) : SameResolution (.error e) (.error e')

/-- Two failures, or two caches of one size that resolve every fingerprint alike. -/
inductive SameCache : Except Error SchemaCache → Except Error SchemaCache → Prop
  | built {c c' : SchemaCache} (size : c.size = c'.size)
      (resolve : ∀ f, SameResolution (c.resolve f) (c'.resolve f)) : SameCache (.ok c) (.ok c')
  | failed (e e' : Error) : SameCache (.error e) (.error e')

theorem SameResolution.refl : ∀ r, SameResolution r r
  | .ok _ => .found rfl rfl
  | .error _ => .failed rfl

theorem SameCache.resolution {c c' : SchemaCache} (h : SameCache (.ok c) (.ok c'))
    (f : Fingerprint) : SameResolution (c.resolve f) (c'.resolve f) := by
  cases h with
  | built _ hresolve => exact hresolve f

theorem sameResolution_parse_iff {f : Fingerprint} {d d' : String} :
    SameResolution (resolution f (some (CachedSchema.parse f d)))
        (resolution f (some (CachedSchema.parse f d'))) ↔
      d = d' ∨ (CachedSchema.parse f d).toOption = none ∧
        (CachedSchema.parse f d').toOption = none := by
  constructor
  · intro h
    cases hd : CachedSchema.parse f d with
    | error fault =>
        cases hd' : CachedSchema.parse f d' with
        | error fault' => exact Or.inr ⟨rfl, rfl⟩
        | ok s' =>
            rw [hd, hd'] at h
            exact nomatch h
    | ok s =>
        cases hd' : CachedSchema.parse f d' with
        | error fault' =>
            rw [hd, hd'] at h
            exact nomatch h
        | ok s' =>
            obtain ⟨-, -, -, -, -, hs⟩ := CachedSchema.parse_eq_ok_iff.mp hd
            obtain ⟨-, -, -, -, -, hs'⟩ := CachedSchema.parse_eq_ok_iff.mp hd'
            rw [hd, hd'] at h
            cases h with
            | found hdocument => exact Or.inl (hs.symm.trans (hdocument.trans hs'))
  · rintro (rfl | ⟨hd, hd'⟩)
    · exact .refl _
    · cases hparse : CachedSchema.parse f d with
      | ok s => simp [hparse, Except.toOption] at hd
      | error fault =>
          cases hparse' : CachedSchema.parse f d' with
          | ok s' => simp [hparse', Except.toOption] at hd'
          | error fault' => exact .failed rfl

/-- A document that comes last in some order is the one that counts there. -/
theorem resolve_ofDocuments_append (pairs : List (Fingerprint × String)) (f : Fingerprint)
    (d : String) : (ofDocuments (pairs ++ [(f, d)])).resolve f =
      resolution f (some (CachedSchema.parse f d)) := by
  rw [resolve_eq_resolution, find?_ofDocuments, List.reverse_append, List.reverse_singleton,
    List.singleton_append, List.lookup_cons, beq_self_eq_true]
  rfl

theorem exists_of_lookup_reverse (pairs : List (Fingerprint × String)) (f : Fingerprint) :
    (pairs.reverse.lookup f = none ∧ ∀ d, (f, d) ∉ pairs) ∨
      ∃ d, pairs.reverse.lookup f = some d ∧ (f, d) ∈ pairs := by
  cases hlookup : pairs.reverse.lookup f with
  | none =>
      refine Or.inl ⟨rfl, fun d hd => ?_⟩
      have hne := List.lookup_eq_none_iff.mp hlookup (f, d) (List.mem_reverse.mpr hd)
      simp at hne
  | some d =>
      obtain ⟨before, after, hpairs, -⟩ := List.lookup_eq_some_iff.mp hlookup
      refine Or.inr ⟨d, rfl, List.mem_reverse.mp ?_⟩
      rw [hpairs]
      simp

theorem ofState_of_filterMap {data : List (String × String)}
    (h : ∀ entry ∈ data, (StateRecord.pair? entry).isSome) :
    ofState data = .ok (ofDocuments (data.filterMap StateRecord.pair?)) := by
  obtain ⟨pairs, hpairs⟩ := StateRecord.documents_isOk_iff.mpr h
  rw [ofState, hpairs, StateRecord.filterMap_pair? hpairs]
  rfl

theorem ofState_eq_error {data : List (String × String)}
    (h : ¬∀ entry ∈ data, (StateRecord.pair? entry).isSome) : ∃ e, ofState data = .error e := by
  rw [← StateRecord.documents_isOk_iff] at h
  unfold ofState
  cases hdocuments : StateRecord.documents data with
  | error e => exact ⟨e, rfl⟩
  | ok pairs => exact (h ⟨pairs, hdocuments⟩).elim

theorem sameCache_of_isUnambiguous {pairs pairs' : List (Fingerprint × String)}
    (hperm : pairs.Perm pairs') (h : ∀ f d d', (f, d) ∈ pairs → (f, d') ∈ pairs →
      d = d' ∨ (CachedSchema.parse f d).toOption = none ∧
        (CachedSchema.parse f d').toOption = none) :
    SameCache (.ok (ofDocuments pairs)) (.ok (ofDocuments pairs')) := by
  refine .built (size_perm hperm) fun f => ?_
  rw [resolve_eq_resolution, resolve_eq_resolution, find?_ofDocuments, find?_ofDocuments]
  rcases exists_of_lookup_reverse pairs f with ⟨hnone, habsent⟩ | ⟨d, hd, hmem⟩
  · rcases exists_of_lookup_reverse pairs' f with ⟨hnone', -⟩ | ⟨d', -, hmem'⟩
    · rw [hnone, hnone']
      exact .refl _
    · exact (habsent d' (hperm.mem_iff.mpr hmem')).elim
  · rcases exists_of_lookup_reverse pairs' f with ⟨-, habsent⟩ | ⟨d', hd', hmem'⟩
    · exact (habsent d (hperm.mem_iff.mp hmem)).elim
    · rw [hd, hd']
      exact sameResolution_parse_iff.mpr (h f d d' hmem (hperm.mem_iff.mpr hmem'))

theorem exists_perm_append {entry : String × String} {data : List (String × String)}
    (h : entry ∈ data) : ∃ rest, data.Perm (rest ++ [entry]) := by
  obtain ⟨before, after, rfl⟩ := List.append_of_mem h
  refine ⟨before ++ after, ?_⟩
  exact List.perm_middle.trans (List.perm_append_singleton entry (before ++ after)).symm

/-- The entries of a state record give the same cache in every order exactly if no two of its keys
that are one fingerprint go with documents that are to be told apart. -/
theorem sameCache_perm_iff (data : List (String × String)) :
    (∀ data₁ data₂, data.Perm data₁ → data.Perm data₂ → SameCache (ofState data₁) (ofState data₂)) ↔
      ((∀ entry ∈ data, (StateRecord.pair? entry).isSome) → StateRecord.IsUnambiguous data) := by
  constructor
  · intro h hkeys f d d' hd hd'
    obtain ⟨entry, hentry, hpair⟩ := List.mem_filterMap.mp hd
    obtain ⟨entry', hentry', hpair'⟩ := List.mem_filterMap.mp hd'
    -- Either entry comes last in some order, where its document is the one that counts.
    obtain ⟨rest, hperm⟩ := exists_perm_append hentry
    obtain ⟨rest', hperm'⟩ := exists_perm_append hentry'
    have hsame := h _ _ hperm hperm'
    rw [ofState_of_filterMap fun e he => hkeys e (hperm.mem_iff.mpr he),
      ofState_of_filterMap fun e he => hkeys e (hperm'.mem_iff.mpr he),
      List.filterMap_append, List.filterMap_append,
      List.filterMap_cons_some hpair, List.filterMap_cons_some hpair'] at hsame
    have hresolve := hsame.resolution f
    rw [List.filterMap_nil, resolve_ofDocuments_append, resolve_ofDocuments_append] at hresolve
    exact sameResolution_parse_iff.mp hresolve
  · intro h data₁ data₂ hperm₁ hperm₂
    by_cases hkeys : ∀ entry ∈ data, (StateRecord.pair? entry).isSome
    · rw [ofState_of_filterMap fun e he => hkeys e (hperm₁.mem_iff.mpr he),
        ofState_of_filterMap fun e he => hkeys e (hperm₂.mem_iff.mpr he)]
      have hpairs₁ := hperm₁.filterMap StateRecord.pair?
      have hpairs₂ := hperm₂.filterMap StateRecord.pair?
      refine sameCache_of_isUnambiguous (hpairs₁.symm.trans hpairs₂) fun f d d' hd hd' => ?_
      exact h hkeys f d d' (hpairs₁.mem_iff.mpr hd) (hpairs₁.mem_iff.mpr hd')
    · obtain ⟨e₁, he₁⟩ := ofState_eq_error fun hall =>
        hkeys fun e he => hall e (hperm₁.mem_iff.mp he)
      obtain ⟨e₂, he₂⟩ := ofState_eq_error fun hall =>
        hkeys fun e he => hall e (hperm₂.mem_iff.mp he)
      rw [he₁, he₂]
      exact .failed e₁ e₂

/-- The document of a table and a text that is no document, under two spellings of one
fingerprint. -/
def twiceNamed : List (String × String) := [("0", noteTable.compress), ("+0", "")]

theorem pair?_zero (document : String) :
    StateRecord.pair? ("0", document) = some (⟨0⟩, document) := by
  have hkey : (Fingerprint.ofText "0").toOption = some ⟨0⟩ := by decide +kernel
  simp [StateRecord.pair?, hkey]

theorem pair?_plusZero (document : String) :
    StateRecord.pair? ("+0", document) = some (⟨0⟩, document) := by
  have hkey : (Fingerprint.ofText "+0").toOption = some ⟨0⟩ := by decide +kernel
  simp [StateRecord.pair?, hkey]

theorem parse_noteTable_ne_none :
    (CachedSchema.parse ⟨0⟩ noteTable.compress).toOption ≠ none := by
  obtain ⟨cached, hcached⟩ := exists_parse_noteTable
  rw [hcached]
  exact Option.some_ne_none _

theorem compress_noteTable_ne_empty : noteTable.compress ≠ "" := by
  intro h
  have hparse := parse?_noteTable
  rw [h] at hparse
  exact absurd hparse (by decide +kernel)

theorem sameCache_twiceNamed_reverse :
    (twiceNamed.map Prod.fst).Nodup ∧ twiceNamed.Perm twiceNamed.reverse ∧
      ¬SameCache (ofState twiceNamed) (ofState twiceNamed.reverse) := by
  refine ⟨by simp [twiceNamed], (List.reverse_perm twiceNamed).symm, fun hsame => ?_⟩
  have hpairs : twiceNamed.filterMap StateRecord.pair? =
      [(⟨0⟩, noteTable.compress)] ++ [(⟨0⟩, "")] := by
    simp [twiceNamed, pair?_zero, pair?_plusZero]
  have hpairs' : twiceNamed.reverse.filterMap StateRecord.pair? =
      [(⟨0⟩, "")] ++ [(⟨0⟩, noteTable.compress)] := by
    simp [twiceNamed, pair?_zero, pair?_plusZero]
  have hkeys : ∀ entry ∈ twiceNamed, (StateRecord.pair? entry).isSome := by
    simp [twiceNamed, pair?_zero, pair?_plusZero]
  rw [ofState_of_filterMap hkeys, ofState_of_filterMap fun e he => hkeys e (List.mem_reverse.mp he),
    hpairs, hpairs'] at hsame
  have hresolve := hsame.resolution ⟨0⟩
  rw [resolve_ofDocuments_append, resolve_ofDocuments_append, sameResolution_parse_iff] at hresolve
  rcases hresolve with hempty | ⟨-, hnone⟩
  · exact compress_noteTable_ne_empty hempty.symm
  · exact parse_noteTable_ne_none hnone

end SchemaCache

end ChangeCapture.Change
