import ChangeCapture.Proofs.Change.Membership
import Mathlib.Data.List.Dedup

/-!
# Fingerprints do not disturb each other

A cache tells of a fingerprint what the last of its documents says. The documents of other
fingerprints, usable or not, change nothing for a record that references it.
-/

namespace ChangeCapture.Change

namespace SchemaCache

/-- What a cache built from the given documents tells. -/
structure Holds (c : SchemaCache) (documents : List (Fingerprint × String)) : Prop where
  absent : ∀ f, f ∉ documents.map Prod.fst → c.resolve f = .error (.schemaNotFound f)
  accepted : ∀ earlier later f document s, documents = earlier ++ (f, document) :: later →
    f ∉ later.map Prod.fst → CachedSchema.parse f document = .ok s →
    c.resolve f = .ok s ∧ s.fingerprint = f ∧ s.document = document ∧
      Avro.Schema.parse? document = some s.avro ∧ Columns.ofDocument document = .ok s.columns
  rejected : ∀ earlier later f document fault, documents = earlier ++ (f, document) :: later →
    f ∉ later.map Prod.fst → CachedSchema.parse f document = .error fault →
    c.resolve f = .error (.schema (.unusable f fault))
  contains_iff : ∀ f, c.contains f ↔ ∃ s, c.resolve f = .ok s
  fingerprints_nodup : c.fingerprints.Nodup
  mem_fingerprints : ∀ f, f ∈ c.fingerprints ↔ f ∈ documents.map Prod.fst
  size_eq : c.size = (documents.map Prod.fst).dedup.length

/-- Caches that no record tells apart which references the fingerprint. -/
structure SameFor (f : Fingerprint) (c c' : SchemaCache) : Prop where
  resolve : c.resolve f = c'.resolve f
  contains : c.contains f = c'.contains f
  decode : ∀ bytes wrapper, Wrapper.decode bytes = .ok wrapper → wrapper.fingerprint = f →
    DecodedChange.decode c bytes = DecodedChange.decode c' bytes
  process : ∀ (n : Normalizer) r bytes wrapper,
    Envelope.classify r n.settings.effectiveField = .ok (.row bytes) →
    Wrapper.decode bytes = .ok wrapper → wrapper.fingerprint = f →
    ((n.withCache c).process r).1 = ((n.withCache c').process r).1 ∧
      ((n.withCache c).process r).2.counters = ((n.withCache c').process r).2.counters

variable {f : Fingerprint} {documents documents' : List (Fingerprint × String)}

theorem find?_of_notMem (h : f ∉ documents.map Prod.fst) :
    (ofDocuments documents).find? f = none := by
  have hlookup : documents.reverse.lookup f = none := by
    rw [List.lookup_eq_none_iff]
    intro p hp
    rw [bne_iff_ne]
    rintro rfl
    exact h (List.mem_map_of_mem (List.mem_reverse.mp hp))
  rw [find?_ofDocuments, hlookup, Option.map_none]

/-- No document counts that is followed by another one of its fingerprint. -/
theorem find?_of_last {earlier later : List (Fingerprint × String)} {document : String}
    (h : documents = earlier ++ (f, document) :: later) (hlast : f ∉ later.map Prod.fst) :
    (ofDocuments documents).find? f = some (CachedSchema.parse f document) := by
  have hlookup : documents.reverse.lookup f = some document := by
    rw [List.lookup_eq_some_iff]
    refine ⟨later.reverse, earlier.reverse, by simp [h], ?_⟩
    intro p hp
    rw [bne_iff_ne]
    rintro rfl
    exact hlast (List.mem_map_of_mem (List.mem_reverse.mp hp))
  rw [find?_ofDocuments, hlookup, Option.map_some]

theorem contains_eq_isSome (c : SchemaCache) (f : Fingerprint) :
    c.contains f = (c.resolve f).toOption.isSome := by
  rw [resolve_eq_resolution, contains]
  rcases c.find? f with _ | _ | s <;> rfl

theorem holds_ofDocuments (documents : List (Fingerprint × String)) :
    (ofDocuments documents).Holds documents := by
  obtain ⟨hnodup, hmem⟩ := fingerprints_ofDocuments documents
  constructor
  · intro f hf
    rw [resolve_eq_resolution, find?_of_notMem hf]
    rfl
  · intro earlier later f document s h hlast hs
    obtain ⟨v, hv, havro, hcolumns, hfingerprint, hdocument⟩ := CachedSchema.parse_eq_ok_iff.mp hs
    have hresolve := resolve_eq_ok_iff.mpr ((find?_of_last h hlast).trans (congrArg some hs))
    refine ⟨hresolve, hfingerprint, hdocument, ?_, ?_⟩
    · rw [Avro.Schema.parse?, hv]
      exact havro
    · rw [Columns.ofDocument, hv]
      exact hcolumns
  · intro earlier later f document fault h hlast hfault
    rw [resolve_eq_resolution, find?_of_last h hlast, hfault]
    rfl
  · intro f
    rw [contains_eq_isSome]
    cases (ofDocuments documents).resolve f <;> simp [Except.toOption]
  · exact hnodup
  · exact hmem
  · have hperm : (ofDocuments documents).fingerprints.Perm (documents.map Prod.fst).dedup := by
      rw [List.perm_ext_iff_of_nodup hnodup (List.nodup_dedup _)]
      intro f
      rw [hmem, List.mem_dedup]
    have hlength := hperm.length_eq
    rwa [fingerprints, List.length_map] at hlength

/-- Only the documents of a fingerprint count for it, in their order. -/
theorem find?_eq_of_filter_eq
    (h : (documents.filter fun p => p.1 = f) = documents'.filter fun p => p.1 = f) :
    (ofDocuments documents).find? f = (ofDocuments documents').find? f := by
  have hself : decide (f = f) = true := decide_eq_true rfl
  have hown := lookup_filter (p := (decide <| · = f)) hself documents.reverse
  have hown' := lookup_filter (p := (decide <| · = f)) hself documents'.reverse
  rw [find?_ofDocuments, find?_ofDocuments, ← hown, ← hown', List.filter_reverse,
    List.filter_reverse, h]

theorem sameFor_of_find? {c c' : SchemaCache} (h : c.find? f = c'.find? f) : SameFor f c c' := by
  have hresolve : c.resolve f = c'.resolve f := by
    rw [resolve_eq_resolution, resolve_eq_resolution, h]
  have hdecode : ∀ bytes wrapper, Wrapper.decode bytes = .ok wrapper → wrapper.fingerprint = f →
      DecodedChange.decode c bytes = DecodedChange.decode c' bytes := by
    intro bytes wrapper hwrapper hf
    rw [DecodedChange.decode, DecodedChange.decode, hwrapper]
    dsimp only
    rw [hf, hresolve]
  refine ⟨hresolve, by rw [contains, contains, h], hdecode, ?_⟩
  intro n r bytes wrapper hbytes hwrapper hf
  have hrecordOf : Normalizer.recordOf n.settings c r = Normalizer.recordOf n.settings c' r := by
    rw [Normalizer.recordOf, Normalizer.recordOf, hbytes]
    dsimp only
    rw [Normalizer.changeOf, Normalizer.changeOf, hdecode bytes wrapper hwrapper hf]
  rw [Normalizer.process_eq, Normalizer.process_eq]
  dsimp only [Normalizer.withCache]
  rw [hrecordOf]
  exact ⟨rfl, rfl⟩

/-- A cache tells what the last document of each fingerprint says, and nothing else. -/
theorem contents_ofDocuments (documents : List (Fingerprint × String)) :
    (ofDocuments documents).Holds documents ∧ ∀ f documents',
      (documents.filter fun p => p.1 = f) = (documents'.filter fun p => p.1 = f) →
      SameFor f (ofDocuments documents) (ofDocuments documents') := by
  refine ⟨holds_ofDocuments documents, ?_⟩
  intro f documents' h
  exact sameFor_of_find? (find?_eq_of_filter_eq h)

/-- A usable document, and a text that is none under another fingerprint. -/
def noteDocuments : List (Fingerprint × String) := [(⟨0⟩, noteTable.compress), (⟨1⟩, "")]

theorem contents_ofDocuments_noteDocuments :
    (∃ s, (ofDocuments noteDocuments).resolve ⟨0⟩ = .ok s ∧ s.document = noteTable.compress) ∧
      (ofDocuments noteDocuments).resolve ⟨1⟩ =
        .error (.schema (.unusable ⟨1⟩ (.notAvro ⟨1⟩))) ∧
      (ofDocuments noteDocuments).resolve ⟨2⟩ = .error (.schemaNotFound ⟨2⟩) ∧
      SameFor ⟨0⟩ (ofDocuments noteDocuments)
        (ofDocuments [(⟨2⟩, "x"), (⟨0⟩, noteTable.compress)]) := by
  obtain ⟨hholds, hsame⟩ := contents_ofDocuments noteDocuments
  obtain ⟨s, hs⟩ := exists_parse_noteTable
  obtain ⟨hresolve, -, hdocument, -, -⟩ :=
    hholds.accepted [] [(⟨1⟩, "")] ⟨0⟩ noteTable.compress s rfl (by decide) hs
  have hfault : CachedSchema.parse ⟨1⟩ "" = .error (.notAvro ⟨1⟩) := by
    have havro : Avro.Schema.parse? "" = none := by decide +kernel
    rw [CachedSchema.parse, havro]
  refine ⟨⟨s, hresolve, hdocument⟩, ?_, ?_, ?_⟩
  · exact hholds.rejected [(⟨0⟩, noteTable.compress)] [] ⟨1⟩ "" _ rfl (List.not_mem_nil) hfault
  · exact hholds.absent ⟨2⟩ (by simp [noteDocuments])
  · exact hsame ⟨0⟩ _ (by simp [noteDocuments])

end SchemaCache

end ChangeCapture.Change
