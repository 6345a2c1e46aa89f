import ChangeCapture.Change.SchemaCache
import Mathlib.Data.List.Induction
import Mathlib.Data.List.Nodup
import Mathlib.Data.List.Perm.Basic

/-!
# What a cache holds

A cache has one entry for each fingerprint that was delivered: the outcome of reading the last
document that was delivered under it.
-/

namespace ChangeCapture.Change.SchemaCache

section Insert

variable {α : Type} {f g : Fingerprint} {e : α} {entries : List (Fingerprint × α)}

theorem lookup_insert_self : (insert f e entries).lookup f = some e := by
  induction entries with
  | nil => simp [insert]
  | cons p rest ih =>
      obtain ⟨g, e'⟩ := p
      rw [insert]
      by_cases hg : g = f
      · simp [hg]
      · rw [if_neg hg, List.lookup_cons, beq_false_of_ne (Ne.symm hg)]
        exact ih

theorem lookup_insert_ne (h : g ≠ f) :
    (insert f e entries).lookup g = entries.lookup g := by
  induction entries with
  | nil => simp [insert, List.lookup_cons, beq_false_of_ne h]
  | cons p rest ih =>
      obtain ⟨g', e'⟩ := p
      rw [insert]
      by_cases hg : g' = f
      · rw [if_pos hg, hg, List.lookup_cons, List.lookup_cons, beq_false_of_ne h]
      · rw [if_neg hg, List.lookup_cons, List.lookup_cons, ih]

theorem keys_insert : (insert f e entries).map Prod.fst =
    if f ∈ entries.map Prod.fst then entries.map Prod.fst else entries.map Prod.fst ++ [f] := by
  induction entries with
  | nil => rfl
  | cons p rest ih =>
      obtain ⟨g, e'⟩ := p
      rw [insert]
      by_cases hg : g = f
      · simp [hg]
      · have hmem : f ∈ g :: rest.map Prod.fst ↔ f ∈ rest.map Prod.fst := by
          rw [List.mem_cons, or_iff_right (Ne.symm hg)]
        rw [if_neg hg, List.map_cons, List.map_cons, ih]
        dsimp only
        by_cases hf : f ∈ rest.map Prod.fst
        · rw [if_pos hf, if_pos (hmem.mpr hf)]
        · rw [if_neg hf, if_neg (hf ∘ hmem.mp), List.cons_append]

theorem mem_keys_insert :
    g ∈ (insert f e entries).map Prod.fst ↔ g ∈ entries.map Prod.fst ∨ g = f := by
  rw [keys_insert]
  split
  · next hf =>
      constructor
      · exact Or.inl
      · rintro (hg | rfl)
        · exact hg
        · exact hf
  · rw [List.mem_append, List.mem_singleton]

theorem nodup_keys_insert (h : (entries.map Prod.fst).Nodup) :
    ((insert f e entries).map Prod.fst).Nodup := by
  rw [keys_insert]
  split
  · exact h
  · next hf =>
      refine List.nodup_append.mpr ⟨h, List.nodup_singleton f, fun g hg g' hg' => ?_⟩
      rw [List.mem_singleton.mp hg']
      exact ne_of_mem_of_not_mem hg hf

end Insert

/-- What comes of resolving a fingerprint with the given entry. -/
def resolution (f : Fingerprint) :
    Option (Except SchemaFault CachedSchema) → Except Error CachedSchema
  | some (.ok cached) => .ok cached
  | some (.error fault) => .error (.schema (.unusable f fault))
  | none => .error (.schemaNotFound f)

theorem resolve_eq_resolution (c : SchemaCache) (f : Fingerprint) :
    c.resolve f = resolution f (c.find? f) := by
  unfold resolve resolution
  cases c.find? f with
  | none => rfl
  | some entry => cases entry <;> rfl

theorem ofDocuments_append (documents : List (Fingerprint × String))
    (p : Fingerprint × String) : ofDocuments (documents ++ [p]) =
      ⟨insert p.1 (CachedSchema.parse p.1 p.2) (ofDocuments documents).entries⟩ := by
  simp [ofDocuments]

/-- The last document of a fingerprint counts. -/
theorem find?_ofDocuments (documents : List (Fingerprint × String)) (f : Fingerprint) :
    (ofDocuments documents).find? f =
      (documents.reverse.lookup f).map (CachedSchema.parse f) := by
  induction documents using List.reverseRecOn with
  | nil => rfl
  | append_singleton documents p ih =>
      rw [ofDocuments_append, List.reverse_append, List.reverse_singleton, List.singleton_append,
        List.lookup_cons]
      by_cases hf : f = p.1
      · rw [hf, beq_self_eq_true]
        exact lookup_insert_self
      · rw [beq_false_of_ne hf]
        exact (lookup_insert_ne hf).trans ih

theorem fingerprints_ofDocuments (documents : List (Fingerprint × String)) :
    (ofDocuments documents).fingerprints.Nodup ∧
      ∀ f, f ∈ (ofDocuments documents).fingerprints ↔ f ∈ documents.map Prod.fst := by
  induction documents using List.reverseRecOn with
  | nil => exact ⟨List.nodup_nil, fun f => Iff.rfl⟩
  | append_singleton documents p ih =>
      rw [ofDocuments_append]
      refine ⟨nodup_keys_insert ih.1, fun f => ?_⟩
      have hkeys : f ∈ (insert p.1 (CachedSchema.parse p.1 p.2)
          (ofDocuments documents).entries).map Prod.fst ↔
          f ∈ (ofDocuments documents).entries.map Prod.fst ∨ f = p.1 := mem_keys_insert
      rw [List.map_append, List.mem_append, List.map_singleton, List.mem_singleton, ← ih.2 f]
      exact hkeys

/-- The fingerprints that are delivered, and with them their number, do not depend on the order. -/
theorem fingerprints_perm {documents documents' : List (Fingerprint × String)}
    (h : documents.Perm documents') :
    (ofDocuments documents).fingerprints.Perm (ofDocuments documents').fingerprints := by
  obtain ⟨hnodup, hmem⟩ := fingerprints_ofDocuments documents
  obtain ⟨hnodup', hmem'⟩ := fingerprints_ofDocuments documents'
  refine (List.perm_ext_iff_of_nodup hnodup hnodup').mpr fun f => ?_
  rw [hmem, hmem']
  exact (h.map Prod.fst).mem_iff

theorem size_perm {documents documents' : List (Fingerprint × String)}
    (h : documents.Perm documents') :
    (ofDocuments documents).size = (ofDocuments documents').size := by
  have hlength := (fingerprints_perm h).length_eq
  simpa [fingerprints, size] using hlength

end ChangeCapture.Change.SchemaCache
