import ChangeCapture.Proofs.Change.Isolation
import ChangeCapture.Proofs.Change.StateRecords
import ChangeCapture.Proofs.Text.Integers

/-!
# Keys of a state record

A key is a fingerprint if it writes an integer of 64 bits, blanks around it aside. A record with the
texts of distinct fingerprints for keys gives the cache of its documents, usable or not. One key
that is no fingerprint spoils the whole record.
-/

namespace ChangeCapture.Change

namespace Fingerprint

variable {f : Fingerprint} {s : String}

/-- A text that writes an integer of 64 bits, with or without blanks around it. -/
def IsText (s : String) : Prop := ∃ core, Text.IsPadded core s.toList ∧ Text.IsInt64 core

/-- The text of a fingerprint, with or without blanks around it. -/
def IsPadded (f : Fingerprint) (s : String) : Prop := Text.IsPadded f.toText.toList s.toList

theorem ofText_eq_ok_iff :
    ofText s = .ok f ↔ Text.WritesInteger (Text.trim s.toList) f.value.toInt := by
  rw [← Text.readInt64_eq_ok_iff, ofText]
  cases Text.readInt64 (Text.trim s.toList) with
  | error fault => simp [Except.map]
  | ok w =>
      obtain ⟨value⟩ := f
      simp [Except.map]

theorem ofText_isOk_iff : (∃ f, ofText s = .ok f) ↔ IsText s := by
  constructor
  · rintro ⟨f, hf⟩
    have hread := Text.readInt64_eq_ok_iff.mpr (ofText_eq_ok_iff.mp hf)
    exact ⟨_, Text.isPadded_trim s.toList, Text.readInt64_isOk_iff.mp ⟨_, hread⟩⟩
  · rintro ⟨core, hpadded, hcore⟩
    obtain ⟨w, hw⟩ := Text.readInt64_isOk_iff.mpr hcore
    have hwrites := Text.readInt64_eq_ok_iff.mp hw
    refine ⟨⟨w⟩, ofText_eq_ok_iff.mpr ?_⟩
    rwa [hwrites.trim_eq hpadded]

/-- Every fingerprint is read back from its text. -/
theorem IsPadded.ofText_eq (h : f.IsPadded s) : ofText s = .ok f := by
  have hwrites := Text.writesInteger_writeInt f.value.toInt
  rw [IsPadded, toText, String.toList_ofList] at h
  rw [ofText_eq_ok_iff, hwrites.trim_eq h]
  exact hwrites

end Fingerprint

namespace StateRecord

/-- The given documents in some order, each under its fingerprint. -/
def Delivers (data : List (String × String)) (documents : List (Fingerprint × String)) : Prop :=
  ∃ entries, data.Perm entries ∧
    List.Forall₂ (fun entry p => p.1.IsPadded entry.1 ∧ entry.2 = p.2) entries documents

theorem pair?_isSome_iff {entry : String × String} :
    (pair? entry).isSome ↔ Fingerprint.IsText entry.1 := by
  rw [← Fingerprint.ofText_isOk_iff, pair?]
  cases Fingerprint.ofText entry.1 <;> simp [Except.toOption]

theorem pair?_of_isPadded {entry : String × String} {p : Fingerprint × String}
    (hkey : p.1.IsPadded entry.1) (hdocument : entry.2 = p.2) : pair? entry = some p := by
  rw [pair?, hkey.ofText_eq, hdocument]
  rfl

theorem filterMap_pair?_of_forall₂ {entries : List (String × String)}
    {documents : List (Fingerprint × String)}
    (h : List.Forall₂ (fun entry p => p.1.IsPadded entry.1 ∧ entry.2 = p.2) entries documents) :
    (∀ entry ∈ entries, (pair? entry).isSome) ∧ entries.filterMap pair? = documents := by
  induction h with
  | nil => exact ⟨List.forall_mem_nil _, rfl⟩
  | cons hentry _ ih =>
      obtain ⟨hsome, hdocuments⟩ := ih
      have hpair := pair?_of_isPadded hentry.1 hentry.2
      rw [List.forall_mem_cons, List.filterMap_cons_some hpair, hdocuments, hpair]
      exact ⟨⟨rfl, hsome⟩, rfl⟩

theorem Delivers.filterMap_pair? {data : List (String × String)}
    {documents : List (Fingerprint × String)} (h : Delivers data documents) :
    (∀ entry ∈ data, (pair? entry).isSome) ∧ (data.filterMap pair?).Perm documents := by
  obtain ⟨entries, hperm, hentries⟩ := h
  obtain ⟨hsome, rfl⟩ := filterMap_pair?_of_forall₂ hentries
  exact ⟨fun entry hentry => hsome entry (hperm.mem_iff.mp hentry), hperm.filterMap pair?⟩

/-- An error of the settings that names the first key which is no fingerprint. -/
def Blames (data : List (String × String)) (e : Error) : Prop :=
  ∃ earlier key document later fault, data = earlier ++ (key, document) :: later ∧
    (∀ entry ∈ earlier, Fingerprint.IsText entry.1) ∧ ¬Fingerprint.IsText key ∧
    e = .settings (.fingerprint key fault)

theorem blames_of_documents {data : List (String × String)} {e : Error}
    (h : documents data = .error e) : Blames data e := by
  induction data with
  | nil => simp [documents] at h
  | cons entry data ih =>
      obtain ⟨key, document⟩ := entry
      rw [documents] at h
      cases hkey : Fingerprint.ofText key with
      | error fault =>
          obtain rfl : .settings (.fingerprint key fault) = e := by simpa [hkey] using h
          refine ⟨[], key, document, data, fault, rfl, List.forall_mem_nil _, ?_, rfl⟩
          rw [← Fingerprint.ofText_isOk_iff, hkey]
          simp
      | ok f =>
          cases hdata : documents data with
          | ok pairs => simp [hkey, hdata] at h
          | error e' =>
              obtain rfl : e' = e := by simpa [hkey, hdata] using h
              obtain ⟨earlier, key', document', later, fault, rfl, hearlier, hkey', he⟩ := ih hdata
              refine ⟨(key, document) :: earlier, key', document', later, fault, rfl, ?_, hkey', he⟩
              exact List.forall_mem_cons.mpr ⟨Fingerprint.ofText_isOk_iff.mp ⟨f, hkey⟩, hearlier⟩

end StateRecord

namespace SchemaCache

/-- Caches that no question tells apart. -/
structure Agrees (c c' : SchemaCache) : Prop where
  resolve : ∀ f, c.resolve f = c'.resolve f
  contains : ∀ f, c.contains f = c'.contains f
  size_eq : c.size = c'.size
  fingerprints : c.fingerprints.Perm c'.fingerprints

section Distinct

variable {documents documents' : List (Fingerprint × String)}

theorem find?_of_mem (hdistinct : (documents.map Prod.fst).Nodup) {f : Fingerprint}
    {document : String} (h : (f, document) ∈ documents) :
    (ofDocuments documents).find? f = some (CachedSchema.parse f document) := by
  obtain ⟨earlier, later, rfl⟩ := List.append_of_mem h
  rw [List.map_append, List.map_cons] at hdistinct
  have hlater := (List.nodup_cons.mp hdistinct.of_append_right).1
  exact find?_of_last rfl hlater

/-- Documents of distinct fingerprints may come in any order. -/
theorem agrees_of_perm (hdistinct : (documents.map Prod.fst).Nodup)
    (hperm : documents.Perm documents') :
    (ofDocuments documents).Agrees (ofDocuments documents') := by
  have hdistinct' : (documents'.map Prod.fst).Nodup := (hperm.map Prod.fst).nodup hdistinct
  have hfind : ∀ f, (ofDocuments documents).find? f = (ofDocuments documents').find? f := by
    intro f
    by_cases hf : f ∈ documents.map Prod.fst
    · obtain ⟨⟨f, document⟩, hmem, rfl⟩ := List.mem_map.mp hf
      rw [find?_of_mem hdistinct hmem, find?_of_mem hdistinct' (hperm.mem_iff.mp hmem)]
    · have hf' : f ∉ documents'.map Prod.fst := fun h => hf ((hperm.map Prod.fst).mem_iff.mpr h)
      rw [find?_of_notMem hf, find?_of_notMem hf']
  constructor
  · intro f
    rw [resolve_eq_resolution, resolve_eq_resolution, hfind]
  · intro f
    rw [contains, contains, hfind]
  · exact size_perm hperm
  · exact fingerprints_perm hperm

end Distinct

theorem blames_of_ofState {data : List (String × String)} {e : Error}
    (h : ofState data = .error e) : StateRecord.Blames data e := by
  apply StateRecord.blames_of_documents
  rw [ofState] at h
  cases hdocuments : StateRecord.documents data with
  | error e' => simpa [hdocuments, Except.map] using h
  | ok pairs => simp [hdocuments, Except.map] at h

/-- A state record with documents of distinct fingerprints gives the cache of these documents. A
state record is rejected exactly if one of its keys is no fingerprint, and the settings are to blame
for it. -/
theorem ofState_delivers (data : List (String × String)) :
    (∀ documents, (documents.map Prod.fst).Nodup → StateRecord.Delivers data documents →
      ∃ c, ofState data = .ok c ∧ c.Agrees (ofDocuments documents)) ∧
    ((∃ e, ofState data = .error e) ↔ ∃ entry ∈ data, ¬Fingerprint.IsText entry.1) ∧
    ∀ e, ofState data = .error e → StateRecord.Blames data e := by
  refine ⟨?_, ⟨?_, ?_⟩, fun e => blames_of_ofState⟩
  · intro documents hdistinct hdelivers
    obtain ⟨hkeys, hperm⟩ := hdelivers.filterMap_pair?
    refine ⟨_, ofState_of_filterMap hkeys, ?_⟩
    exact agrees_of_perm ((hperm.map Prod.fst).nodup_iff.mpr hdistinct) hperm
  · rintro ⟨e, he⟩
    obtain ⟨earlier, key, document, later, fault, rfl, -, hkey, -⟩ := blames_of_ofState he
    exact ⟨(key, document), List.mem_append_right _ List.mem_cons_self, hkey⟩
  · rintro ⟨entry, hentry, hkey⟩
    apply ofState_eq_error
    intro hkeys
    exact hkey (StateRecord.pair?_isSome_iff.mp (hkeys entry hentry))

/-- The least fingerprint with a text that is no document, and another one with the document of a
table. -/
def leastDocuments : List (Fingerprint × String) :=
  [(⟨Int64.minValue⟩, ""), (⟨0⟩, noteTable.compress)]

/-- The state record of these documents, with blanks around its keys. -/
def leastState : List (String × String) :=
  [("\t0\u3000", noteTable.compress), ("\u2003-9223372036854775808\n", "")]

theorem delivers_leastState : StateRecord.Delivers leastState leastDocuments := by
  refine ⟨leastState.reverse, (List.reverse_perm _).symm, ?_⟩
  have hleast : Fingerprint.IsPadded ⟨Int64.minValue⟩ "\u2003-9223372036854775808\n" := by
    refine ⟨['\u2003'], ['\n'], ?_, ?_, by decide +kernel⟩
    · exact List.forall_mem_singleton.mpr rfl
    · exact List.forall_mem_singleton.mpr rfl
  have hzero : Fingerprint.IsPadded ⟨0⟩ "\t0\u3000" := by
    refine ⟨['\t'], ['\u3000'], ?_, ?_, by decide +kernel⟩
    · exact List.forall_mem_singleton.mpr rfl
    · exact List.forall_mem_singleton.mpr rfl
  exact .cons ⟨hleast, rfl⟩ (.cons ⟨hzero, rfl⟩ .nil)

theorem ofState_delivers_leastState :
    (∃ c s, ofState leastState = .ok c ∧ c.size = 2 ∧ c.resolve ⟨0⟩ = .ok s ∧
      s.document = noteTable.compress ∧ c.contains ⟨Int64.minValue⟩ = false) ∧
    ∃ e, ofState (("+", "") :: leastState) = .error e := by
  constructor
  · have hdistinct : (leastDocuments.map Prod.fst).Nodup := by decide
    obtain ⟨c, hc, hagrees⟩ :=
      (ofState_delivers leastState).1 leastDocuments hdistinct delivers_leastState
    obtain ⟨s, hs⟩ := exists_parse_noteTable
    obtain ⟨-, -, -, -, -, hdocument⟩ := CachedSchema.parse_eq_ok_iff.mp hs
    have hfault : CachedSchema.parse ⟨Int64.minValue⟩ "" = .error (.notAvro ⟨Int64.minValue⟩) := by
      have havro : Avro.Schema.parse? "" = none := by decide +kernel
      rw [CachedSchema.parse, havro]
    refine ⟨c, s, hc, ?_, ?_, hdocument, ?_⟩
    · rw [hagrees.size_eq, (holds_ofDocuments leastDocuments).size_eq]
      decide
    · have hmem : (⟨0⟩, noteTable.compress) ∈ leastDocuments := by simp [leastDocuments]
      rw [hagrees.resolve, resolve_eq_resolution, find?_of_mem hdistinct hmem, hs]
      rfl
    · have hmem : (⟨Int64.minValue⟩, "") ∈ leastDocuments := by simp [leastDocuments]
      rw [hagrees.contains, contains, find?_of_mem hdistinct hmem, hfault]
  · refine (ofState_delivers _).2.1.mpr ⟨("+", ""), List.mem_cons_self, ?_⟩
    have hnone : (Fingerprint.ofText "+").toOption = none := by decide +kernel
    rw [← Fingerprint.ofText_isOk_iff]
    rintro ⟨f, hf⟩
    simp [hf, Except.toOption] at hnone

end SchemaCache

end ChangeCapture.Change
