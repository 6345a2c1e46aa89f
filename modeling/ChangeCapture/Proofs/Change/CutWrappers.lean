import ChangeCapture.Proofs.Change.FailureOrder

/-!
# Wrappers that are cut off

A wrapper whose last bytes are missing is never read, wherever it is cut. Inside the table's name
the text is read as null, but then nothing is left for the fingerprint.
-/

namespace ChangeCapture.Change

open Avro (Schema)
open Avro.Reader

theorem Envelope.field?_of_classify {r : InboundRecord} {field : String} {bytes : List UInt8}
    (h : Envelope.classify r field = .ok (.row bytes)) : r.field? field = some bytes := by
  unfold Envelope.classify at h
  split at h
  · exact nomatch h
  · next payload hpayload =>
      split at h
      · exact nomatch h
      · split at h
        · exact nomatch h
        · obtain rfl := Envelope.row.inj (Except.ok.inj h)
          exact hpayload

namespace Wrapper

/-- The lengths of a wrapper's text and bytes fit 64 bits with a sign, as those of anything that is
held in memory do. -/
structure IsHeld (w : Wrapper) : Prop where
  name_lt : (Text.Utf8.encode w.tableName.toList).length < 0x8000000000000000
  payload_lt : w.payload.length < 0x8000000000000000

variable {data x rest rest' : List UInt8}

/-- Bytes that are longer than anything that is read are refused. All others are read back. -/
theorem eq_of_blob?_encodeBlob (hdata : data.length < 0x8000000000000000)
    (h : blob? (encodeBlob data ++ rest) = some (x, rest')) : x = data ∧ rest' = rest := by
  have hvalue : (Int64.ofNat data.length).toInt = data.length :=
    Int64.toInt_ofNat_of_lt (by omega)
  by_cases hlimit : (data.length : Int) ≤ lengthLimit
  · rw [blob?_encodeBlob hlimit] at h
    obtain ⟨rfl, rfl⟩ := Prod.mk.inj (Option.some.inj h)
    exact ⟨rfl, rfl⟩
  · have hrefused : ¬ (0 ≤ (Int64.ofNat data.length).toInt ∧
        (Int64.ofNat data.length).toInt ≤ lengthLimit) := by
      rw [hvalue]
      exact fun hrange => hlimit hrange.2
    rw [blob?, length?, encodeBlob, List.append_assoc, long?_writeLong] at h
    dsimp only at h
    rw [if_neg hrefused] at h
    cases h

theorem eq_of_text?_encodeBlob {s s' : String}
    (hs : (Text.Utf8.encode s.toList).length < 0x8000000000000000)
    (h : text? (encodeBlob (Text.Utf8.encode s.toList) ++ rest) = some (s', rest')) :
    rest' = rest := by
  obtain ⟨data, mid, hblob, hgiven⟩ := andThen_eq_some.mp h
  obtain ⟨-, rfl⟩ := given_eq_some.mp hgiven
  exact (eq_of_blob?_encodeBlob hs hblob).2

/-- The fields of a wrapper, each of them there in full. -/
theorem fields_of_read? {defs : Avro.Definitions} {fuel : Nat} {p : List UInt8} {v : Avro.Value}
    (h : schema.read? defs fuel none p = some (v, rest)) :
    ∃ name afterName fingerprint afterFingerprint payload,
      text? p = some (name, afterName) ∧ long? afterName = some (fingerprint, afterFingerprint) ∧
        blob? afterFingerprint = some (payload, rest) := by
  obtain ⟨values, hvalues, -⟩ := Schema.read?_record h
  obtain ⟨name, afterName, values, hname, hvalues, -⟩ := fields?_cons_eq_some.mp hvalues
  obtain ⟨fingerprint, afterFingerprint, values, hfingerprint, hvalues, -⟩ :=
    fields?_cons_eq_some.mp hvalues
  obtain ⟨payload, afterPayload, values, hpayload, hvalues, -⟩ :=
    fields?_cons_eq_some.mp hvalues
  obtain ⟨-, rfl⟩ : [] = values ∧ afterPayload = rest := by simpa [fields?] using hvalues
  cases hfuel : fuel - 1 with
  | zero =>
      rw [hfuel] at hname
      cases hname
  | succ fuel =>
      rw [hfuel] at hname hfingerprint hpayload
      obtain ⟨n, hlong, rfl⟩ := as_eq_some.mp hfingerprint
      obtain ⟨data, hblob, rfl⟩ := as_eq_some.mp hpayload
      -- A name that is cut short leaves no byte for the fingerprint.
      rcases string?_eq_some hname with ⟨s, -, htext⟩ | ⟨-, rfl⟩
      · exact ⟨s, afterName, n, afterFingerprint, data, htext, hlong, hblob⟩
      · cases hlong

/-- What is read from the front of an encoding takes all of it. -/
theorem eq_nil_of_read? {w : Wrapper} (hw : w.IsHeld) {defs : Avro.Definitions} {fuel : Nat}
    {p t : List UInt8} (hp : p ++ t = w.encode) {v : Avro.Value}
    (h : schema.read? defs fuel none p = some (v, rest)) : t = [] := by
  obtain ⟨name, afterName, n, afterFingerprint, payload, hname, hlong, hblob⟩ := fields_of_read? h
  rw [encode, List.append_assoc] at hp
  have hname' := extends_text? hname t
  rw [hp] at hname'
  have hafterName := eq_of_text?_encodeBlob hw.name_lt hname'
  have hlong' := extends_long? hlong t
  rw [hafterName, long?_writeLong] at hlong'
  obtain ⟨-, hafterFingerprint⟩ := Prod.mk.inj (Option.some.inj hlong')
  have hblob' := extends_blob? hblob t
  rw [← hafterFingerprint, ← List.append_nil (encodeBlob w.payload)] at hblob'
  obtain ⟨-, hnothing⟩ := eq_of_blob?_encodeBlob hw.payload_lt hblob'
  exact (List.append_eq_nil_iff.mp hnothing).2

theorem decode_eq_notAvro {w : Wrapper} (hw : w.IsHeld) {p : List UInt8} (hp : p <+: w.encode)
    (hcut : p ≠ w.encode) : decode p = .error .notAvro := by
  obtain ⟨t, ht⟩ := hp
  have hunread : schema.decode? p = none := by
    cases hread : schema.decode? p with
    | none => rfl
    | some v =>
        obtain ⟨defs, -, hread⟩ : ∃ defs, schema.definitions? = some defs ∧
            (schema.read? defs ((p.length + 1) * (schema.size + 1) + 1) none p).map Prod.fst =
              some v := ⟨_, rfl, hread⟩
        obtain ⟨⟨v, rest⟩, hread, -⟩ := Option.map_eq_some_iff.mp hread
        obtain rfl := eq_nil_of_read? hw ht hread
        exact absurd ((List.append_nil p).symm.trans ht) hcut
  rw [decode, hunread]

/-- A wrapper that is cut off is no data of its kind, and no change comes of it. -/
theorem rejects_cut {w : Wrapper} (hw : w.IsHeld) {p : List UInt8} (hp : p <+: w.encode)
    (hcut : p ≠ w.encode) :
    decode p = .error .notAvro ∧ ∀ (n : Normalizer) (r : InboundRecord),
      (n.HoldsData r p → (n.process r).1 = .error (.data .notAvro)) ∧
      (r.field? n.settings.effectiveField = some p →
        ∀ record, (n.process r).1 ≠ .ok (some (.dml record))) := by
  have hdecode := decode_eq_notAvro hw hp hcut
  refine ⟨hdecode, fun n r => ⟨fun hr => ?_, fun hfield record hrecord => ?_⟩⟩
  · exact (Normalizer.Fails.wrapper hr hdecode).process_fst
  · -- A record that a change comes of holds data, whose bytes are the ones of the field.
    rw [Normalizer.process_fst] at hrecord
    obtain ⟨bytes, d, hbytes, hd, -⟩ := Normalizer.exists_decoded_of_recordOf hrecord
    obtain ⟨wrapper, hwrapper, -, -⟩ := DecodedChange.exists_wrapper_of_decode hd
    have hpayload := Envelope.field?_of_classify hbytes
    obtain rfl : p = bytes := Option.some.inj (hfield.symm.trans hpayload)
    rw [hdecode] at hwrapper
    exact nomatch hwrapper

/-- The encoding of a wrapper up to the middle of its table's name. -/
def halfOffice : List UInt8 := [10, 0x48, 0x52]

theorem rejects_cut_halfOffice :
    officeWrapper.IsHeld ∧ halfOffice <+: officeWrapper.encode ∧
      halfOffice ≠ officeWrapper.encode ∧ string? halfOffice = some (.null, []) ∧
      decode halfOffice = .error .notAvro ∧
      ((Normalizer.new .default .empty).process ⟨none, [("message", halfOffice)]⟩).1 =
        .error (.data .notAvro) := by
  have hheld : officeWrapper.IsHeld := ⟨by decide +kernel, by decide +kernel⟩
  have hfront : halfOffice <+: officeWrapper.encode := by decide +kernel
  have hcut : halfOffice ≠ officeWrapper.encode := by decide +kernel
  obtain ⟨hdecode, hprocess⟩ := rejects_cut hheld hfront hcut
  have hdata := Normalizer.holdsData_message .empty halfOffice
  exact ⟨hheld, hfront, hcut, rfl, hdecode, (hprocess _ _).1 hdata⟩

end Wrapper

end ChangeCapture.Change
