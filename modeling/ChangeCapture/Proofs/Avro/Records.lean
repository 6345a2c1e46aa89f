import ChangeCapture.Proofs.Avro.Definitions
import ChangeCapture.Proofs.Avro.Extension

/-!
# Records that are read

The fields of a record that was read are those of its type, each read as a value of its own type.
-/

namespace ChangeCapture.Avro

namespace Reader

variable {read : Schema → Reader Value}

theorem fields?_names {fields : List (Field Schema)} {bytes rest : List UInt8}
    {vs : List (String × Value)} (h : fields? read fields bytes = some (vs, rest)) :
    vs.map Prod.fst = fields.map Field.name := by
  induction fields generalizing bytes vs with
  | nil =>
      obtain ⟨rfl, -⟩ : [] = vs ∧ bytes = rest := by simpa [fields?] using h
      rfl
  | cons f fields ih =>
      obtain ⟨v, mid, vs', -, hvs', rfl⟩ := fields?_cons_eq_some.mp h
      rw [List.map_cons, List.map_cons, ih hvs']

theorem fields?_of_mem {fields : List (Field Schema)} {bytes rest : List UInt8}
    {vs : List (String × Value)} (h : fields? read fields bytes = some (vs, rest))
    {name : String} {v : Value} (hv : (name, v) ∈ vs) :
    ∃ f ∈ fields, f.name = name ∧ ∃ bytes' rest', read f.type bytes' = some (v, rest') := by
  induction fields generalizing bytes vs with
  | nil =>
      obtain ⟨rfl, -⟩ : [] = vs ∧ bytes = rest := by simpa [fields?] using h
      simp at hv
  | cons f fields ih =>
      obtain ⟨w, mid, vs', hw, hvs', rfl⟩ := fields?_cons_eq_some.mp h
      rcases List.mem_cons.mp hv with heq | hlater
      · obtain ⟨rfl, rfl⟩ : name = f.name ∧ v = w := by simpa using heq
        exact ⟨f, by simp, rfl, bytes, mid, hw⟩
      · obtain ⟨g, hg, hname, hread⟩ := ih hvs' hlater
        exact ⟨g, List.mem_cons_of_mem _ hg, hname, hread⟩

theorem getElem?_of_branch? {branches : List Schema} {bytes rest : List UInt8} {b : Nat × Schema}
    (h : branch? branches bytes = some (b, rest)) : branches[b.1]? = some b.2 := by
  obtain ⟨n, mid, -, hgiven⟩ := andThen_eq_some.mp h
  obtain ⟨hb, -⟩ := given_eq_some.mp hgiven
  split at hb
  · simp at hb
  · obtain ⟨s, hs, rfl⟩ := Option.map_eq_some_iff.mp hb
    exact hs

theorem kind_of_as {α : Type} {f : α → Value} {kind : Kind} {r : Reader α}
    {bytes rest : List UInt8} {v : Value} (h : r.as f bytes = some (v, rest))
    (hf : ∀ x, (f x).kind = kind) : v.kind = kind := by
  obtain ⟨x, -, rfl⟩ := as_eq_some.mp h
  exact hf x

theorem kind_of_boolean? {bytes rest : List UInt8} {v : Value}
    (h : boolean? bytes = some (v, rest)) : v = .null ∨ v.kind = .boolean := by
  unfold boolean? at h
  split at h
  · obtain ⟨rfl, -⟩ := Prod.mk.inj (Option.some.inj h)
    exact Or.inl rfl
  · split at h
    · obtain ⟨rfl, -⟩ := Prod.mk.inj (Option.some.inj h)
      exact Or.inr rfl
    · split at h
      · obtain ⟨rfl, -⟩ := Prod.mk.inj (Option.some.inj h)
        exact Or.inr rfl
      · simp at h

theorem kind_of_string? {bytes rest : List UInt8} {v : Value}
    (h : string? bytes = some (v, rest)) : v = .null ∨ v.kind = .string := by
  rcases string?_eq_some h with ⟨s, rfl, -⟩ | ⟨rfl, -⟩
  · exact Or.inr rfl
  · exact Or.inl rfl

theorem kind_of_enumeration? {symbols : List String} {bytes rest : List UInt8} {v : Value}
    (h : enumeration? symbols bytes = some (v, rest)) : v.kind = .enumeration := by
  rw [enumeration?_eq] at h
  obtain ⟨n, mid, -, hgiven⟩ := andThen_eq_some.mp h
  obtain ⟨hv, -⟩ := given_eq_some.mp hgiven
  split at hv
  · simp at hv
  · obtain ⟨s, -, rfl⟩ := Option.map_eq_some_iff.mp hv
    rfl

end Reader

namespace Schema

open Reader

variable {defs : Definitions} {space : Option String}

theorem read?_union {fuel : Nat} {branches : List Schema} {bytes rest : List UInt8} {v : Value}
    (h : read? defs fuel space (.union branches) bytes = some (v, rest)) :
    v = .union 0 .null ∨ ∃ i s bytes' w, branches[i]? = some s ∧
      read? defs (fuel - 1) space s bytes' = some (w, rest) ∧ v = .union i w := by
  cases fuel with
  | zero => exact nomatch h
  | succ fuel =>
      by_cases hcut : Varint.readLong bytes = .error .truncated
      · rw [read?, union?_of_truncated hcut] at h
        exact Or.inl (Prod.mk.inj (Option.some.inj h)).1.symm
      · rw [read?, union?_eq_wholeUnion? hcut] at h
        obtain ⟨b, mid, w, hbranch, hw, rfl⟩ := wholeUnion?_eq_some.mp h
        exact Or.inr ⟨b.1, b.2, mid, w, getElem?_of_branch? hbranch, hw, rfl⟩

/-- A value has the kind of its type, unless the type only refers to another or the value is cut
off. -/
theorem kind_of_read? {fuel : Nat} {s : Schema} {bytes rest : List UInt8} {v : Value}
    (h : read? defs fuel space s bytes = some (v, rest)) :
    v = .null ∨ v.kind = s.kind ∨ ∃ name, s = .ref name := by
  cases fuel with
  | zero => exact nomatch h
  | succ fuel =>
      cases s with
      | null =>
          obtain rfl := (Prod.mk.inj (Option.some.inj h)).1
          exact Or.inl rfl
      | boolean => exact (kind_of_boolean? h).imp_right Or.inl
      | string => exact (kind_of_string? h).imp_right Or.inl
      | union branches =>
          rcases read?_union h with rfl | ⟨i, b, bytes', w, -, -, rfl⟩
          · exact Or.inr (Or.inl rfl)
          · exact Or.inr (Or.inl rfl)
      | enumeration name symbols default => exact Or.inr (Or.inl (kind_of_enumeration? h))
      | decimal inner precision scale =>
          simp only [read?] at h
          split at h
          · obtain ⟨rfl, -⟩ := Prod.mk.inj (Option.some.inj h)
            exact Or.inr (Or.inl rfl)
          · obtain ⟨rfl, -⟩ := Prod.mk.inj (Option.some.inj h)
            exact Or.inr (Or.inl rfl)
          · simp at h
      | ref name => exact Or.inr (Or.inr ⟨name, rfl⟩)
      | _ =>
          rw [read?] at h
          exact Or.inr (Or.inl (kind_of_as h fun _ => rfl))

theorem unwrap_of_read?_null {fuel : Nat} {bytes rest : List UInt8} {v : Value}
    (h : read? defs fuel space .null bytes = some (v, rest)) : v.unwrap = .null := by
  cases fuel with
  | zero => exact nomatch h
  | succ fuel =>
      obtain rfl := (Prod.mk.inj (Option.some.inj h)).1
      rfl

theorem unwrap_of_read? {fuel : Nat} {s : Schema} {bytes rest : List UInt8} {v : Value}
    (h : read? defs fuel space s bytes = some (v, rest)) :
    v.unwrap = .null ∨ ∃ fuel' bytes' w,
      read? defs fuel' space s.nonNull bytes' = some (w, rest) ∧ v.unwrap = w.unwrap := by
  generalize ht : s.nonNull = t
  have hbranches : s = t ∨ ∃ branches, s = .union branches ∧ ∀ b ∈ branches, b = .null ∨ b = t := by
    rcases eq_or_union_of_nonNull ht with rfl | rfl | rfl
    · exact Or.inl rfl
    · exact Or.inr ⟨_, rfl, by simp⟩
    · exact Or.inr ⟨_, rfl, by simp⟩
  rcases hbranches with rfl | ⟨branches, rfl, hbranches⟩
  · exact Or.inr ⟨fuel, bytes, v, h, rfl⟩
  · rcases read?_union h with rfl | ⟨i, b, bytes', w, hb, hw, rfl⟩
    · exact Or.inl rfl
    · rcases hbranches b (List.mem_of_getElem? hb) with rfl | rfl
      · have hnull := unwrap_of_read?_null hw
        exact Or.inl hnull
      · exact Or.inr ⟨_, bytes', w, hw, rfl⟩

theorem read?_record {fuel : Nat} {name : Name} {fields : List (Field Schema)}
    {bytes rest : List UInt8} {v : Value}
    (h : read? defs fuel space (.record name fields) bytes = some (v, rest)) :
    ∃ vs, fields? (read? defs (fuel - 1) (name.within space).space) fields bytes = some (vs, rest) ∧
      .record vs = v := by
  cases fuel with
  | zero => exact nomatch h
  | succ fuel => exact as_eq_some.mp h

theorem read?_ref {fuel : Nat} {name : Name} {s : Schema} {bytes rest : List UInt8} {v : Value}
    (hs : defs.lookup (name.within space) = some s)
    (h : read? defs fuel space (.ref name) bytes = some (v, rest)) :
    read? defs (fuel - 1) (name.within space).space s bytes = some (v, rest) := by
  cases fuel with
  | zero => exact nomatch h
  | succ fuel => simpa [read?, hs] using h

/-- A row image that is there was read column by column. -/
theorem fields?_of_read?_record {fuel : Nat} {s : Schema} {name : Name}
    {columns : List (Field Schema)} {bytes rest : List UInt8} {v : Value}
    (hs : s.nonNull = .record name columns ∨ ∃ other, s.nonNull = .ref other ∧
      defs.lookup (other.within space) = some (.record name columns))
    (h : read? defs fuel space s bytes = some (v, rest)) :
    v.unwrap = .null ∨ ∃ vs fuel' space' bytes', v.unwrap = .record vs ∧
      fields? (read? defs fuel' space') columns bytes' = some (vs, rest) := by
  rcases unwrap_of_read? h with hnull | ⟨fuel', bytes', w, hw, hvw⟩
  · exact Or.inl hnull
  · obtain ⟨fuel'', space', hrecord⟩ : ∃ fuel'' space',
        read? defs fuel'' space' (.record name columns) bytes' = some (w, rest) := by
      rcases hs with hs | ⟨other, hs, hlookup⟩
      · exact ⟨fuel', space, hs ▸ hw⟩
      · rw [hs] at hw
        exact ⟨_, _, read?_ref hlookup hw⟩
    obtain ⟨vs, hvs, rfl⟩ := read?_record hrecord
    exact Or.inr ⟨vs, _, _, bytes', hvw, hvs⟩

/-- What a field holds is null or a record that was read column by column. -/
theorem fields?_of_fields? {fuel : Nat} {fields columns : List (Field Schema)}
    (hdistinct : ∀ f ∈ fields, ∀ g ∈ fields, f.name = g.name → f = g) {bytes rest : List UInt8}
    {vs : List (String × Value)}
    (h : fields? (read? defs fuel space) fields bytes = some (vs, rest)) {f : Field Schema}
    (hf : f ∈ fields) {name : Name}
    (htype : f.type.nonNull = .record name columns ∨ ∃ other, f.type.nonNull = .ref other ∧
      defs.lookup (other.within space) = some (.record name columns))
    {v : Value} (hv : (f.name, v) ∈ vs) :
    v.unwrap = .null ∨ ∃ ws fuel' space' bytes' rest', v.unwrap = .record ws ∧
      fields? (read? defs fuel' space') columns bytes' = some (ws, rest') := by
  obtain ⟨g, hg, hname, bytes', rest', hread⟩ := fields?_of_mem h hv
  obtain rfl := hdistinct g hg f hf hname
  rcases fields?_of_read?_record htype hread with hnull | ⟨ws, fuel', space', bytes'', hws, hread⟩
  · exact Or.inl hnull
  · exact Or.inr ⟨ws, fuel', space', bytes'', rest', hws, hread⟩

end Schema

end ChangeCapture.Avro
