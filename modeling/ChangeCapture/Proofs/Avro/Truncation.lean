import ChangeCapture.Proofs.Avro.Extension

/-!
# Input that ends early

A reader that is told to take nothing for granted at the end of its input, and what the lenient one
gives where that one fails: the same value with nulls in place of what was cut.
-/

namespace ChangeCapture.Avro

namespace Reader

variable {α β : Type}

/-- A boolean that is there. -/
def wholeBoolean? : Reader Value
  | [] => none
  | b :: rest => boolean? (b :: rest)

/-- The decimal held in bytes of either type. -/
def decimalOf? : Value → Option Value
  | .bytes data => some (.decimal ⟨data⟩)
  | .fixed _ data => some (.decimal ⟨data⟩)
  | _ => none

/-- Reads what `r'` reads, or else all of its input. -/
structure Lenient (r r' : Reader α) : Prop where
  whole_or_end : ∀ {bytes x rest}, r bytes = some (x, rest) →
    r' bytes = some (x, rest) ∨ rest = []
  at_end : ∀ {x rest}, r [] = some (x, rest) → rest = []

namespace Lenient

theorem given (x? : Option α) : Lenient (given x?) (given x?) where
  whole_or_end := Or.inl
  at_end h := (given_eq_some.mp h).2.symm

theorem andThen {r r' : Reader α} {next next' : α → Reader β} (h : Lenient r r')
    (hnext : ∀ x, Lenient (next x) (next' x)) :
    Lenient (r.andThen next) (r'.andThen next') where
  whole_or_end {bytes y rest} hread := by
    obtain ⟨x, mid, hx, hy⟩ := andThen_eq_some.mp hread
    rcases h.whole_or_end hx with hwhole | rfl
    · rcases (hnext x).whole_or_end hy with hwhole' | hend
      · exact Or.inl (andThen_eq_some.mpr ⟨x, mid, hwhole, hwhole'⟩)
      · exact Or.inr hend
    · exact Or.inr ((hnext x).at_end hy)
  at_end {y rest} hread := by
    obtain ⟨x, mid, hx, hy⟩ := andThen_eq_some.mp hread
    obtain rfl := h.at_end hx
    exact (hnext x).at_end hy

theorem as {r r' : Reader α} (h : Lenient r r') (f : α → β) : Lenient (r.as f) (r'.as f) := by
  rw [as_eq, as_eq]
  exact h.andThen fun x => given (some (f x))

theorem items? {r r' : Reader α} (h : Lenient r r') (n : Nat) :
    Lenient (items? r n) (items? r' n) := by
  induction n with
  | zero => exact given (some [])
  | succ n ih =>
      rw [items?_succ, items?_succ]
      exact h.andThen fun x => ih.andThen fun xs => given (some (x :: xs))

theorem fields? {read whole : Schema → Reader Value} (h : ∀ s, Lenient (read s) (whole s))
    (fields : List (Field Schema)) : Lenient (fields? read fields) (fields? whole fields) := by
  induction fields with
  | nil => exact given (some [])
  | cons f fields ih =>
      rw [fields?_cons, fields?_cons]
      exact (h f.type).andThen fun v => ih.andThen fun vs => given _

theorem boolean? : Lenient boolean? wholeBoolean? where
  whole_or_end {bytes v rest} h := by
    cases bytes with
    | nil => exact Or.inr (Prod.mk.inj (Option.some.inj h)).2.symm
    | cons b bytes => exact Or.inl h
  at_end h := (Prod.mk.inj (Option.some.inj h)).2.symm

theorem string? : Lenient string? (text?.as .string) where
  whole_or_end h := by
    rcases string?_eq_some h with ⟨s, rfl, htext⟩ | ⟨-, hend⟩
    · exact Or.inl (by simp [Reader.as, htext])
    · exact Or.inr hend
  at_end h := nomatch h

theorem branch? (branches : List Schema) : Lenient (branch? branches) (branch? branches) where
  whole_or_end := Or.inl
  at_end h := nomatch h

theorem wholeUnion? {read whole : Schema → Reader Value} (h : ∀ s, Lenient (read s) (whole s))
    (branches : List Schema) :
    Lenient (Reader.wholeUnion? read branches) (Reader.wholeUnion? whole branches) :=
  (branch? branches).andThen fun b => (h b.2).as (Value.union b.1)

theorem union? {read whole : Schema → Reader Value} (h : ∀ s, Lenient (read s) (whole s))
    (branches : List Schema) :
    Lenient (union? read branches) (Reader.wholeUnion? whole branches) where
  whole_or_end {bytes v rest} hread := by
    by_cases hcut : Varint.readLong bytes = .error .truncated
    · rw [union?_of_truncated hcut] at hread
      exact Or.inr (Prod.mk.inj (Option.some.inj hread)).2.symm
    · rw [union?_eq_wholeUnion? hcut] at hread
      exact (wholeUnion? h branches).whole_or_end hread
  at_end h := (Prod.mk.inj (Option.some.inj h)).2.symm

theorem text? : Lenient text? text? where
  whole_or_end := Or.inl
  at_end h := nomatch h

theorem member? {r r' : Reader Value} (h : Lenient r r') : Lenient (member? r) (member? r') := by
  rw [member?_eq, member?_eq]
  exact text?.andThen fun key => h.andThen fun v => given _

/-- After items that were cut no count of a next block is left, so that none of them was. -/
theorem blocks?_whole {r r' : Reader α} (h : Lenient r r') {fuel : Nat} {bytes rest : List UInt8}
    {xs : List α} (hread : blocks? r fuel bytes = some (xs, rest)) :
    blocks? r' fuel bytes = some (xs, rest) := by
  induction fuel generalizing bytes xs rest with
  | zero => simp [Reader.blocks?] at hread
  | succ fuel ih =>
      rw [blocks?_succ] at hread ⊢
      obtain ⟨n, mid, hcount, hblock⟩ := andThen_eq_some.mp hread
      refine andThen_eq_some.mpr ⟨n, mid, hcount, ?_⟩
      split at hblock
      · next hn => rwa [if_pos hn]
      · next hn =>
          rw [if_neg hn]
          obtain ⟨ys, mid', hitems, hlater⟩ := andThen_eq_some.mp hblock
          obtain ⟨zs, rest', hblocks, hgiven⟩ := andThen_eq_some.mp hlater
          rcases (h.items? n).whole_or_end hitems with hwhole | rfl
          · exact andThen_eq_some.mpr ⟨ys, mid', hwhole,
              andThen_eq_some.mpr ⟨zs, rest', ih hblocks, hgiven⟩⟩
          · simp [blocks?_nil] at hblocks

theorem sequence?_whole {r r' : Reader α} (h : Lenient r r') {bytes rest : List UInt8}
    {xs : List α} (hread : sequence? r bytes = some (xs, rest)) :
    sequence? r' bytes = some (xs, rest) :=
  h.blocks?_whole hread

theorem sequence? {r r' : Reader α} (h : Lenient r r') :
    Lenient (sequence? r) (sequence? r') where
  whole_or_end hread := Or.inl (h.sequence?_whole hread)
  at_end hread := nomatch hread

end Lenient

namespace Extends

theorem branch? (branches : List Schema) : Extends (branch? branches) (branch? branches) :=
  extends_long?.andThen fun _ => given _

theorem wholeUnion? {whole read : Schema → Reader Value} (h : ∀ s, Extends (whole s) (read s))
    (branches : List Schema) :
    Extends (Reader.wholeUnion? whole branches) (Reader.wholeUnion? read branches) :=
  (branch? branches).andThen fun b => (h b.2).as (Value.union b.1)

theorem union? {whole read : Schema → Reader Value} (h : ∀ s, Extends (whole s) (read s))
    (branches : List Schema) :
    Extends (Reader.wholeUnion? whole branches) (union? read branches) := by
  intro bytes v rest hread t
  have hlonger := wholeUnion? h branches hread t
  obtain ⟨b, mid, w, hbranch, -⟩ := wholeUnion?_eq_some.mp hlonger
  rwa [union?_eq_wholeUnion? (readLong_ne_truncated hbranch)]

theorem boolean? : Extends wholeBoolean? boolean? := by
  intro bytes v rest hread t
  cases bytes with
  | nil => exact nomatch hread
  | cons b bytes =>
      simp only [wholeBoolean?, Reader.boolean?, List.cons_append] at hread ⊢
      split at hread
      · next hb =>
          obtain ⟨rfl, rfl⟩ : Value.boolean false = v ∧ bytes = rest := by simpa using hread
          rw [if_pos hb]
      · next hb =>
          rw [if_neg hb]
          split at hread
          · next hb' =>
              obtain ⟨rfl, rfl⟩ : Value.boolean true = v ∧ bytes = rest := by simpa using hread
              rw [if_pos hb']
          · simp at hread

theorem string? : Extends (text?.as .string) string? := by
  intro bytes v rest hread t
  rw [as_eq] at hread
  obtain ⟨s, mid, htext, hgiven⟩ := andThen_eq_some.mp hread
  obtain ⟨hs, rfl⟩ := given_eq_some.mp hgiven
  obtain rfl : Value.string s = v := by simpa using hs
  exact string?_of_text? (extends_text? htext t)

end Extends

end Reader

namespace Schema

open Reader

/-- The types whose data are read in full or not at all, and that hold no other types. -/
def isPlain : Schema → Bool
  | .boolean | .string | .array _ | .map _ | .union _ | .record _ _ | .decimal _ _ _ | .ref _ =>
      false
  | _ => true

/-- Reads a value like `read?`, but nothing that is cut off. -/
def readWhole? (defs : Definitions) : Nat → Option String → Schema → Reader Value
  | 0, _, _ => fun _ => none
  | fuel + 1, space, s =>
      match s with
      | .boolean => wholeBoolean?
      | .string => text?.as .string
      | .array items => (sequence? (readWhole? defs fuel space items)).as .array
      | .map values =>
          (sequence? (member? (readWhole? defs fuel space values))).as
            fun es => .map (Keyed.ofList es)
      | .union branches => wholeUnion? (readWhole? defs fuel space) branches
      | .record name fields =>
          (fields? (readWhole? defs fuel (name.within space).space) fields).as .record
      | .decimal inner _ _ =>
          (readWhole? defs fuel space inner).andThen fun v => given (decimalOf? v)
      | .ref name =>
          match defs.lookup (name.within space) with
          | some target => readWhole? defs fuel (name.within space).space target
          | none => fun _ => none
      | s => read? defs (fuel + 1) space s

variable {defs : Definitions} {fuel : Nat} {space : Option String}

theorem read?_decimal (inner : Schema) (precision scale : Nat) :
    read? defs (fuel + 1) space (.decimal inner precision scale) =
      (read? defs fuel space inner).andThen fun v => given (decimalOf? v) := by
  funext bytes
  unfold Reader.andThen
  rw [read?]
  dsimp only
  cases read? defs fuel space inner bytes with
  | none => rfl
  | some p =>
      obtain ⟨v, rest⟩ := p
      cases v <;> rfl

theorem readWhole?_of_isPlain {s : Schema} (h : s.isPlain) :
    readWhole? defs (fuel + 1) space s = read? defs (fuel + 1) space s := by
  cases s <;> first | rfl | exact nomatch h

theorem extends_read?_of_isPlain {s : Schema} (h : s.isPlain) (fuel fuel' : Nat) :
    Extends (read? defs (fuel + 1) space s) (read? defs (fuel' + 1) space s) := by
  cases s with
  | null => exact fun _ _ _ hread _ => by simpa [read?] using hread
  | int | date | timeMillis => exact extends_int?.as _
  | long | instant => exact extends_long?.as _
  | float => exact (extends_word? 4).as fun n => Value.float (UInt32.ofNat n)
  | double => exact (extends_word? 8).as fun n => Value.double (UInt64.ofNat n)
  | bytes => exact extends_blob?.as _
  | enumeration _ symbols _ => exact extends_enumeration? symbols
  | fixed _ size => exact (extends_take? size).as _
  | bigDecimal => exact extends_bigDecimal?.as _
  | uuid => exact extends_uuid?.as _
  | duration => exact extends_duration?.as _
  | _ => exact nomatch h

theorem lenient_read?_of_isPlain {s : Schema} (h : s.isPlain) (fuel : Nat) :
    Lenient (read? defs (fuel + 1) space s) (read? defs (fuel + 1) space s) where
  whole_or_end := Or.inl
  at_end {v rest} hread := by
    cases s with
    | null => exact (Prod.mk.inj (Option.some.inj hread)).2.symm
    | fixed _ size =>
        cases size with
        | zero => exact (Prod.mk.inj (Option.some.inj hread)).2.symm
        | succ size => exact nomatch hread
    | boolean | string | array | map | union | record | decimal | ref => exact nomatch h
    | _ => exact nomatch hread

theorem extends_readWhole? {fuel fuel' : Nat} (hfuel : fuel ≤ fuel') (space : Option String)
    (s : Schema) : Extends (readWhole? defs fuel space s) (read? defs fuel' space s) := by
  induction fuel generalizing fuel' space s with
  | zero => exact fun _ _ _ hread => nomatch hread
  | succ fuel ih =>
      obtain ⟨fuel', rfl⟩ : ∃ k, fuel' = k + 1 := ⟨fuel' - 1, by omega⟩
      have ih := fun space s => @ih fuel' (by omega) space s
      by_cases hplain : s.isPlain
      · rw [readWhole?_of_isPlain hplain]
        exact extends_read?_of_isPlain hplain fuel fuel'
      · cases s with
        | boolean => exact .boolean?
        | string => exact .string?
        | array items => exact (ih space items).sequence?.as _
        | map values =>
            exact (ih space values).member?.sequence?.as fun es => Value.map (Keyed.ofList es)
        | union branches => exact .union? (ih space) branches
        | record name fields => exact (Extends.fields? (ih _) fields).as _
        | decimal inner precision scale =>
            rw [read?_decimal]
            exact (ih space inner).andThen fun v => .given _
        | ref name =>
            simp only [readWhole?, read?]
            cases defs.lookup (name.within space) with
            | none => exact .given none
            | some target => exact ih _ target
        | _ => exact (hplain rfl).elim

theorem lenient_read? (fuel : Nat) (space : Option String) (s : Schema) :
    Lenient (read? defs fuel space s) (readWhole? defs fuel space s) := by
  induction fuel generalizing space s with
  | zero => exact .given none
  | succ fuel ih =>
      by_cases hplain : s.isPlain
      · rw [readWhole?_of_isPlain hplain]
        exact lenient_read?_of_isPlain hplain fuel
      · cases s with
        | boolean => exact .boolean?
        | string => exact .string?
        | array items => exact (ih space items).sequence?.as _
        | map values =>
            exact (ih space values).member?.sequence?.as fun es => Value.map (Keyed.ofList es)
        | union branches => exact .union? (ih space) branches
        | record name fields => exact (Lenient.fields? (ih _) fields).as _
        | decimal inner precision scale =>
            rw [read?_decimal]
            exact (ih space inner).andThen fun v => .given _
        | ref name =>
            simp only [readWhole?, read?]
            cases defs.lookup (name.within space) with
            | none => exact .given none
            | some target => exact ih _ target
        | _ => exact (hplain rfl).elim

end Schema

namespace Value

mutual

/-- The first value is the second as far as the input tells it: a boolean or a text that was cut is
null, and so is the content of a union whose index was cut, which counts as its first branch. -/
inductive IsCutOf : Value → Value → Prop
  | refl (v : Value) : IsCutOf v v
  | boolean (b : Bool) : IsCutOf .null (.boolean b)
  | string (s : String) : IsCutOf .null (.string s)
  | index (i : Nat) (w : Value) : IsCutOf (.union 0 .null) (.union i w)
  | union (i : Nat) {v w : Value} (inner : IsCutOf v w) : IsCutOf (.union i v) (.union i w)
  | record {fs gs : List (String × Value)} (fields : AreCutOf fs gs) :
      IsCutOf (.record fs) (.record gs)

/-- The same names in the same order, with values that may be cut. -/
inductive AreCutOf : List (String × Value) → List (String × Value) → Prop
  | nil : AreCutOf [] []
  | cons (name : String) {v w : Value} {fs gs : List (String × Value)} (value : IsCutOf v w)
      (later : AreCutOf fs gs) : AreCutOf ((name, v) :: fs) ((name, w) :: gs)

end

theorem AreCutOf.refl : ∀ fs : List (String × Value), AreCutOf fs fs
  | [] => .nil
  | (name, v) :: fs => .cons name (.refl v) (refl fs)

/-- Inside its unions a value that was cut is null or a cut of what it was cut from. -/
theorem IsCutOf.unwrap {v w : Value} : IsCutOf v w → v.unwrap = .null ∨ IsCutOf v.unwrap w.unwrap
  | .refl v => Or.inr (.refl v.unwrap)
  | .boolean _ => Or.inl rfl
  | .string _ => Or.inl rfl
  | .index _ _ => Or.inl rfl
  | .union _ inner => inner.unwrap
  | .record fields => Or.inr (.record fields)

theorem IsCutOf.unwrap_record {v w : Value} {fs : List (String × Value)} (h : IsCutOf v w)
    (hv : v.unwrap = .record fs) : ∃ gs, w.unwrap = .record gs ∧ AreCutOf fs gs := by
  rcases h.unwrap with hnull | hcut
  · simp [hnull] at hv
  · rw [hv] at hcut
    generalize w.unwrap = w' at hcut
    cases hcut with
    | refl => exact ⟨fs, rfl, .refl fs⟩
    | record fields => exact ⟨_, rfl, fields⟩

/-- Values that are never cut themselves nor hold values that are. -/
def isSolid : Value → Bool
  | .null | .union _ _ | .record _ => false
  | _ => true

theorem IsCutOf.unwrap_eq {v w : Value} (h : IsCutOf v w) (hv : v.unwrap.isSolid) :
    w.unwrap = v.unwrap := by
  rcases h.unwrap with hnull | hcut
  · simp [hnull, isSolid] at hv
  · generalize v.unwrap = v', w.unwrap = w' at hv hcut
    cases hcut with
    | refl => rfl
    | _ => exact nomatch hv

end Value

namespace Reader

variable {α : Type}

/-- What `read` gives for an input is a cut of what `read'` gives for any longer one. -/
def CutsTo (read read' : Reader Value) : Prop :=
  ∀ ⦃bytes v rest t w rest'⦄, read bytes = some (v, rest) →
    read' (bytes ++ t) = some (w, rest') → v.IsCutOf w

namespace CutsTo

theorem of_extends {read read' : Reader Value} (h : Extends read read') : CutsTo read read' := by
  intro bytes v rest t w rest' hv hw
  rw [h hv t] at hw
  obtain ⟨rfl, -⟩ : v = w ∧ rest ++ t = rest' := by simpa using hw
  exact .refl v

theorem boolean? : CutsTo boolean? boolean? := by
  intro bytes v rest t w rest' hv hw
  cases bytes with
  | cons b bytes =>
      have hwhole : wholeBoolean? (b :: bytes) = some (v, rest) := hv
      exact of_extends Extends.boolean? hwhole hw
  | nil =>
      obtain rfl : Value.null = v := (Prod.mk.inj (Option.some.inj hv)).1
      cases t with
      | nil =>
          obtain rfl : Value.null = w := (Prod.mk.inj (Option.some.inj hw)).1
          exact .refl _
      | cons b t =>
          rw [List.nil_append, Reader.boolean?] at hw
          split at hw
          · obtain ⟨rfl, -⟩ : Value.boolean false = w ∧ t = rest' := by simpa using hw
            exact .boolean false
          · split at hw
            · obtain ⟨rfl, -⟩ : Value.boolean true = w ∧ t = rest' := by simpa using hw
              exact .boolean true
            · simp at hw

theorem string? : CutsTo string? string? := by
  intro bytes v rest t w rest' hv hw
  rcases string?_eq_some hv with ⟨s, rfl, htext⟩ | ⟨rfl, -⟩
  · have hwhole : text?.as Value.string bytes = some (.string s, rest) := by
      simp [Reader.as, htext]
    exact of_extends Extends.string? hwhole hw
  · rcases string?_eq_some hw with ⟨s, rfl, -⟩ | ⟨rfl, -⟩
    · exact .string s
    · exact .refl _

theorem wholeUnion? {read read' : Schema → Reader Value} (h : ∀ s, CutsTo (read s) (read' s))
    (branches : List Schema) :
    CutsTo (Reader.wholeUnion? read branches) (Reader.wholeUnion? read' branches) := by
  intro bytes v rest t w rest' hv hw
  obtain ⟨b, mid, v', hbranch, hv', rfl⟩ := wholeUnion?_eq_some.mp hv
  obtain ⟨b', mid', w', hbranch', hw', rfl⟩ := wholeUnion?_eq_some.mp hw
  rw [Extends.branch? branches hbranch t] at hbranch'
  obtain ⟨rfl, rfl⟩ : b = b' ∧ mid ++ t = mid' := by simpa using hbranch'
  exact .union b.1 (h b.2 hv' hw')

theorem union? {read read' : Schema → Reader Value} (h : ∀ s, CutsTo (read s) (read' s))
    (branches : List Schema) : CutsTo (union? read branches) (union? read' branches) := by
  intro bytes v rest t w rest' hv hw
  by_cases hcut : Varint.readLong bytes = .error .truncated
  · rw [union?_of_truncated hcut] at hv
    obtain rfl : Value.union 0 .null = v := (Prod.mk.inj (Option.some.inj hv)).1
    by_cases hcut' : Varint.readLong (bytes ++ t) = .error .truncated
    · rw [union?_of_truncated hcut'] at hw
      obtain rfl : Value.union 0 .null = w := (Prod.mk.inj (Option.some.inj hw)).1
      exact .refl _
    · rw [union?_eq_wholeUnion? hcut'] at hw
      obtain ⟨b, -, w, -, -, rfl⟩ := wholeUnion?_eq_some.mp hw
      exact .index b.1 w
  · rw [union?_eq_wholeUnion? hcut] at hv
    obtain ⟨b, mid, -, hbranch, -⟩ := wholeUnion?_eq_some.mp hv
    have hlonger := Extends.branch? branches hbranch t
    rw [union?_eq_wholeUnion? (readLong_ne_truncated hlonger)] at hw
    exact wholeUnion? h branches hv hw

/-- The bytes of a decimal are not cut. -/
theorem decimal {read read' : Reader Value} (h : CutsTo read read') :
    CutsTo (read.andThen fun v => given (decimalOf? v))
      (read'.andThen fun w => given (decimalOf? w)) := by
  intro bytes v rest t w rest' hv hw
  obtain ⟨v', mid, hv', hgiven⟩ := andThen_eq_some.mp hv
  obtain ⟨hdecimal, -⟩ := given_eq_some.mp hgiven
  obtain ⟨w', mid', hw', hgiven'⟩ := andThen_eq_some.mp hw
  obtain ⟨hdecimal', -⟩ := given_eq_some.mp hgiven'
  cases h hv' hw' with
  | refl =>
      obtain rfl : v = w := by simpa using hdecimal.symm.trans hdecimal'
      exact .refl v
  | _ => exact nomatch hdecimal

/-- What is read in blocks is not cut at all. -/
theorem sequence? {r whole r' : Reader α} (hlenient : Lenient r whole)
    (hextends : Extends whole r') (f : List α → Value) :
    CutsTo ((sequence? r).as f) ((sequence? r').as f) := by
  intro bytes v rest t w rest' hv hw
  obtain ⟨xs, hxs, rfl⟩ := as_eq_some.mp hv
  have hwhole : whole.sequence?.as f bytes = some (f xs, rest) :=
    as_eq_some.mpr ⟨xs, hlenient.sequence?_whole hxs, rfl⟩
  exact of_extends (hextends.sequence?.as f) hwhole hw

end CutsTo

/-- Once a field was cut, all later ones are read from nothing. -/
theorem fields?_areCutOf {read whole read' : Schema → Reader Value}
    (hlenient : ∀ s, Lenient (read s) (whole s)) (hextends : ∀ s, Extends (whole s) (read' s))
    (hcuts : ∀ s, CutsTo (read s) (read' s)) {fields : List (Field Schema)}
    {bytes rest t rest' : List UInt8} {vs ws : List (String × Value)}
    (hvs : fields? read fields bytes = some (vs, rest))
    (hws : fields? read' fields (bytes ++ t) = some (ws, rest')) : Value.AreCutOf vs ws := by
  induction fields generalizing bytes t vs ws with
  | nil =>
      obtain ⟨rfl, -⟩ : [] = vs ∧ bytes = rest := by simpa [fields?] using hvs
      obtain ⟨rfl, -⟩ : [] = ws ∧ bytes ++ t = rest' := by simpa [fields?] using hws
      exact .nil
  | cons f fields ih =>
      obtain ⟨v, mid, vs', hv, hvs', rfl⟩ := fields?_cons_eq_some.mp hvs
      obtain ⟨w, mid₁, ws', hw, hws', rfl⟩ := fields?_cons_eq_some.mp hws
      refine .cons f.name (hcuts f.type hv hw) ?_
      rcases (hlenient f.type).whole_or_end hv with hwhole | rfl
      · rw [hextends f.type hwhole t] at hw
        obtain ⟨-, rfl⟩ : v = w ∧ mid ++ t = mid₁ := by simpa using hw
        exact ih hvs' hws'
      · rw [← List.nil_append mid₁] at hws'
        exact ih hvs' hws'

end Reader

namespace Schema

open Reader

variable {defs : Definitions}

theorem cutsTo_read? {fuel fuel' : Nat} (hfuel : fuel ≤ fuel') (space : Option String)
    (s : Schema) : CutsTo (read? defs fuel space s) (read? defs fuel' space s) := by
  induction fuel generalizing fuel' space s with
  | zero => exact fun _ _ _ _ _ _ hv => nomatch hv
  | succ fuel ih =>
      obtain ⟨fuel', rfl⟩ : ∃ k, fuel' = k + 1 := ⟨fuel' - 1, by omega⟩
      have hfuel : fuel ≤ fuel' := by omega
      have ih := fun space s => @ih fuel' hfuel space s
      by_cases hplain : s.isPlain
      · exact .of_extends (extends_read?_of_isPlain hplain fuel fuel')
      · cases s with
        | boolean => exact .boolean?
        | string => exact .string?
        | array items =>
            exact .sequence? (lenient_read? fuel space items)
              (extends_readWhole? hfuel space items) .array
        | map values =>
            exact .sequence? (lenient_read? fuel space values).member?
              (extends_readWhole? hfuel space values).member? fun es => .map (Keyed.ofList es)
        | union branches => exact .union? (ih space) branches
        | record name fields =>
            intro bytes v rest t w rest' hv hw
            obtain ⟨vs, hvs, rfl⟩ := as_eq_some.mp hv
            obtain ⟨ws, hws, rfl⟩ := as_eq_some.mp hw
            exact .record (fields?_areCutOf (lenient_read? fuel _) (extends_readWhole? hfuel _)
              (ih _) hvs hws)
        | decimal inner precision scale =>
            rw [read?_decimal, read?_decimal]
            exact (ih space inner).decimal
        | ref name =>
            simp only [read?]
            cases defs.lookup (name.within space) with
            | none => exact fun _ _ _ _ _ _ hv => nomatch hv
            | some target => exact ih _ target
        | _ => exact (hplain rfl).elim

/-- The value at the front of the input, if nothing of it is cut off. -/
def decodeWhole? (s : Schema) (bytes : List UInt8) : Option Value :=
  match s.definitions? with
  | none => none
  | some defs =>
      (readWhole? defs ((bytes.length + 1) * (s.size + 1) + 1) none s bytes).map Prod.fst

theorem depth_le_append (s : Schema) (bytes t : List UInt8) :
    (bytes.length + 1) * (s.size + 1) + 1 ≤ ((bytes ++ t).length + 1) * (s.size + 1) + 1 := by
  rw [List.length_append]
  exact Nat.add_le_add_right (Nat.mul_le_mul_right _ (by omega)) 1

theorem decode?_append_of_decodeWhole? {s : Schema} {bytes : List UInt8} {v : Value}
    (h : s.decodeWhole? bytes = some v) (t : List UInt8) : s.decode? (bytes ++ t) = some v := by
  unfold decodeWhole? at h
  unfold decode?
  cases hdefs : s.definitions? with
  | none => simp [hdefs] at h
  | some defs =>
      simp only [hdefs] at h ⊢
      obtain ⟨⟨v', rest⟩, hread, rfl⟩ := Option.map_eq_some_iff.mp h
      rw [extends_readWhole? (depth_le_append s bytes t) none s hread t]
      rfl

theorem isCutOf_of_decode?_append {s : Schema} {bytes t : List UInt8} {v w : Value}
    (hv : s.decode? bytes = some v) (hw : s.decode? (bytes ++ t) = some w) : v.IsCutOf w := by
  unfold decode? at hv hw
  cases hdefs : s.definitions? with
  | none => simp [hdefs] at hv
  | some defs =>
      simp only [hdefs] at hv hw
      obtain ⟨⟨v', rest⟩, hread, rfl⟩ := Option.map_eq_some_iff.mp hv
      obtain ⟨⟨w', rest'⟩, hread', rfl⟩ := Option.map_eq_some_iff.mp hw
      exact cutsTo_read? (depth_le_append s bytes t) none s hread hread'

end Schema

end ChangeCapture.Avro
