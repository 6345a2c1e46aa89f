import ChangeCapture.Avro.Decoder

/-!
# Readers on longer input

A reader that finds what it reads inside its input reads the same from every longer input and leaves
what was added. This passes from the parts of a value to the value: each reader is written as one
that reads a part and goes on with what the part tells.
-/

namespace ChangeCapture.Avro

namespace Varint

theorem readBytes_append {fuel : Nat} {bytes rest : List UInt8} {n : Nat}
    (h : readBytes fuel bytes = .ok (n, rest)) (t : List UInt8) :
    readBytes fuel (bytes ++ t) = .ok (n, rest ++ t) := by
  induction fuel generalizing bytes n with
  | zero => simp [readBytes] at h
  | succ fuel ih =>
      cases bytes with
      | nil => simp [readBytes] at h
      | cons b bytes =>
          simp only [readBytes, List.cons_append] at h ⊢
          split at h
          · next hb =>
              obtain ⟨rfl, rfl⟩ : b.toNat = n ∧ bytes = rest := by simpa using h
              rw [if_pos hb]
          · next hb =>
              rw [if_neg hb]
              split at h
              · simp at h
              · next m r hm =>
                  obtain ⟨rfl, rfl⟩ : b.toNat % 128 + 128 * m = n ∧ r = rest := by simpa using h
                  rw [ih hm]

theorem readLong_append {bytes rest : List UInt8} {n : Int64}
    (h : readLong bytes = .ok (n, rest)) (t : List UInt8) :
    readLong (bytes ++ t) = .ok (n, rest ++ t) := by
  unfold readLong at h ⊢
  split at h
  · simp at h
  · next m r hm =>
      obtain ⟨rfl, rfl⟩ : unfold (m % UInt64.size) = n ∧ r = rest := by simpa using h
      rw [readBytes_append hm]

end Varint

namespace Reader

variable {α β : Type}

/-- Reads one part and goes on with what the part tells. -/
def andThen (r : Reader α) (next : α → Reader β) : Reader β := fun bytes =>
  match r bytes with
  | none => none
  | some (x, rest) => next x rest

/-- Reads nothing. -/
def given (x? : Option α) : Reader α := fun bytes => x?.map fun x => (x, bytes)

theorem andThen_eq_some {r : Reader α} {next : α → Reader β} {bytes rest : List UInt8} {y : β} :
    r.andThen next bytes = some (y, rest) ↔
      ∃ x mid, r bytes = some (x, mid) ∧ next x mid = some (y, rest) := by
  unfold andThen
  cases r bytes with
  | none => simp
  | some p =>
      obtain ⟨x, mid⟩ := p
      simp [and_assoc]

theorem given_eq_some {x? : Option α} {bytes rest : List UInt8} {x : α} :
    given x? bytes = some (x, rest) ↔ x? = some x ∧ bytes = rest := by
  cases x? <;> simp [given]

theorem as_eq (f : α → β) (r : Reader α) : r.as f = r.andThen fun x => given (some (f x)) := by
  funext bytes
  unfold as andThen
  cases r bytes <;> rfl

theorem as_eq_some {f : α → β} {r : Reader α} {bytes rest : List UInt8} {y : β} :
    r.as f bytes = some (y, rest) ↔ ∃ x, r bytes = some (x, rest) ∧ f x = y := by
  rw [as_eq, andThen_eq_some]
  simp [given_eq_some]

theorem int?_eq : int? = long?.andThen fun n =>
    given (if -0x80000000 ≤ n.toInt ∧ n.toInt < 0x80000000 then some (Int32.ofInt n.toInt)
      else none) := by
  funext bytes
  unfold int? andThen
  cases long? bytes with
  | none => rfl
  | some p =>
      dsimp only
      split <;> rfl

theorem length?_eq : length? = long?.andThen fun n =>
    given (if 0 ≤ n.toInt ∧ n.toInt ≤ lengthLimit then some n.toInt.toNat else none) := by
  funext bytes
  unfold length? andThen
  cases long? bytes with
  | none => rfl
  | some p =>
      dsimp only
      split <;> rfl

theorem blockCount?_eq : blockCount? = long?.andThen fun n =>
    if 0 ≤ n.toInt then given (if n.toInt ≤ lengthLimit then some n.toInt.toNat else none)
    else long?.andThen fun _ =>
      given (if -n.toInt ≤ lengthLimit then some (-n.toInt).toNat else none) := by
  funext bytes
  unfold blockCount? andThen
  cases long? bytes with
  | none => rfl
  | some p =>
      obtain ⟨n, mid⟩ := p
      dsimp only
      split
      · split <;> rfl
      · cases hsize : long? mid with
        | none => simp [hsize]
        | some q =>
            simp only [hsize]
            split <;> rfl

theorem blob?_eq : blob? = length?.andThen take? := by
  funext bytes
  unfold blob? andThen
  cases length? bytes <;> rfl

theorem word?_eq (n : Nat) :
    word? n = (take? n).andThen fun taken => given (some (littleEndian taken)) := by
  funext bytes
  unfold word? andThen
  cases take? n bytes <;> rfl

/-- The identifier that sixteen bytes are or a text writes. -/
def uuidOf? (data : List UInt8) : Option Uuid :=
  match Uuid.ofBytes? data with
  | some u => some u
  | none =>
      match Text.Utf8.decode data with
      | .ok cs => Uuid.ofChars? cs
      | .error _ => none

theorem uuid?_eq : uuid? = blob?.andThen fun data => given (uuidOf? data) := by
  funext bytes
  unfold uuid? andThen uuidOf?
  cases blob? bytes with
  | none => rfl
  | some p =>
      cases hu : Uuid.ofBytes? p.1 with
      | some u => simp [hu, given]
      | none => cases hcs : Text.Utf8.decode p.1 <;> simp [hu, hcs, given]

theorem bigDecimal?_eq : bigDecimal? = blob?.andThen fun data =>
    given ((unscaledAndScale? data).map Prod.fst) := by
  funext bytes
  unfold bigDecimal? andThen
  cases blob? bytes with
  | none => rfl
  | some p => simp [given, Function.comp_def]

theorem duration?_eq : duration? = (word? 4).andThen fun months => (word? 4).andThen fun days =>
    (word? 4).andThen fun millis =>
      given (some ⟨UInt32.ofNat months, UInt32.ofNat days, UInt32.ofNat millis⟩) := by
  funext bytes
  unfold duration? andThen
  cases word? 4 bytes with
  | none => rfl
  | some p =>
      dsimp only
      cases word? 4 p.2 with
      | none => rfl
      | some q =>
          dsimp only
          cases word? 4 q.2 <;> rfl

theorem enumeration?_eq (symbols : List String) : enumeration? symbols = int?.andThen fun n =>
    given (if n.toInt < 0 then none
      else (symbols[n.toInt.toNat]?).map fun s => .enumeration n.toInt.toNat s) := by
  funext bytes
  unfold enumeration? andThen
  cases int? bytes with
  | none => rfl
  | some p =>
      dsimp only
      split
      · rfl
      · simp [given, Function.comp_def]

theorem items?_succ (item : Reader α) (n : Nat) : items? item (n + 1) =
    item.andThen fun x => (items? item n).andThen fun xs => given (some (x :: xs)) := by
  funext bytes
  unfold andThen
  rw [items?]
  cases item bytes with
  | none => rfl
  | some p =>
      dsimp only
      cases items? item n p.2 <;> rfl

theorem blocks?_succ (item : Reader α) (fuel : Nat) : blocks? item (fuel + 1) =
    blockCount?.andThen fun n =>
      if n = 0 then given (some [])
      else (items? item n).andThen fun xs => (blocks? item fuel).andThen fun ys =>
        given (some (xs ++ ys)) := by
  funext bytes
  unfold andThen
  rw [blocks?]
  cases blockCount? bytes with
  | none => rfl
  | some p =>
      obtain ⟨n, mid⟩ := p
      cases n with
      | zero => rfl
      | succ n =>
          simp only [Nat.add_one_ne_zero, if_false]
          cases items? item (n + 1) mid with
          | none => rfl
          | some q =>
              dsimp only
              cases blocks? item fuel q.2 <;> rfl

theorem blocks?_nil (item : Reader α) (fuel : Nat) : blocks? item fuel [] = none := by
  cases fuel <;> rfl

theorem fields?_cons (value : Schema → Reader Value) (f : Field Schema)
    (fs : List (Field Schema)) : fields? value (f :: fs) =
      (value f.type).andThen fun v => (fields? value fs).andThen fun vs =>
        given (some ((f.name, v) :: vs)) := by
  funext bytes
  unfold andThen
  rw [fields?]
  cases value f.type bytes with
  | none => rfl
  | some p =>
      dsimp only
      cases fields? value fs p.2 <;> rfl

theorem fields?_cons_eq_some {value : Schema → Reader Value} {f : Field Schema}
    {fs : List (Field Schema)} {bytes rest : List UInt8} {vs : List (String × Value)} :
    fields? value (f :: fs) bytes = some (vs, rest) ↔
      ∃ v mid ws, value f.type bytes = some (v, mid) ∧ fields? value fs mid = some (ws, rest) ∧
        (f.name, v) :: ws = vs := by
  rw [fields?_cons, andThen_eq_some]
  simp only [andThen_eq_some, given_eq_some, Option.some.injEq]
  constructor
  · rintro ⟨v, mid, hv, ws, _, hws, hvs, rfl⟩
    exact ⟨v, mid, ws, hv, hws, hvs⟩
  · rintro ⟨v, mid, ws, hv, hws, hvs⟩
    exact ⟨v, mid, hv, ws, rest, hws, hvs, rfl⟩

/-- A text that is there in full. -/
def text? : Reader String :=
  blob?.andThen fun data => given ((Text.Utf8.decode data).toOption.map String.ofList)

/-- A text is null exactly if its length is there and its bytes are not. -/
theorem string?_eq_some {bytes rest : List UInt8} {v : Value}
    (h : string? bytes = some (v, rest)) :
    (∃ s, v = .string s ∧ text? bytes = some (s, rest)) ∨ (v = .null ∧ rest = []) := by
  unfold string? at h
  unfold text? blob? andThen
  cases hlength : length? bytes with
  | none => simp [hlength] at h
  | some p =>
      simp only [hlength] at h ⊢
      cases htake : take? p.1 p.2 with
      | none => exact Or.inr (by simpa [htake, eq_comm] using h)
      | some q =>
          simp only [htake] at h ⊢
          cases hdecode : Text.Utf8.decode q.1 with
          | error fault => simp [hdecode] at h
          | ok cs =>
              obtain ⟨rfl, rfl⟩ : Value.string (String.ofList cs) = v ∧ q.2 = rest := by
                simpa [hdecode] using h
              exact Or.inl ⟨_, rfl, by simp [given, Except.toOption]⟩

theorem string?_of_text? {bytes rest : List UInt8} {s : String}
    (h : text? bytes = some (s, rest)) : string? bytes = some (.string s, rest) := by
  unfold text? blob? andThen at h
  unfold string?
  cases hlength : length? bytes with
  | none => simp [hlength] at h
  | some p =>
      simp only [hlength] at h ⊢
      cases htake : take? p.1 p.2 with
      | none => simp [htake] at h
      | some q =>
          simp only [htake] at h ⊢
          cases hdecode : Text.Utf8.decode q.1 with
          | error fault => simp [hdecode, given, Except.toOption] at h
          | ok cs => simpa [hdecode, given, Except.toOption] using h

theorem member?_eq (value : Reader Value) : member? value =
    text?.andThen fun key => value.andThen fun v => given (some (key, v)) := by
  funext bytes
  unfold member?
  split
  · next key rest hstring =>
      rcases string?_eq_some hstring with ⟨s, hs, htext⟩ | ⟨hnull, -⟩
      · obtain rfl : key = s := by simpa using hs
        simp only [andThen, htext]
        cases value rest <;> rfl
      · simp at hnull
  · next hne =>
      cases htext : text? bytes with
      | none => simp [andThen, htext]
      | some p => exact (hne p.1 p.2 (string?_of_text? htext)).elim

/-- The branch that an index tells. -/
def branch? (branches : List Schema) : Reader (Nat × Schema) :=
  long?.andThen fun n =>
    given (if n.toInt < 0 then none
      else (branches[n.toInt.toNat]?).map fun s => (n.toInt.toNat, s))

/-- A union whose index is there. -/
def wholeUnion? (value : Schema → Reader Value) (branches : List Schema) : Reader Value :=
  (branch? branches).andThen fun b => (value b.2).as (.union b.1)

theorem union?_of_truncated {bytes : List UInt8} (h : Varint.readLong bytes = .error .truncated)
    (value : Schema → Reader Value) (branches : List Schema) :
    union? value branches bytes = some (.union 0 .null, []) := by
  simp [union?, h]

theorem union?_eq_wholeUnion? {bytes : List UInt8} (h : Varint.readLong bytes ≠ .error .truncated)
    (value : Schema → Reader Value) (branches : List Schema) :
    union? value branches bytes = wholeUnion? value branches bytes := by
  unfold union? wholeUnion? branch? andThen long?
  cases hlong : Varint.readLong bytes with
  | error fault =>
      cases fault with
      | truncated => exact (h hlong).elim
      | overlong => rfl
  | ok p =>
      obtain ⟨n, mid⟩ := p
      simp only [Except.toOption]
      split
      · rfl
      · cases branches[n.toInt.toNat]? with
        | none => rfl
        | some s =>
            dsimp only [as, given, Option.map]
            cases value s mid <;> rfl

theorem readLong_ne_truncated {branches : List Schema} {bytes : List UInt8}
    {p : (Nat × Schema) × List UInt8} (h : branch? branches bytes = some p) :
    Varint.readLong bytes ≠ .error .truncated := by
  intro hlong
  simp [branch?, andThen, long?, hlong, Except.toOption] at h

theorem wholeUnion?_eq_some {value : Schema → Reader Value} {branches : List Schema}
    {bytes rest : List UInt8} {v : Value} :
    wholeUnion? value branches bytes = some (v, rest) ↔
      ∃ b mid w, branch? branches bytes = some (b, mid) ∧ value b.2 mid = some (w, rest) ∧
        .union b.1 w = v := by
  unfold wholeUnion?
  rw [andThen_eq_some]
  simp only [as_eq_some, exists_and_left]

/-- What `r` reads from an input, `r'` reads from every longer one, leaving what was added. -/
def Extends (r r' : Reader α) : Prop :=
  ∀ ⦃bytes x rest⦄, r bytes = some (x, rest) → ∀ t, r' (bytes ++ t) = some (x, rest ++ t)

namespace Extends

theorem andThen {r r' : Reader α} {next next' : α → Reader β} (h : Extends r r')
    (hnext : ∀ x, Extends (next x) (next' x)) : Extends (r.andThen next) (r'.andThen next') := by
  intro bytes y rest hread t
  obtain ⟨x, mid, hx, hy⟩ := andThen_eq_some.mp hread
  exact andThen_eq_some.mpr ⟨x, mid ++ t, h hx t, hnext x hy t⟩

theorem given (x? : Option α) : Extends (given x?) (given x?) := by
  intro bytes x rest hread t
  obtain ⟨hx, rfl⟩ := given_eq_some.mp hread
  exact given_eq_some.mpr ⟨hx, rfl⟩

theorem as {r r' : Reader α} (h : Extends r r') (f : α → β) : Extends (r.as f) (r'.as f) := by
  rw [as_eq, as_eq]
  exact h.andThen fun x => given (some (f x))

theorem items? {r r' : Reader α} (h : Extends r r') (n : Nat) :
    Extends (items? r n) (items? r' n) := by
  induction n with
  | zero => exact given (some [])
  | succ n ih =>
      rw [items?_succ, items?_succ]
      exact h.andThen fun x => ih.andThen fun xs => given (some (x :: xs))

end Extends

theorem extends_long? : Extends long? long? := by
  intro bytes x rest hread t
  cases hlong : Varint.readLong bytes with
  | error fault => simp [long?, hlong, Except.toOption] at hread
  | ok p =>
      obtain rfl : p = (x, rest) := by simpa [long?, hlong, Except.toOption] using hread
      simp [long?, Varint.readLong_append hlong t, Except.toOption]

theorem extends_int? : Extends int? int? := by
  rw [int?_eq]
  exact extends_long?.andThen fun n => .given _

theorem extends_blockCount? : Extends blockCount? blockCount? := by
  rw [blockCount?_eq]
  refine extends_long?.andThen fun n => ?_
  split
  · exact .given _
  · exact extends_long?.andThen fun _ => .given _

theorem length_of_take? {n : Nat} {bytes taken rest : List UInt8}
    (h : take? n bytes = some (taken, rest)) : taken.length = n := by
  induction n generalizing bytes taken rest with
  | zero =>
      obtain ⟨rfl, -⟩ : [] = taken ∧ bytes = rest := by simpa [take?] using h
      rfl
  | succ n ih =>
      cases bytes with
      | nil => simp [take?] at h
      | cons b bytes =>
          rw [take?] at h
          cases htaken : take? n bytes with
          | none => simp [htaken] at h
          | some p =>
              obtain ⟨rfl, -⟩ : b :: p.1 = taken ∧ p.2 = rest := by simpa [htaken] using h
              rw [List.length_cons, ih htaken]

theorem extends_take? (n : Nat) : Extends (take? n) (take? n) := by
  induction n with
  | zero => exact .given (some [])
  | succ n ih =>
      intro bytes x rest hread t
      cases bytes with
      | nil => simp [take?] at hread
      | cons b bytes =>
          simp only [take?, List.cons_append] at hread ⊢
          split at hread
          · next taken mid htaken =>
              obtain ⟨rfl, rfl⟩ : b :: taken = x ∧ mid = rest := by simpa using hread
              rw [ih htaken t]
          · simp at hread

theorem extends_blob? : Extends blob? blob? := by
  rw [blob?_eq, length?_eq]
  exact (extends_long?.andThen fun n => .given _).andThen extends_take?

theorem extends_word? (n : Nat) : Extends (word? n) (word? n) := by
  rw [word?_eq]
  exact (extends_take? n).andThen fun taken => .given _

theorem extends_uuid? : Extends uuid? uuid? := by
  rw [uuid?_eq]
  exact extends_blob?.andThen fun data => .given _

theorem extends_bigDecimal? : Extends bigDecimal? bigDecimal? := by
  rw [bigDecimal?_eq]
  exact extends_blob?.andThen fun data => .given _

theorem extends_duration? : Extends duration? duration? := by
  rw [duration?_eq]
  exact (extends_word? 4).andThen fun months => (extends_word? 4).andThen fun days =>
    (extends_word? 4).andThen fun millis => .given _

theorem extends_enumeration? (symbols : List String) :
    Extends (enumeration? symbols) (enumeration? symbols) := by
  rw [enumeration?_eq]
  exact extends_int?.andThen fun n => .given _

theorem extends_text? : Extends text? text? :=
  extends_blob?.andThen fun _ => .given _

namespace Extends

theorem blocks? {r r' : Reader α} (h : Extends r r') {fuel fuel' : Nat} (hfuel : fuel ≤ fuel') :
    Extends (blocks? r fuel) (blocks? r' fuel') := by
  induction fuel generalizing fuel' with
  | zero =>
      intro bytes x rest hread
      simp [Reader.blocks?] at hread
  | succ fuel ih =>
      obtain ⟨fuel', rfl⟩ : ∃ k, fuel' = k + 1 := ⟨fuel' - 1, by omega⟩
      rw [blocks?_succ, blocks?_succ]
      refine extends_blockCount?.andThen fun n => ?_
      split
      · exact given (some [])
      · exact (h.items? n).andThen fun xs => (ih (by omega)).andThen fun ys => given _

theorem sequence? {r r' : Reader α} (h : Extends r r') : Extends (sequence? r) (sequence? r') := by
  intro bytes x rest hread t
  exact h.blocks? (by simp) hread t

theorem member? {r r' : Reader Value} (h : Extends r r') : Extends (member? r) (member? r') := by
  rw [member?_eq, member?_eq]
  exact extends_text?.andThen fun key => h.andThen fun v => given _

theorem fields? {read read' : Schema → Reader Value} (h : ∀ s, Extends (read s) (read' s))
    (fields : List (Field Schema)) : Extends (fields? read fields) (fields? read' fields) := by
  induction fields with
  | nil => exact given (some [])
  | cons f fields ih =>
      rw [fields?_cons, fields?_cons]
      exact (h f.type).andThen fun v => ih.andThen fun vs => given _

end Extends

end Reader

end ChangeCapture.Avro
