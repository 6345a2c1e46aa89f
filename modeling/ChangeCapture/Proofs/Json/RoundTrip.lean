import ChangeCapture.Proofs.Json.Tokens
import ChangeCapture.Proofs.Keyed

/-!
# Reading what was printed

The text of a value that was read is read as that value again, apart from its doubles: each of them
is read from its own text, as whatever double, if any, that gives.
-/

namespace ChangeCapture.Json

namespace Written

/-! ## Trees from tokens -/

theorem build?_cons {e next : Expectation} {t : Token} (h : step? e t = some next)
    (ts : List Token) : build? e (t :: ts) = build? next ts := by
  cases e <;> simp only [build?, h]

theorem build?_firstItem (v : Written) (stack : List Frame) (ts : List Token) :
    build? (.firstItem stack) (v.tokens ++ ts) =
      build? (.value (.items [] :: stack)) (v.tokens ++ ts) := by
  cases v <;> rfl

theorem build?_firstKey (key : List Piece) (stack : List Frame) (ts : List Token) :
    build? (.firstKey stack) (.text key :: ts) = build? (.key [] stack) (.text key :: ts) := rfl

theorem itemTokens_cons_cons (v w : Written) (rest : List Written) :
    itemTokens (v :: w :: rest) = v.tokens ++ .comma :: itemTokens (w :: rest) := rfl

theorem memberTokens_cons_cons (key : List Piece) (v : Written) (m : List Piece × Written)
    (rest : List (List Piece × Written)) : memberTokens ((key, v) :: m :: rest) =
      .text key :: .colon :: (v.tokens ++ .comma :: memberTokens (m :: rest)) := rfl

theorem exists_itemTokens (v : Written) (rest : List Written) :
    ∃ ts, itemTokens (v :: rest) = v.tokens ++ ts := by
  cases rest with
  | nil => exact ⟨[], (List.append_nil _).symm⟩
  | cons w rest => exact ⟨_, itemTokens_cons_cons v w rest⟩

theorem exists_memberTokens (key : List Piece) (v : Written)
    (rest : List (List Piece × Written)) :
    ∃ ts, memberTokens ((key, v) :: rest) = .text key :: ts := by
  cases rest with
  | nil => exact ⟨_, rfl⟩
  | cons m rest => exact ⟨_, memberTokens_cons_cons key v m rest⟩

mutual

theorem build?_tokens : ∀ (v : Written) (stack : List Frame) (ts : List Token),
    build? (.value stack) (v.tokens ++ ts) = build? (close v stack) ts
  | .null, _, _ | .bool _, _, _ | .number _, _, _ | .text _, _, _ => rfl
  | .array [], _, _ | .object [], _, _ => rfl
  | .array (v :: rest), stack, ts => by
      have hitems := build?_itemTokens (v :: rest) (List.cons_ne_nil v rest) [] stack ts
      obtain ⟨more, hmore⟩ := exists_itemTokens v rest
      rw [tokens, List.cons_append, List.append_assoc, build?_cons rfl]
      rw [hmore, List.append_assoc] at hitems ⊢
      exact (build?_firstItem v stack _).trans hitems
  | .object ((key, v) :: rest), stack, ts => by
      have hmembers :=
        build?_memberTokens ((key, v) :: rest) (List.cons_ne_nil (key, v) rest) [] stack ts
      obtain ⟨more, hmore⟩ := exists_memberTokens key v rest
      rw [tokens, List.cons_append, List.append_assoc, build?_cons rfl]
      rw [hmore] at hmembers ⊢
      exact (build?_firstKey key stack _).trans hmembers

theorem build?_itemTokens : ∀ (items : List Written), items ≠ [] → ∀ (done : List Written)
    (stack : List Frame) (ts : List Token),
    build? (.value (.items done :: stack)) (itemTokens items ++ .arrayClose :: ts) =
      build? (close (.array (done.reverse ++ items)) stack) ts
  | [], hne, _, _, _ => (hne rfl).elim
  | [v], _, done, stack, ts => by
      rw [itemTokens, build?_tokens v, close, build?_cons rfl, List.reverse_cons]
  | v :: w :: rest, _, done, stack, ts => by
      have hrest := build?_itemTokens (w :: rest) (List.cons_ne_nil w rest) (v :: done) stack ts
      rw [itemTokens_cons_cons, List.append_assoc, build?_tokens v, close, List.cons_append,
        build?_cons rfl, hrest, List.reverse_cons, List.append_assoc]
      rfl

theorem build?_memberTokens : ∀ (members : List (List Piece × Written)), members ≠ [] →
    ∀ (done : List (List Piece × Written)) (stack : List Frame) (ts : List Token),
    build? (.key done stack) (memberTokens members ++ .objectClose :: ts) =
      build? (close (.object (done.reverse ++ members)) stack) ts
  | [], hne, _, _, _ => (hne rfl).elim
  | [(key, v)], _, done, stack, ts => by
      rw [memberTokens, List.cons_append, List.cons_append, build?_cons rfl, build?_cons rfl,
        build?_tokens v, close, build?_cons rfl, List.reverse_cons]
  | (key, v) :: m :: rest, _, done, stack, ts => by
      have hrest := build?_memberTokens (m :: rest) (List.cons_ne_nil m rest)
        ((key, v) :: done) stack ts
      rw [memberTokens_cons_cons, List.cons_append, List.cons_append, build?_cons rfl,
        build?_cons rfl, List.append_assoc, build?_tokens v, close, List.cons_append,
        build?_cons rfl, hrest, List.reverse_cons, List.append_assoc]
      rfl

end

/-- The text of a value has the tree of the value. -/
theorem ofChars?_write (v : Json) : ofChars? v.write = some v.written := by
  have hbuild := build?_tokens v.written [] []
  rw [List.append_nil] at hbuild
  unfold ofChars?
  rw [tokens_of_write, Option.bind_some, hbuild]
  rfl

end Written

/-! ## Texts -/

theorem decodePieces?_unit {n : Nat} (hn : n < 0xD800) (rest : List Piece) :
    decodePieces? (.unit n :: rest) = (decodePieces? rest).map (Char.ofNat n :: ·) := by
  have hhigh : ¬(0xD800 ≤ n ∧ n < 0xDC00) := by omega
  have hlow : ¬(0xDC00 ≤ n ∧ n < 0xE000) := by omega
  have hsurrogate : ¬(0xD800 ≤ n ∧ n < 0xE000) := by omega
  match rest with
  | [] => simp only [decodePieces?, if_neg hsurrogate]
  | .char c :: rest => simp only [decodePieces?, if_neg hsurrogate]
  | .unit low :: rest => rw [decodePieces?, if_neg hhigh, if_neg hlow]

theorem decodePieces?_cons (c : Char) (rest : List Piece) :
    decodePieces? (pieceOf c :: rest) = (decodePieces? rest).map (c :: ·) := by
  unfold pieceOf
  split
  · next h => rw [decodePieces?_unit (by omega), Char.ofNat_toNat]
  · rw [decodePieces?]

theorem textOf?_pieces (s : String) : textOf? (pieces s) = some s := by
  have hdecode : ∀ cs : List Char, decodePieces? (cs.map pieceOf) = some cs := by
    intro cs
    induction cs with
    | nil => rfl
    | cons c cs ih => rw [List.map_cons, decodePieces?_cons, ih, Option.map_some]
  rw [textOf?, pieces, hdecode, Option.map_some, String.ofList_toList]

/-! ## Values -/

/-- What a double is read as from its text. -/
def rereadDouble? (x : Float) : Option Json :=
  match Numeral.ofChars? (writeDouble x) with
  | some n => n.value?
  | none => some .null

mutual

/-- A value with its doubles as they are read from their texts. -/
def reread? : Json → Option Json
  | .double x => rereadDouble? x
  | .arr items => (rereadItems? items).map .arr
  | .obj members => (rereadMembers? members).map .obj
  | v => some v

def rereadItems? : List Json → Option (List Json)
  | [] => some []
  | v :: rest =>
      match reread? v, rereadItems? rest with
      | some x, some xs => some (x :: xs)
      | _, _ => none

def rereadMembers? : List (String × Json) → Option (List (String × Json))
  | [] => some []
  | (k, v) :: rest =>
      match reread? v, rereadMembers? rest with
      | some x, some xs => some ((k, x) :: xs)
      | _, _ => none

end

/-- Values that are read from texts in which arrays and objects nest at most `depth` deep. -/
inductive IsReadable : Nat → Json → Prop
  | null {depth : Nat} : IsReadable depth .null
  | bool {depth : Nat} (b : Bool) : IsReadable depth (.bool b)
  | int {depth : Nat} {n : Int} (h : Numeral.FitsWord n) : IsReadable depth (.int n)
  | double {depth : Nat} (x : Float) : IsReadable depth (.double x)
  | str {depth : Nat} (s : String) : IsReadable depth (.str s)
  | arr {depth : Nat} {items : List Json} (h : ∀ v ∈ items, IsReadable depth v) :
      IsReadable (depth + 1) (.arr items)
  | obj {depth : Nat} {members : List (String × Json)} (sorted : Keyed.IsSorted members)
      (h : ∀ p ∈ members, IsReadable depth p.2) : IsReadable (depth + 1) (.obj members)

namespace IsReadable

theorem mono {depth depth' : Nat} {v : Json} (h : IsReadable depth v) (hle : depth ≤ depth') :
    IsReadable depth' v := by
  induction h generalizing depth' with
  | null => exact .null
  | bool b => exact .bool b
  | int h => exact .int h
  | double x => exact .double x
  | str s => exact .str s
  | arr _ ih =>
      obtain ⟨d, rfl⟩ := Nat.exists_eq_add_one.mpr (Nat.lt_of_lt_of_le (Nat.succ_pos _) hle)
      exact .arr fun v hv => ih v hv (Nat.le_of_succ_le_succ hle)
  | obj sorted _ ih =>
      obtain ⟨d, rfl⟩ := Nat.exists_eq_add_one.mpr (Nat.lt_of_lt_of_le (Nat.succ_pos _) hle)
      exact .obj sorted fun p hp => ih p hp (Nat.le_of_succ_le_succ hle)

end IsReadable

theorem isReadable_of_value? {n : Numeral} {v : Json} {depth : Nat} (h : n.value? = some v) :
    IsReadable depth v := by
  rcases Numeral.value?_eq_some h with ⟨k, rfl, hk⟩ | ⟨x, rfl⟩
  · exact .int hk
  · exact .double x

mutual

theorem isReadable_of_toJson? : ∀ (w : Written) {depth : Nat} {v : Json},
    w.toJson? depth = some v → IsReadable depth v
  | .null, _, _, h => Option.some.inj h ▸ .null
  | .bool b, _, _, h => Option.some.inj h ▸ .bool b
  | .number _, _, _, h => isReadable_of_value? h
  | .text pieces, _, _, h => by
      obtain ⟨s, -, rfl⟩ := Option.map_eq_some_iff.mp h
      exact .str s
  | .array items, depth, v, h => by
      cases depth with
      | zero => exact nomatch h
      | succ depth =>
          obtain ⟨vs, hvs, rfl⟩ := Option.map_eq_some_iff.mp h
          exact .arr (isReadable_of_itemsToJson? items hvs)
  | .object members, depth, v, h => by
      cases depth with
      | zero => exact nomatch h
      | succ depth =>
          obtain ⟨ps, hps, rfl⟩ := Option.map_eq_some_iff.mp h
          have hall := isReadable_of_membersToJson? members hps
          exact .obj (Keyed.isSorted_ofList ps) fun p hp => hall p (Keyed.mem_ofList hp)

theorem isReadable_of_itemsToJson? : ∀ (items : List Written) {depth : Nat} {vs : List Json},
    Written.itemsToJson? depth items = some vs → ∀ v ∈ vs, IsReadable depth v
  | [], _, _, h => Option.some.inj h ▸ fun _ hv => nomatch hv
  | w :: rest, depth, vs, h => by
      rw [Written.itemsToJson?] at h
      split at h
      · next x xs hx hxs =>
          obtain rfl := Option.some.inj h
          exact List.forall_mem_cons.mpr
            ⟨isReadable_of_toJson? w hx, isReadable_of_itemsToJson? rest hxs⟩
      · exact nomatch h

theorem isReadable_of_membersToJson? : ∀ (members : List (List Piece × Written)) {depth : Nat}
    {ps : List (String × Json)}, Written.membersToJson? depth members = some ps →
    ∀ p ∈ ps, IsReadable depth p.2
  | [], _, _, h => Option.some.inj h ▸ fun _ hp => nomatch hp
  | (key, w) :: rest, depth, ps, h => by
      rw [Written.membersToJson?] at h
      split at h
      · next k x xs _ hx hxs =>
          obtain rfl := Option.some.inj h
          exact List.forall_mem_cons.mpr
            ⟨isReadable_of_toJson? w hx, isReadable_of_membersToJson? rest hxs⟩
      · exact nomatch h

end

theorem isReadable_of_readWithin? {depth : Nat} {cs : List Char} {v : Json}
    (h : readWithin? depth cs = some v) : IsReadable depth v := by
  obtain ⟨w, -, hw⟩ := Option.bind_eq_some_iff.mp h
  exact isReadable_of_toJson? w hw

/-! ## Reading the text of a value -/

theorem toJson?_writtenDouble (depth : Nat) (x : Float) :
    (writtenDouble x).toJson? depth = rereadDouble? x := by
  unfold writtenDouble rereadDouble?
  cases Numeral.ofChars? (writeDouble x) <;> rfl

theorem keys_of_rereadMembers? {members members' : List (String × Json)}
    (h : rereadMembers? members = some members') :
    members'.map Prod.fst = members.map Prod.fst := by
  induction members generalizing members' with
  | nil => exact Option.some.inj h ▸ rfl
  | cons p rest ih =>
      obtain ⟨k, v⟩ := p
      rw [rereadMembers?] at h
      split at h
      · next x xs _ hxs =>
          obtain rfl := Option.some.inj h
          rw [List.map_cons, List.map_cons, ih hxs]
      · exact nomatch h

mutual

theorem toJson?_written : ∀ (v : Json) {depth : Nat}, IsReadable depth v →
    v.written.toJson? depth = v.reread?
  | .null, _, _ | .bool _, _, _ => rfl
  | .int n, _, h => by
      cases h with
      | int h => exact Numeral.value?_ofInt h
  | .double x, depth, _ => toJson?_writtenDouble depth x
  | .str s, _, _ => by
      rw [written, Written.toJson?, textOf?_pieces]
      rfl
  | .arr items, _, h => by
      cases h with
      | arr h =>
          rw [written, Written.toJson?, if_neg (Nat.succ_ne_zero _), Nat.add_sub_cancel,
            itemsToJson?_written items h]
          rfl
  | .obj members, _, h => by
      cases h with
      | obj sorted h =>
          rw [written, Written.toJson?, if_neg (Nat.succ_ne_zero _), Nat.add_sub_cancel,
            membersToJson?_written members h, reread?]
          cases hmembers : rereadMembers? members with
          | none => rfl
          | some members' =>
              -- Reading sorts the members, which changes nothing as the keys stay what they are.
              have hsorted : Keyed.IsSorted members' := by
                rw [Keyed.isSorted_iff_keys, keys_of_rereadMembers? hmembers]
                exact Keyed.isSorted_iff_keys.mp sorted
              rw [Option.map_some, Option.map_some, ofMembers, Keyed.ofList_eq_self hsorted]

theorem itemsToJson?_written : ∀ (items : List Json) {depth : Nat},
    (∀ v ∈ items, IsReadable depth v) →
    Written.itemsToJson? depth (writtenItems items) = rereadItems? items
  | [], _, _ => rfl
  | v :: rest, depth, h => by
      obtain ⟨hv, hrest⟩ := List.forall_mem_cons.mp h
      rw [writtenItems, Written.itemsToJson?, toJson?_written v hv,
        itemsToJson?_written rest hrest]
      rfl

theorem membersToJson?_written : ∀ (members : List (String × Json)) {depth : Nat},
    (∀ p ∈ members, IsReadable depth p.2) →
    Written.membersToJson? depth (writtenMembers members) = rereadMembers? members
  | [], _, _ => rfl
  | (k, v) :: rest, depth, h => by
      obtain ⟨hv, hrest⟩ := List.forall_mem_cons.mp h
      rw [writtenMembers, Written.membersToJson?, rereadMembers?, textOf?_pieces,
        toJson?_written v hv, membersToJson?_written rest hrest]
      cases v.reread? <;> cases rereadMembers? rest <;> rfl

end

theorem readWithin?_write {depth : Nat} {v : Json} (h : IsReadable depth v) :
    readWithin? depth v.write = v.reread? := by
  unfold readWithin?
  rw [Written.ofChars?_write, Option.bind_some]
  exact toJson?_written v h

theorem parse?_compress {v : Json} (h : IsReadable depthLimit v) :
    parse? v.compress = v.reread? := by
  unfold parse? compress
  rw [String.toList_ofList]
  exact readWithin?_write h

/-! ## Doubles -/

mutual

def doubles : Json → List Float
  | .double x => [x]
  | .arr items => itemDoubles items
  | .obj members => memberDoubles members
  | _ => []

def itemDoubles : List Json → List Float
  | [] => []
  | v :: rest => v.doubles ++ itemDoubles rest

def memberDoubles : List (String × Json) → List Float
  | [] => []
  | (_, v) :: rest => v.doubles ++ memberDoubles rest

end

/-- A double whose text is read as that double. -/
def IsStable (x : Float) : Prop := parse? (double x).compress = some (.double x)

theorem rereadDouble?_eq_self_iff {x : Float} :
    rereadDouble? x = some (.double x) ↔ IsStable x := by
  unfold IsStable
  rw [parse?_compress (.double x)]
  rfl

mutual

theorem reread?_eq_self_iff : ∀ v : Json,
    v.reread? = some v ↔ ∀ x ∈ v.doubles, IsStable x
  | .null | .bool _ | .int _ | .str _ => by simp [reread?, doubles]
  | .double x => by simp [reread?, doubles, rereadDouble?_eq_self_iff]
  | .arr items => by
      rw [doubles, ← rereadItems?_eq_self_iff items, reread?]
      simp [Option.map_eq_some_iff]
  | .obj members => by
      rw [doubles, ← rereadMembers?_eq_self_iff members, reread?]
      simp [Option.map_eq_some_iff]

theorem rereadItems?_eq_self_iff : ∀ items : List Json,
    rereadItems? items = some items ↔ ∀ x ∈ itemDoubles items, IsStable x
  | [] => by simp [rereadItems?, itemDoubles]
  | v :: rest => by
      rw [itemDoubles, List.forall_mem_append, ← reread?_eq_self_iff v,
        ← rereadItems?_eq_self_iff rest, rereadItems?]
      cases v.reread? <;> cases rereadItems? rest <;> simp

theorem rereadMembers?_eq_self_iff : ∀ members : List (String × Json),
    rereadMembers? members = some members ↔ ∀ x ∈ memberDoubles members, IsStable x
  | [] => by simp [rereadMembers?, memberDoubles]
  | (k, v) :: rest => by
      rw [memberDoubles, List.forall_mem_append, ← reread?_eq_self_iff v,
        ← rereadMembers?_eq_self_iff rest, rereadMembers?]
      cases v.reread? <;> cases rereadMembers? rest <;> simp

end

theorem get?_rereadMembers? {members members' : List (String × Json)}
    (h : rereadMembers? members = some members') (key : String) :
    Keyed.get? key members' = (Keyed.get? key members).bind reread? := by
  induction members generalizing members' with
  | nil => exact Option.some.inj h ▸ rfl
  | cons p rest ih =>
      obtain ⟨k, v⟩ := p
      rw [rereadMembers?] at h
      split at h
      · next x xs hx hxs =>
          obtain rfl := Option.some.inj h
          unfold Keyed.get?
          split
          · rw [Option.bind_some, hx]
          · exact ih hxs
      · exact nomatch h

theorem text?_of_reread? {v v' : Json} (h : v.reread? = some v') {key s : String}
    (hs : v.text? key = some s) : v'.text? key = some s := by
  obtain ⟨w, hw, hstr⟩ := Option.bind_eq_some_iff.mp hs
  cases v with
  | obj members =>
      obtain ⟨members', hmembers, rfl⟩ := Option.map_eq_some_iff.mp h
      have hget : Keyed.get? key members' = w.reread? := by
        rw [get?_rereadMembers? hmembers key]
        exact congrArg (Option.bind · reread?) hw
      cases w with
      | str t => exact (congrArg (Option.bind · asStr?) hget).trans hstr
      | _ => exact nomatch hstr
  | _ => exact nomatch hw

end ChangeCapture.Json
