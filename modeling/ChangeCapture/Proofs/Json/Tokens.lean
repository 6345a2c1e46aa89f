import ChangeCapture.Json.Written
import ChangeCapture.Proofs.Json.Numerals

/-!
# Tokens of printed JSON

The tree that a printed value is the text of, and that its text is cut into the tokens of that tree.
-/

namespace ChangeCapture.Json

namespace Written

mutual

def tokens : Written → List Token
  | .null => [.null]
  | .bool b => [.bool b]
  | .number n => [.number n]
  | .text pieces => [.text pieces]
  | .array items => .arrayOpen :: (itemTokens items ++ [.arrayClose])
  | .object members => .objectOpen :: (memberTokens members ++ [.objectClose])

def itemTokens : List Written → List Token
  | [] => []
  | [v] => v.tokens
  | v :: rest => v.tokens ++ .comma :: itemTokens rest

def memberTokens : List (List Piece × Written) → List Token
  | [] => []
  | [(key, v)] => .text key :: .colon :: v.tokens
  | (key, v) :: rest => .text key :: .colon :: (v.tokens ++ .comma :: memberTokens rest)

end

end Written

/-- How a character of a text is written: most control characters by their code. -/
def pieceOf (c : Char) : Piece :=
  if c.toNat < 0x20 ∧ c ∉ ['\x08', '\x0c', '\n', '\r', '\t'] then .unit c.toNat else .char c

def pieces (s : String) : List Piece := s.toList.map pieceOf

/-- The tree of a double; what is not finite has none of its own. -/
def writtenDouble (x : Float) : Written :=
  match Numeral.ofChars? (writeDouble x) with
  | some n => .number n
  | none => .null

mutual

/-- The tree of the text of a value. -/
def written : Json → Written
  | .null => .null
  | .bool b => .bool b
  | .int n => .number (.ofInt n)
  | .double x => writtenDouble x
  | .str s => .text (pieces s)
  | .arr items => .array (writtenItems items)
  | .obj members => .object (writtenMembers members)

def writtenItems : List Json → List Written
  | [] => []
  | v :: rest => v.written :: writtenItems rest

def writtenMembers : List (String × Json) → List (List Piece × Written)
  | [] => []
  | (k, v) :: rest => (pieces k, v.written) :: writtenMembers rest

end

namespace Token

variable {done : List Token} {rest : List Char}

/-- A text that ends whatever run is open. -/
def EndsRun (rest : List Char) : Prop := ∀ c cs, rest = c :: cs → isRunChar c = false

theorem scan_mark {c : Char} {t : Token} (h : start? c = some ([t], .between)) :
    scan .between done (c :: rest) = scan .between (t :: done) rest := by
  rw [scan]
  simp [step?, h]

theorem scan_run_append {run held : List Char} (h : ∀ c ∈ run, isRunChar c) :
    scan (.run held) done (run ++ rest) = scan (.run (run.reverse ++ held)) done rest := by
  induction run generalizing held with
  | nil => rfl
  | cons c cs ih =>
      rw [List.cons_append, scan, step?, if_pos (h c List.mem_cons_self)]
      have hcs : ∀ d ∈ cs, isRunChar d := fun d hd => h d (List.mem_cons_of_mem c hd)
      rw [List.reverse_cons, List.append_assoc]
      exact ih hcs

theorem scan_run_end {run : List Char} {t : Token} (h : ofRun? run.reverse = some t)
    (hrest : EndsRun rest) : scan (.run run) done rest = scan .between (t :: done) rest := by
  cases rest with
  | nil => simp [scan, finish?, h]
  | cons c cs =>
      have hc : isRunChar c = false := hrest c cs rfl
      rw [scan, scan, step?, step?, hc, h]
      cases hstart : start? c with
      | none => rfl
      | some p => simp

/-- A text that is cut into tokens whatever follows that is no part of its last run. -/
def ScansTo (cs : List Char) (ts : List Token) : Prop :=
  ∀ done rest, EndsRun rest →
    scan .between done (cs ++ rest) = scan .between (ts.reverse ++ done) rest

theorem start?_runChar {c : Char} (h : isRunChar c) : start? c = some ([], .run [c]) := by
  have hblank : isBlank c = false := by
    rw [Bool.eq_false_iff]
    intro hblank
    simp only [isBlank, Bool.or_eq_true, decide_eq_true_eq] at hblank
    rcases hblank with ((rfl | rfl) | rfl) | rfl <;> exact nomatch h
  have hquote : c ≠ '"' := by
    rintro rfl
    exact nomatch h
  unfold start?
  simp [hblank, hquote, h]

theorem scansTo_run {run : List Char} {t : Token} (hne : run ≠ [])
    (hrun : ∀ c ∈ run, isRunChar c) (ht : ofRun? run = some t) : ScansTo run [t] := by
  intro done rest hrest
  obtain ⟨c, cs, rfl⟩ := List.exists_cons_of_ne_nil hne
  have hstart := start?_runChar (hrun c List.mem_cons_self)
  have hcs : ∀ d ∈ cs, isRunChar d := fun d hd => hrun d (List.mem_cons_of_mem c hd)
  rw [List.cons_append, scan, step?, hstart]
  dsimp only [List.reverse_nil, List.nil_append]
  rw [scan_run_append hcs, scan_run_end (t := t) (by simpa using ht) hrest]
  rfl

theorem scansTo_chars {n : Numeral} (h : n.IsProper) : ScansTo n.chars [.number n] := by
  refine scansTo_run ?_ (fun c hc => Numeral.isRunChar_of_mem_chars h hc) (Numeral.ofRun?_chars h)
  intro hnil
  have hread := Numeral.ofChars?_chars h
  rw [hnil] at hread
  exact nomatch hread

theorem scansTo_writeDouble (x : Float) : ScansTo (writeDouble x) (writtenDouble x).tokens := by
  unfold writtenDouble
  rcases Numeral.exists_writeDouble x with hnull | ⟨n, hn, hchars⟩
  · have hnone : Numeral.ofChars? ['n', 'u', 'l', 'l'] = none := by decide
    rw [hnull, hnone]
    exact scansTo_run (List.cons_ne_nil _ _) (List.all_eq_true.mp rfl) rfl
  · rw [hchars, Numeral.ofChars?_chars hn]
    exact scansTo_chars hn

/-! ## Texts -/

theorem hexValue?_hexDigit : ∀ d < 16, Text.hexValue? (Text.hexDigit d) = some d := by decide

theorem scan_unit {n : Nat} (hn : n < 0x20) (ps : List Piece) :
    scan (.text ps) done ('\\' :: 'u' :: '0' :: '0' :: Text.hexDigit (n / 16) ::
      Text.hexDigit (n % 16) :: rest) = scan (.text (.unit n :: ps)) done rest := by
  have hhigh := hexValue?_hexDigit (n / 16) (by omega)
  have hlow := hexValue?_hexDigit (n % 16) (by omega)
  have hzero : Text.hexValue? '0' = some 0 := rfl
  have hvalue : 16 * (n / 16) + n % 16 = n := Nat.div_add_mod n 16
  simp [scan, step?, hhigh, hlow, hzero, hvalue]

theorem scan_escape (c : Char) (ps : List Piece) :
    scan (.text ps) done (escape c ++ rest) = scan (.text (pieceOf c :: ps)) done rest := by
  by_cases hshort : c ∈ ['"', '\\', '\x08', '\x0c', '\n', '\r', '\t']
  · simp only [List.mem_cons, List.not_mem_nil, or_false] at hshort
    rcases hshort with rfl | rfl | rfl | rfl | rfl | rfl | rfl <;> rfl
  · simp only [List.mem_cons, List.not_mem_nil, or_false, not_or] at hshort
    obtain ⟨hquote, hslash, hb, hf, hn, hr, ht⟩ := hshort
    by_cases hcontrol : c.toNat < 0x20
    · have hpiece : pieceOf c = .unit c.toNat := by simp [pieceOf, hcontrol, hb, hf, hn, hr, ht]
      rw [hpiece, ← scan_unit hcontrol]
      simp [escape, hquote, hslash, hb, hf, hn, hr, ht, hcontrol]
    · have hpiece : pieceOf c = .char c := by simp [pieceOf, hcontrol]
      rw [hpiece]
      simp [escape, scan, step?, hquote, hslash, hb, hf, hn, hr, ht, hcontrol]

theorem scan_text (cs : List Char) (ps : List Piece) :
    scan (.text ps) done (cs.flatMap escape ++ '"' :: rest) =
      scan .between (.text (ps.reverse ++ cs.map pieceOf) :: done) rest := by
  induction cs generalizing ps with
  | nil => simp [scan, step?]
  | cons c cs ih =>
      rw [List.flatMap_cons, List.append_assoc, scan_escape, ih]
      simp

theorem scansTo_writeText (s : String) : ScansTo (writeText s.toList) [.text (pieces s)] := by
  intro done rest _
  have hstart : start? '"' = some ([], .text []) := rfl
  unfold writeText
  rw [List.append_assoc, List.cons_append, scan, step?, hstart]
  exact scan_text s.toList []

/-! ## Values -/

theorem endsRun_cons {c : Char} {cs : List Char} (h : isRunChar c = false) : EndsRun (c :: cs) := by
  intro d ds heq
  obtain ⟨rfl, -⟩ := List.cons.inj heq
  exact h

theorem ScansTo.append {cs cs' : List Char} {ts ts' : List Token} (h : ScansTo cs ts)
    (h' : ScansTo cs' ts') (hends : ∀ rest, EndsRun (cs' ++ rest)) :
    ScansTo (cs ++ cs') (ts ++ ts') := by
  intro done rest hrest
  rw [List.append_assoc, h done (cs' ++ rest) (hends rest), h' _ rest hrest]
  simp

theorem ScansTo.cons {c : Char} {cs : List Char} {t : Token} {ts : List Token}
    (hstart : start? c = some ([t], .between)) (h : ScansTo cs ts) :
    ScansTo (c :: cs) (t :: ts) := by
  intro done rest hrest
  rw [List.cons_append, scan_mark hstart, h _ rest hrest]
  simp

theorem ScansTo.nil : ScansTo [] [] := fun _ _ _ => rfl

end Token

open Token Written

mutual

theorem scansTo_write : ∀ v : Json, ScansTo v.write v.written.tokens
  | .null => scansTo_run (List.cons_ne_nil _ _) (List.all_eq_true.mp rfl) rfl
  | .bool true => scansTo_run (List.cons_ne_nil _ _) (List.all_eq_true.mp rfl) rfl
  | .bool false => scansTo_run (List.cons_ne_nil _ _) (List.all_eq_true.mp rfl) rfl
  | .int n => by
      rw [write, Numeral.writeInt_eq_chars]
      exact scansTo_chars (Numeral.isProper_ofInt n)
  | .double x => scansTo_writeDouble x
  | .str s => scansTo_writeText s
  | .arr items =>
      .cons rfl ((scansTo_writeItems items).append (.cons rfl .nil) fun _ => endsRun_cons rfl)
  | .obj members =>
      .cons rfl ((scansTo_writeMembers members).append (.cons rfl .nil) fun _ => endsRun_cons rfl)

theorem scansTo_writeItems : ∀ items : List Json,
    ScansTo (writeItems items) (itemTokens (writtenItems items))
  | [] => .nil
  | [v] => scansTo_write v
  | v :: w :: rest =>
      (scansTo_write v).append (.cons rfl (scansTo_writeItems (w :: rest)))
        fun _ => endsRun_cons rfl

theorem scansTo_writeMembers : ∀ members : List (String × Json),
    ScansTo (writeMembers members) (memberTokens (writtenMembers members))
  | [] => .nil
  | [(k, v)] =>
      (scansTo_writeText k).append (.cons rfl (scansTo_write v)) fun _ => endsRun_cons rfl
  | (k, v) :: m :: rest =>
      (scansTo_writeText k).append (.cons rfl ((scansTo_write v).append
        (.cons rfl (scansTo_writeMembers (m :: rest))) fun _ => endsRun_cons rfl))
        fun _ => endsRun_cons rfl

end

/-- The text of a value is cut into the tokens of its tree. -/
theorem tokens_of_write (v : Json) : Token.ofChars? v.write = some v.written.tokens := by
  have hends : EndsRun [] := fun _ _ h => nomatch h
  have hscan := scansTo_write v [] [] hends
  rw [List.append_nil] at hscan
  unfold Token.ofChars?
  rw [hscan]
  simp [scan, finish?]

end ChangeCapture.Json
