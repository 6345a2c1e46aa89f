import ChangeCapture.Text.Integer

/-!
# JSON tokens

A text is cut into tokens one character at a time. Numbers and strings keep their written form: what
they stand for, and whether they stand for anything, is decided where they are read.
-/

namespace ChangeCapture.Json

/-- A piece of a written string: a character, or the code unit of a `\u` escape. -/
inductive Piece
  | char (c : Char)
  | unit (n : Nat)
  deriving DecidableEq, Repr

/-- A number as written. The parts after the point and after the mark of the exponent may be absent;
the digits of a part are never empty. -/
structure Numeral where
  negative : Bool
  whole : List Char
  fraction : Option (List Char)
  exponent : Option (Bool × List Char)
  deriving DecidableEq, Repr

inductive Token
  | arrayOpen
  | arrayClose
  | objectOpen
  | objectClose
  | comma
  | colon
  | null
  | bool (b : Bool)
  | number (numeral : Numeral)
  | text (pieces : List Piece)
  deriving DecidableEq, Repr

def isDigit (c : Char) : Bool := (Text.digit? c).isSome

namespace Numeral

/-- Digits with an optional sign; `true` stands for a negative exponent. -/
def exponentOf? : List Char → Option (Bool × List Char)
  | '+' :: ds => if ds.isEmpty || !ds.all isDigit then none else some (false, ds)
  | '-' :: ds => if ds.isEmpty || !ds.all isDigit then none else some (true, ds)
  | ds => if ds.isEmpty || !ds.all isDigit then none else some (false, ds)

/-- What follows the digits of the whole part and of the fraction. -/
def finish? (negative : Bool) (whole : List Char) (fraction : Option (List Char)) :
    List Char → Option Numeral
  | [] => some ⟨negative, whole, fraction, none⟩
  | c :: cs =>
      if c = 'e' ∨ c = 'E' then (exponentOf? cs).map fun e => ⟨negative, whole, fraction, some e⟩
      else none

def afterWhole? (negative : Bool) (whole : List Char) : List Char → Option Numeral
  | '.' :: cs =>
      let ds := cs.takeWhile isDigit
      if ds.isEmpty then none else finish? negative whole (some ds) (cs.dropWhile isDigit)
  | cs => finish? negative whole none cs

/-- A whole part is a single zero or starts with another digit. -/
def unsigned? (negative : Bool) (cs : List Char) : Option Numeral :=
  match cs.takeWhile isDigit with
  | [] => none
  | ['0'] => afterWhole? negative ['0'] (cs.dropWhile isDigit)
  | '0' :: _ => none
  | ds => afterWhole? negative ds (cs.dropWhile isDigit)

def ofChars? : List Char → Option Numeral
  | '-' :: cs => unsigned? true cs
  | cs => unsigned? false cs

end Numeral

namespace Token

/-- The token of a run of letters, digits, signs and points. -/
def ofRun? (run : List Char) : Option Token :=
  if run = ['n', 'u', 'l', 'l'] then some .null
  else if run = ['t', 'r', 'u', 'e'] then some (.bool true)
  else if run = ['f', 'a', 'l', 's', 'e'] then some (.bool false)
  else (Numeral.ofChars? run).map .number

/-- The character that a one-letter escape stands for. -/
def escaped? (c : Char) : Option Char :=
  if c = '"' then some '"'
  else if c = '\\' then some '\\'
  else if c = '/' then some '/'
  else if c = 'b' then some '\x08'
  else if c = 'f' then some '\x0c'
  else if c = 'n' then some '\n'
  else if c = 'r' then some '\r'
  else if c = 't' then some '\t'
  else none

def mark? (c : Char) : Option Token :=
  if c = '[' then some .arrayOpen
  else if c = ']' then some .arrayClose
  else if c = '{' then some .objectOpen
  else if c = '}' then some .objectClose
  else if c = ',' then some .comma
  else if c = ':' then some .colon
  else none

def isBlank (c : Char) : Bool := c = ' ' || c = '\n' || c = '\r' || c = '\t'

def isRunChar (c : Char) : Bool :=
  isDigit c || c.isAlpha || c = '-' || c = '+' || c = '.'

/-- Where a scan stands between two characters. Collected parts are in reverse. -/
inductive Mode
  | between
  | run (done : List Char)
  | text (done : List Piece)
  | escape (done : List Piece)
  | unit (done : List Piece) (count : Nat) (value : Nat)

/-- A character outside of strings and runs: the tokens it completes and the mode after it. -/
def start? (c : Char) : Option (List Token × Mode) :=
  if isBlank c then some ([], .between)
  else if c = '"' then some ([], .text [])
  else if isRunChar c then some ([], .run [c])
  else (mark? c).map fun t => ([t], .between)

def step? : Mode → Char → Option (List Token × Mode)
  | .between, c => start? c
  | .run done, c =>
      if isRunChar c then some ([], .run (c :: done))
      else
        match ofRun? done.reverse, start? c with
        | some t, some (ts, mode) => some (t :: ts, mode)
        | _, _ => none
  | .text done, c =>
      if c = '"' then some ([.text done.reverse], .between)
      else if c = '\\' then some ([], .escape done)
      else if c.toNat < 0x20 then none
      else some ([], .text (.char c :: done))
  | .escape done, c =>
      if c = 'u' then some ([], .unit done 0 0)
      else (escaped? c).map fun x => ([], .text (.char x :: done))
  | .unit done count value, c =>
      match Text.hexValue? c with
      | none => none
      | some d =>
          if count = 3 then some ([], .text (.unit (16 * value + d) :: done))
          else some ([], .unit done (count + 1) (16 * value + d))

/-- The tokens that the end of the text completes. -/
def finish? : Mode → Option (List Token)
  | .between => some []
  | .run done => (ofRun? done.reverse).map ([·])
  | _ => none

/-- The tokens of a text from a mode on, after those in `done`, which are in reverse. -/
def scan : Mode → List Token → List Char → Option (List Token)
  | mode, done, [] => (finish? mode).map (done.reverse ++ ·)
  | mode, done, c :: cs =>
      match step? mode c with
      | none => none
      | some (ts, next) => scan next (ts.reverse ++ done) cs

/-- All tokens of a text. -/
def ofChars? (cs : List Char) : Option (List Token) := scan .between [] cs

end Token

end ChangeCapture.Json
