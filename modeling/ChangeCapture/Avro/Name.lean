/-!
# Names of types

A type is named by a label and, if it has one, the namespace it lives in. Labels are identifiers;
namespaces are identifiers joined by points.
-/

namespace ChangeCapture.Avro

def isIdentifierStart (c : Char) : Bool := c.isAlpha || c = '_'

def isIdentifierChar (c : Char) : Bool := c.isAlpha || c.isDigit || c = '_'

def isIdentifier : List Char → Bool
  | [] => false
  | c :: cs => isIdentifierStart c && cs.all isIdentifierChar

/-- The parts of a text between its points. -/
def segments : List Char → List (List Char)
  | [] => [[]]
  | c :: cs =>
      if c = '.' then [] :: segments cs
      else
        match segments cs with
        | [] => [[c]]
        | s :: rest => (c :: s) :: rest

/-- A text that may serve as a namespace: nothing, or identifiers joined by points. -/
def isNamespace (cs : List Char) : Bool := cs.isEmpty || (segments cs).all isIdentifier

structure Name where
  label : String
  space : Option String
  deriving DecidableEq, Repr

/-- A name as written: the part in front of the last point, which may be empty, and the label. -/
structure Spelling where
  space : Option String
  label : String
  deriving DecidableEq, Repr

namespace Spelling

/-- Cuts at the last point, if there is one. -/
def cut : List Char → Option (List Char) × List Char
  | [] => (none, [])
  | c :: cs =>
      match cut cs with
      | (some space, label) => (some (c :: space), label)
      | (none, label) => if c = '.' then (some [], label) else (none, c :: label)

def ofText? (s : String) : Option Spelling :=
  match cut s.toList with
  | (none, label) => if isIdentifier label then some ⟨none, s⟩ else none
  | (some space, label) =>
      if isNamespace space && isIdentifier label then
        some ⟨some (String.ofList space), String.ofList label⟩
      else none

end Spelling

namespace Name

/-- An empty namespace is none. -/
def nonempty (space : Option String) : Option String := space.filter (· ≠ "")

/-- The name that a written name refers to, before it is seen where it stands. -/
def ofText? (s : String) : Option Name :=
  (Spelling.ofText? s).map fun w => ⟨w.label, nonempty w.space⟩

/-- The full name of a name that stands inside a namespace. -/
def within (space : Option String) (n : Name) : Name := ⟨n.label, n.space.or space⟩

end Name

end ChangeCapture.Avro
