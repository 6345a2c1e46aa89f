import ChangeCapture.Json.Basic
import ChangeCapture.Number.Shortest

/-!
# Printing JSON

The compact form: no blanks, members in the order of the object, doubles as their shortest decimals.
-/

namespace ChangeCapture.Json

/-- Doubles are written in full from `1e-5` up to `1e16` and with a signed exponent elsewhere. -/
def doubleLayout : Number.Layout := ⟨.even, -4, 16, true⟩

/-- A double; infinities and what is no number have no form of their own. -/
def writeDouble (x : Float) : List Char :=
  match Number.readDouble x.toBits with
  | .finite negative m => (if negative then ['-'] else []) ++ doubleLayout.magnitude m
  | _ => ['n', 'u', 'l', 'l']

def escape (c : Char) : List Char :=
  if c = '"' then ['\\', '"']
  else if c = '\\' then ['\\', '\\']
  else if c = '\x08' then ['\\', 'b']
  else if c = '\x0c' then ['\\', 'f']
  else if c = '\n' then ['\\', 'n']
  else if c = '\r' then ['\\', 'r']
  else if c = '\t' then ['\\', 't']
  else if c.toNat < 0x20 then
    ['\\', 'u', '0', '0', Text.hexDigit (c.toNat / 16), Text.hexDigit (c.toNat % 16)]
  else [c]

def writeText (cs : List Char) : List Char := '"' :: cs.flatMap escape ++ ['"']

mutual

def write : Json → List Char
  | .null => ['n', 'u', 'l', 'l']
  | .bool true => ['t', 'r', 'u', 'e']
  | .bool false => ['f', 'a', 'l', 's', 'e']
  | .int n => Text.writeInt n
  | .double x => writeDouble x
  | .str s => writeText s.toList
  | .arr items => '[' :: writeItems items ++ [']']
  | .obj members => '{' :: writeMembers members ++ ['}']

def writeItems : List Json → List Char
  | [] => []
  | [v] => v.write
  | v :: rest => v.write ++ ',' :: writeItems rest

def writeMembers : List (String × Json) → List Char
  | [] => []
  | [(k, v)] => writeText k.toList ++ ':' :: v.write
  | (k, v) :: rest => writeText k.toList ++ ':' :: (v.write ++ ',' :: writeMembers rest)

end

/-- The compact form of a value. -/
def compress (v : Json) : String := String.ofList v.write

end ChangeCapture.Json
