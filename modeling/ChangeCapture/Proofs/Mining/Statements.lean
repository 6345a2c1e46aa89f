import ChangeCapture.Mining.Database
import Mathlib.Data.List.Basic

/-!
# Statements read back

A literal is read by the rule that two quotes stand for one and any other quote ends it. Read by
this rule the block that registers a file tells its file, so different files have different blocks,
and none of them is the block that starts mining or the block that ends it.
-/

namespace ChangeCapture.Mining

namespace LogFile

/-- What stands in a literal up to its closing quote, and what follows the quote. -/
def readLiteral? : List Char → Option (List Char × List Char)
  | [] => none
  | [c] => if c = '\x27' then some ([], []) else none
  | c :: d :: rest =>
      if c ≠ '\x27' then (readLiteral? (d :: rest)).map fun p => (c :: p.1, p.2)
      else if d = '\x27' then (readLiteral? rest).map fun p => ('\x27' :: p.1, p.2)
      else some ([], d :: rest)

theorem readLiteral?_cons_of_ne {c : Char} (hc : c ≠ '\x27') (cs : List Char) :
    readLiteral? (c :: cs) = (readLiteral? cs).map fun p => (c :: p.1, p.2) := by
  cases cs with
  | nil => simp [readLiteral?, hc]
  | cons d rest => simp [readLiteral?, hc]

theorem readLiteral?_quotes (cs : List Char) :
    readLiteral? ('\x27' :: '\x27' :: cs) =
      (readLiteral? cs).map fun p => ('\x27' :: p.1, p.2) := by
  simp [readLiteral?]

theorem readLiteral?_close {rest : List Char} (h : rest.head? ≠ some '\x27') :
    readLiteral? ('\x27' :: rest) = some ([], rest) := by
  cases rest with
  | nil => simp [readLiteral?]
  | cons d rest =>
      have hd : d ≠ '\x27' := by simpa using h
      simp [readLiteral?, hd]

theorem readLiteral?_doubleQuote (s : List Char) {rest : List Char}
    (h : rest.head? ≠ some '\x27') :
    readLiteral? (s.flatMap doubleQuote ++ '\x27' :: rest) = some (s, rest) := by
  induction s with
  | nil => simpa using readLiteral?_close h
  | cons c s ih =>
      by_cases hc : c = '\x27'
      · subst hc
        simp [doubleQuote, readLiteral?_quotes, ih]
      · simp [doubleQuote, hc, readLiteral?_cons_of_ne, ih]

/-- What was read is the literal with its quotes doubled. -/
theorem eq_doubleQuote_of_readLiteral? {cs s rest : List Char}
    (h : readLiteral? cs = some (s, rest)) : cs = s.flatMap doubleQuote ++ '\x27' :: rest := by
  fun_induction readLiteral? cs generalizing s with
  | case1 => simp at h
  | case2 =>
      obtain ⟨rfl, rfl⟩ : [] = s ∧ [] = rest := by simpa using h
      simp
  | case3 => simp at h
  | case4 c d cs hc ih =>
      obtain ⟨⟨s, r⟩, hs, he⟩ := Option.map_eq_some_iff.mp h
      obtain ⟨rfl, rfl⟩ : c :: s = _ ∧ r = rest := by simpa using he
      simp [doubleQuote, hc, ih hs]
  | case5 c cs hc ih =>
      obtain ⟨⟨s, r⟩, hs, he⟩ := Option.map_eq_some_iff.mp h
      obtain ⟨rfl, rfl⟩ : '\x27' :: s = _ ∧ r = rest := by simpa using he
      have hc : c = '\x27' := by simpa using hc
      simp [doubleQuote, hc, ih hs]
  | case6 c d cs hc hd =>
      obtain ⟨rfl, rfl⟩ : [] = s ∧ d :: cs = rest := by simpa using h
      have hc : c = '\x27' := by simpa using hc
      simp [hc]

/-- The file that a block registers. -/
def ofBlock? (text : String) : Option LogFile :=
  match text.toList.dropPrefix? (beforeLiteral.toList ++ ['\x27']) with
  | none => none
  | some body =>
      match readLiteral? body with
      | none => none
      | some (path, rest) =>
          if rest = afterLiteral.toList then some ⟨String.ofList path⟩ else none

theorem toList_addBlock (f : LogFile) :
    f.addBlock.toList = (beforeLiteral.toList ++ ['\x27']) ++
      (f.path.toList.flatMap doubleQuote ++ '\x27' :: afterLiteral.toList) := by
  simp [addBlock, literalBody]

theorem head?_afterLiteral : afterLiteral.toList.head? ≠ some '\x27' := by decide

@[simp] theorem ofBlock?_addBlock (f : LogFile) : ofBlock? f.addBlock = some f := by
  have hbody : f.addBlock.toList.dropPrefix? (beforeLiteral.toList ++ ['\x27']) =
      some (f.path.toList.flatMap doubleQuote ++ '\x27' :: afterLiteral.toList) := by
    rw [toList_addBlock]
    exact List.dropPrefix?_append_of_beq _ (by simp)
  simp [ofBlock?, hbody, readLiteral?_doubleQuote _ head?_afterLiteral]

/-- A block that is read as registering a file is the block of that file. -/
theorem eq_addBlock_of_ofBlock? {text : String} {f : LogFile} (h : ofBlock? text = some f) :
    text = f.addBlock := by
  unfold ofBlock? at h
  split at h
  · simp at h
  · next body hbody =>
      split at h
      · simp at h
      · next path rest hpath =>
          split at h
          · next hrest =>
              obtain rfl : (⟨String.ofList path⟩ : LogFile) = f := by simpa using h
              obtain ⟨p, hp, hb⟩ := List.dropPrefix?_eq_some_iff.mp hbody
              have hp' : p = beforeLiteral.toList ++ ['\x27'] := by simpa using hb
              apply String.toList_inj.mp
              rw [hp, hp', eq_doubleQuote_of_readLiteral? hpath, hrest, toList_addBlock]
              simp
          · simp at h

theorem ofBlock?_eq_some_iff {text : String} {f : LogFile} :
    ofBlock? text = some f ↔ text = f.addBlock :=
  ⟨eq_addBlock_of_ofBlock?, fun h => h ▸ ofBlock?_addBlock f⟩

theorem addBlock_injective : Function.Injective addBlock := by
  intro f g h
  have hf : ofBlock? f.addBlock = some g := by rw [h, ofBlock?_addBlock]
  simpa using hf

@[simp] theorem ofBlock?_startBlock : ofBlock? Options.fixed.startBlock = none := by decide +kernel

@[simp] theorem ofBlock?_endBlock : ofBlock? endBlock = none := by decide +kernel

theorem addBlock_ne_startBlock (f : LogFile) : f.addBlock ≠ Options.fixed.startBlock := by
  intro h
  have hf := ofBlock?_addBlock f
  simp [h] at hf

theorem addBlock_ne_endBlock (f : LogFile) : f.addBlock ≠ endBlock := by
  intro h
  have hf := ofBlock?_addBlock f
  simp [h] at hf

/-- The first literal of a text and what follows it. -/
def firstLiteral? (text : String) : Option (String × String) :=
  match text.toList.dropWhile fun c => c ≠ '\x27' with
  | [] => none
  | _ :: body => (readLiteral? body).map fun p => (String.ofList p.1, String.ofList p.2)

theorem dropWhile_addBlock (f : LogFile) :
    (f.addBlock.toList.dropWhile fun c => c ≠ '\x27') =
      '\x27' :: (f.path.toList.flatMap doubleQuote ++ '\x27' :: afterLiteral.toList) := by
  have hbefore : beforeLiteral.toList.all fun c => c ≠ '\x27' := by decide +kernel
  rw [toList_addBlock, List.append_assoc,
    List.dropWhile_append_of_pos (List.all_eq_true.mp hbefore)]
  exact List.dropWhile_cons_of_neg (by decide)

/-- The literal of a block is the path of its file, and only the fixed end of the block is left
behind it, whatever the path holds. -/
theorem firstLiteral?_addBlock (f g : LogFile) :
    firstLiteral? f.addBlock = some (f.path, ", OPTIONS => DBMS_LOGMNR.ADDFILE); END;") ∧
      (f.addBlock = g.addBlock ↔ f.path = g.path) := by
  constructor
  · rw [firstLiteral?, dropWhile_addBlock]
    simp only [readLiteral?_doubleQuote _ head?_afterLiteral, Option.map_some, String.ofList_toList]
    rfl
  · rw [addBlock_injective.eq_iff, LogFile.mk.injEq]

end LogFile

theorem startBlock_ne_endBlock : Options.fixed.startBlock ≠ endBlock := by decide +kernel

end ChangeCapture.Mining
