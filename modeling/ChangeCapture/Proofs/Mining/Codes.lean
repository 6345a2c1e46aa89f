import ChangeCapture.Mining.Session
import ChangeCapture.Proofs.Text.Integers
import Mathlib.Data.List.Infix
import Mathlib.Data.List.TakeWhile
import Std.Data.HashSet.Lemmas

/-!
# Error numbers in messages

The messages of a database are free text. The number of an error is written in one by the digits
behind a mark, and a mark can stand in a message without digits, in a path for instance. Only the
first mark of a message is looked at, so a message whose first mark is bare reports no number,
whatever is written behind it.
-/

namespace ChangeCapture.Mining

namespace OraCode

/-- What stands in front of an error number. -/
def mark : List Char := "ORA-".toList

/-- The digits behind a mark at the beginning of a text. -/
def markedDigits (cs : List Char) : List Char :=
  if mark <+: cs then (cs.drop mark.length).takeWhile Char.isDigit else []

/-- The number that digits write, if it fits 32 bits. -/
def ofDigits? (ds : List Char) : Option OraCode :=
  if Nat.ofDigitChars 10 ds 0 < 2 ^ 32 then some (.ofNat (Nat.ofDigitChars 10 ds 0)) else none

/-- The text from its first mark on. -/
def fromMark? (cs : List Char) : Option (List Char) := cs.tails.find? fun t => mark <+: t

/-- The first error number in a message: what the digits write behind the first mark that has a
digit directly behind it. -/
def written? (message : String) : Option OraCode :=
  ((message.toList.tails.map markedDigits).find? fun ds => ds ≠ []).bind ofDigits?

/-- The first mark of a message has no digit behind it. -/
def beginsBare (message : String) : Bool :=
  (fromMark? message.toList).any fun cs => markedDigits cs = []

theorem markedDigits_eq_nil {cs : List Char} (h : ¬mark <+: cs) : markedDigits cs = [] :=
  if_neg h

theorem isDigit_of_mem_markedDigits {cs : List Char} {c : Char} (h : c ∈ markedDigits cs) :
    c.isDigit := by
  by_cases hmark : mark <+: cs
  · rw [markedDigits, if_pos hmark] at h
    exact List.mem_takeWhile_imp h
  · rw [markedDigits_eq_nil hmark] at h
    exact nomatch h

theorem isPrefix_of_fromMark? {cs t : List Char} (h : fromMark? cs = some t) : mark <+: t := by
  simpa using List.find?_some h

theorem fromMark?_of_isPrefix {cs : List Char} (h : mark <+: cs) : fromMark? cs = some cs := by
  cases cs with
  | nil => exact absurd (List.prefix_nil.mp h) (by decide)
  | cons c cs => simp [fromMark?, h]

theorem fromMark?_cons {c : Char} {cs : List Char} (h : ¬mark <+: c :: cs) :
    fromMark? (c :: cs) = fromMark? cs := by
  simp [fromMark?, h]

theorem afterMark?_cons {c : Char} {cs : List Char} (h : ¬mark <+: c :: cs) :
    afterMark? (c :: cs) = afterMark? cs := by
  rw [afterMark?]
  rintro rest rfl rfl
  exact h ⟨rest, rfl⟩

theorem afterMark?_eq (cs : List Char) :
    afterMark? cs = (fromMark? cs).map (List.drop mark.length) := by
  induction cs with
  | nil => rfl
  | cons c cs ih =>
      by_cases h : mark <+: c :: cs
      · rw [fromMark?_of_isPrefix h, Option.map_some]
        obtain ⟨rest, hrest⟩ := h
        rw [← hrest, List.drop_left]
        rfl
      · rw [fromMark?_cons h, afterMark?_cons h, ih]

theorem ofMessage?_eq_bind (message : String) :
    ofMessage? message =
      (fromMark? message.toList).bind fun cs => Text.readUInt32? (markedDigits cs) := by
  rw [ofMessage?, afterMark?_eq, Option.bind_map]
  cases hfirst : fromMark? message.toList with
  | none => rfl
  | some cs =>
      simp only [Option.bind_some, Function.comp_apply, Text.digit?_isSome, markedDigits,
        if_pos (isPrefix_of_fromMark? hfirst)]

theorem readUInt32?_markedDigits {cs : List Char} (h : markedDigits cs ≠ []) :
    Text.readUInt32? (markedDigits cs) = ofDigits? (markedDigits cs) :=
  Text.readUInt32?_eq h fun _ => isDigit_of_mem_markedDigits

theorem find?_markedDigits {before : List (List Char)} (h : ∀ t ∈ before, ¬mark <+: t) :
    (before.map markedDigits).find? (fun ds => ds ≠ []) = none := by
  refine List.find?_eq_none.mpr fun ds hds => ?_
  obtain ⟨t, ht, rfl⟩ := List.mem_map.mp hds
  simpa using markedDigits_eq_nil (h t ht)

/-- The first error number of a message is found, unless a mark without digits is met before it. -/
theorem ofMessage?_eq (message : String) :
    ofMessage? message = if beginsBare message then none else written? message := by
  rw [ofMessage?_eq_bind, beginsBare, written?]
  cases hfirst : fromMark? message.toList with
  | none =>
      have hunmarked : ∀ t ∈ message.toList.tails, ¬mark <+: t := by
        simpa using List.find?_eq_none.mp hfirst
      rw [find?_markedDigits hunmarked]
      rfl
  | some cs =>
      by_cases hdigits : markedDigits cs = []
      · rw [Option.any_some, decide_eq_true hdigits, Option.bind_some, hdigits]
        rfl
      · -- the tails in front of the first mark have no digits to offer
        obtain ⟨-, before, after, htails, hbefore⟩ := List.find?_eq_some_iff_append.mp hfirst
        have hskip : (before.map markedDigits).find? (fun ds => ds ≠ []) = none :=
          find?_markedDigits (by simpa using hbefore)
        rw [Option.any_some, decide_eq_false hdigits, htails, List.map_append, List.map_cons,
          List.find?_append, hskip, List.find?_cons_of_pos (by simpa using hdigits),
          Option.bind_some, readUInt32?_markedDigits hdigits]
        rfl

end OraCode

open OraCode

namespace Error

/-- An error that is raised for a message of the database and carries no number of its own. -/
inductive RaisedFor (message : String) : Error → Prop
  | query (sql : String) : RaisedFor message (.ofQuery message sql)
  | call : RaisedFor message (.ofCall message none)
  | callWithSource (source : String) : RaisedFor message (.ofCallWithSource message source)

namespace RaisedFor

variable {message : String} {e : Error}

theorem code?_eq (h : RaisedFor message e) :
    e.code? = if beginsBare message then none else written? message := by
  rw [← ofMessage?_eq]
  cases h <;> rfl

theorem code?_eq_some_iff (h : RaisedFor message e) {code : OraCode} :
    e.code? = some code ↔ beginsBare message = false ∧ written? message = some code := by
  rw [h.code?_eq]
  cases beginsBare message <;> simp

theorem code?_eq_written?_iff (h : RaisedFor message e) :
    e.code? = written? message ↔ (beginsBare message → written? message = none) := by
  rw [h.code?_eq]
  cases beginsBare message
  · simp
  · simpa using eq_comm

theorem isRetriable_eq (h : RaisedFor message e) :
    e.isRetriable = e.code?.any transient.contains := by
  cases h <;> rfl

theorem isRetriable_iff (h : RaisedFor message e) : e.isRetriable ↔
    beginsBare message = false ∧ ∃ code ∈ transient, written? message = some code := by
  rw [h.isRetriable_eq, Option.any_eq_true]
  constructor
  · rintro ⟨code, hcode, htransient⟩
    obtain ⟨hfirst, hwritten⟩ := h.code?_eq_some_iff.mp hcode
    exact ⟨hfirst, code, by simpa using htransient, hwritten⟩
  · rintro ⟨hfirst, code, htransient, hwritten⟩
    exact ⟨code, h.code?_eq_some_iff.mpr ⟨hfirst, hwritten⟩, by simpa using htransient⟩

theorem isDuplicateLogFile_iff (h : RaisedFor message e) : e.isDuplicateLogFile ↔
    beginsBare message = false ∧ written? message = some duplicateLogFile := by
  rw [isDuplicateLogFile, beq_iff_eq, h.code?_eq_some_iff]

end RaisedFor

end Error

namespace Session

variable {σ : Type} {s : Session σ} {e : Error}

/-- A rejected file is registered all the same if the database knew it. -/
theorem register_of_error (db : Database σ) (file : LogFile) (hphase : s.phase = .configuring)
    (hfile : file ∉ s.index) (hanswer : (db.execute s.link.peer file.addBlock).1 = .error e) :
    ((s.register db file).1, (s.register db file).2.registered) =
      if e.isDuplicateLogFile then (.ok false, s.registered ++ [file])
      else (.error e, s.registered) := by
  cases hduplicate : e.isDuplicateLogFile <;>
    simp [register, Link.execute, hphase, hfile, hanswer, hduplicate]

end Session

/-- The first error number of a message decides what its error counts as, exactly if no mark without
digits is met before it: only then is a known file tolerated, and only then a lost connection worth
another attempt. -/
theorem Error.RaisedFor.decides {message : String} {e : Error} (he : e.RaisedFor message) :
    e.code? = (if beginsBare message then none else written? message) ∧
      (e.code? = written? message ↔ (beginsBare message → written? message = none)) ∧
      (e.isRetriable ↔
        beginsBare message = false ∧ ∃ code ∈ transient, written? message = some code) ∧
      ∀ (σ : Type) (db : Database σ) (s : Session σ) (file : LogFile),
        s.phase = .configuring → file ∉ s.index →
        (db.execute s.link.peer file.addBlock).1 = .error e →
        ((s.register db file).1, (s.register db file).2.registered) =
          if beginsBare message = false ∧ written? message = some duplicateLogFile then
            (.ok false, s.registered ++ [file])
          else (.error e, s.registered) := by
  refine ⟨he.code?_eq, he.code?_eq_written?_iff, he.isRetriable_iff, ?_⟩
  intro σ db s file hphase hfile hanswer
  rw [Session.register_of_error db file hphase hfile hanswer]
  simp only [he.isDuplicateLogFile_iff]

/-- A database that answers every block with the same failure. -/
def Database.rejecting (e : Error) : Database Unit where
  query peer _ := (.ok [], peer)
  execute peer _ := (.error e, peer)
  close peer := (.ok (), peer)

/-- A rejection with some text in front of its number. -/
def rejection : String := "logmnr: ORA-01289: cannot add duplicate logfile"

theorem Error.RaisedFor.decides_rejection :
    Error.RaisedFor rejection (.ofCall rejection none) ∧
      (Error.ofCall rejection none).code? = some duplicateLogFile ∧
      ((Session.new (.fresh ())).register (.rejecting (.ofCall rejection none))
        ⟨"/u01/redo01.log"⟩).1 = .ok false := by
  have he : Error.RaisedFor rejection (.ofCall rejection none) := .call
  have hfirst : beginsBare rejection = false := by decide +kernel
  have hwritten : written? rejection = some duplicateLogFile := by decide +kernel
  obtain ⟨hcode, -, -, hregister⟩ := he.decides
  have hrejected := hregister Unit (.rejecting (.ofCall rejection none))
    (Session.new (.fresh ())) ⟨"/u01/redo01.log"⟩ rfl (by simp [Session.new]) rfl
  rw [if_pos ⟨hfirst, hwritten⟩] at hrejected
  refine ⟨he, ?_, congrArg Prod.fst hrejected⟩
  rw [hcode, hfirst, hwritten]
  rfl

/-- The path in front of this number has a mark of its own, so the number is missed. -/
def markedPath : String := "/u01/ORA-data/redo01.log: ORA-01289: cannot add duplicate logfile"

theorem Error.code?_markedPath :
    written? markedPath = some duplicateLogFile ∧
      (Error.ofCall markedPath none).code? = none ∧
      (Error.ofCall markedPath none).isDuplicateLogFile = false ∧
      ((Session.new (.fresh ())).register (.rejecting (.ofCall markedPath none))
        ⟨"/u01/ORA-data/redo01.log"⟩).1 = .error (.ofCall markedPath none) := by
  have hother : (Error.ofCall markedPath none).isDuplicateLogFile = false := by decide +kernel
  have hrejected := Session.register_of_error (s := Session.new (.fresh ()))
    (.rejecting (.ofCall markedPath none)) ⟨"/u01/ORA-data/redo01.log"⟩ rfl
    (by simp [Session.new]) rfl
  rw [hother] at hrejected
  exact ⟨by decide +kernel, by decide +kernel, hother, congrArg Prod.fst hrejected⟩

end ChangeCapture.Mining
