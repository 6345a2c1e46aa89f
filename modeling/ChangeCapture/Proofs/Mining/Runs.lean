import ChangeCapture.Mining.Session
import Std.Data.HashSet.Lemmas

/-!
# Runs of a session

A run is any sequence of calls on an open session. `Step` lists what one call can do: what it
returns, what is sent meanwhile and which session it leaves. `Course` is its closure over a run, so
what every step keeps holds after every run.
-/

namespace ChangeCapture.Mining

/-- Whether a file counts as registered after this answer: its block was obeyed, or it was refused
under the number of a file that was added before. -/
def registers : Except Error Unit → Bool
  | .ok () => true
  | .error e => e.code? = some 1289

@[simp] theorem registers_ok : registers (.ok ()) = true := rfl

/-- The session tells the two kinds of failure apart by this number. -/
theorem isDuplicateLogFile_eq (e : Error) : e.isDuplicateLogFile = registers (.error e) := by
  rw [Bool.eq_iff_iff]
  simp [Error.isDuplicateLogFile, OraCode.duplicateLogFile, registers]

namespace Session

variable {σ τ : Type}

/-- The same files and the same phase on another connection. -/
def withLink (s : Session σ) (link : Link τ) : Session τ := ⟨link, s.registered, s.index, s.phase⟩

/-- An index and a list that hold the same files still do after one more file. -/
theorem mem_insert_index {index : Std.HashSet LogFile} {files : List LogFile}
    (h : ∀ f, f ∈ index ↔ f ∈ files) (file f : LogFile) :
    f ∈ index.insert file ↔ f ∈ files ++ [file] := by
  rw [Std.HashSet.mem_insert, h, List.mem_append, List.mem_singleton, beq_iff_eq, or_comm, eq_comm]

/-- A call on an open session. -/
inductive Call
  | discover
  | register (file : LogFile)
  | start
  deriving DecidableEq, Repr

/-- A call with what it returned. -/
inductive Outcome
  | discover (result : Except Error (List LogFile))
  | register (file : LogFile) (result : Except Error Bool)
  | start (result : Except Error Unit)

/-- Makes one call. -/
def perform (db : Database σ) (s : Session σ) : Call → Outcome × Session σ
  | .discover => ((.discover (s.discover db).1), (s.discover db).2)
  | .register file => ((.register file (s.register db file).1), (s.register db file).2)
  | .start => ((.start (s.start db).1), (s.start db).2)

/-- Makes calls one after the other, whatever they return. -/
def run (db : Database σ) : Session σ → List Call → List Outcome × Session σ
  | s, [] => ([], s)
  | s, call :: calls =>
      ((s.perform db call).1 :: (run db (s.perform db call).2 calls).1,
        (run db (s.perform db call).2 calls).2)

@[simp] theorem run_nil (db : Database σ) (s : Session σ) : run db s [] = ([], s) := rfl

theorem run_cons (db : Database σ) (s : Session σ) (call : Call) (calls : List Call) :
    run db s (call :: calls) =
      ((s.perform db call).1 :: (run db (s.perform db call).2 calls).1,
        (run db (s.perform db call).2 calls).2) := rfl

/-- What one call can do: what it returns, what is sent, and the session after it. -/
inductive Step (s : Session σ) : Outcome → List Exchange → Session σ → Prop
  | discover (answer : Except Error (List String)) (link : Link σ) :
      Step s (.discover (answer.map (·.map LogFile.mk))) [.query catalogQuery answer]
        { s with link := link }
  | refuseRegister (file : LogFile) (hphase : s.phase ≠ .configuring) :
      Step s (.register file (.error (.invalidPhase .configuring s.phase))) [] s
  | skip (file : LogFile) (hphase : s.phase = .configuring) (hfile : file ∈ s.index) :
      Step s (.register file (.ok false)) [] s
  | add (file : LogFile) (answer : Except Error Unit) (link : Link σ)
      (hphase : s.phase = .configuring) (hfile : file ∉ s.index) (hanswer : registers answer) :
      Step s (.register file (.ok answer.isOk)) [.block file.addBlock answer]
        ⟨link, s.registered ++ [file], s.index.insert file, s.phase⟩
  | failAdd (file : LogFile) (e : Error) (link : Link σ) (hphase : s.phase = .configuring)
      (hfile : file ∉ s.index) (he : registers (.error e) = false) :
      Step s (.register file (.error e)) [.block file.addBlock (.error e)] { s with link := link }
  | refuseStart (hphase : s.phase ≠ .configuring) :
      Step s (.start (.error (.invalidPhase .configuring s.phase))) [] s
  | startNothing (hphase : s.phase = .configuring) (hfiles : s.registered = []) :
      Step s (.start (.error .noLogFiles)) [] s
  | start (link : Link σ) (hphase : s.phase = .configuring) (hfiles : s.registered ≠ []) :
      Step s (.start (.ok ())) [.block Options.fixed.startBlock (.ok ())]
        { s with link := link, phase := .mining }
  | failStart (e : Error) (link : Link σ) (hphase : s.phase = .configuring)
      (hfiles : s.registered ≠ []) :
      Step s (.start (.error e)) [.block Options.fixed.startBlock (.error e)]
        { s with link := link }

theorem discover_step (db : Database σ) (s : Session σ) :
    ∃ sent, Step s (.discover (s.discover db).1) sent (s.discover db).2 ∧
      (s.discover db).2.link.exchanges = s.link.exchanges ++ sent :=
  ⟨_, .discover (db.query s.link.peer catalogQuery).1 _, rfl⟩

theorem register_step (db : Database σ) (s : Session σ) (file : LogFile) :
    ∃ sent, Step s (.register file (s.register db file).1) sent (s.register db file).2 ∧
      (s.register db file).2.link.exchanges = s.link.exchanges ++ sent := by
  by_cases hphase : s.phase = .configuring
  · by_cases hfile : file ∈ s.index
    · refine ⟨[], ?_, ?_⟩
      · simpa [register, hphase, hfile] using Step.skip file hphase hfile
      · simp [register, hphase, hfile]
    · -- only now the block is sent, and its answer decides
      refine ⟨[.block file.addBlock (db.execute s.link.peer file.addBlock).1], ?_⟩
      cases hanswer : (db.execute s.link.peer file.addBlock).1 with
      | ok =>
          have hstep := Step.add file (.ok ())
            (s.link.execute db file.addBlock).2 hphase hfile rfl
          refine ⟨?_, ?_⟩
          · simpa [register, hphase, hfile, Link.execute, hanswer, Except.isOk, Except.toBool]
              using hstep
          · simp [register, hphase, hfile, Link.execute, hanswer]
      | error e =>
          have hsame := isDuplicateLogFile_eq e
          cases he : registers (.error e) with
          | true =>
              have hstep := Step.add file (.error e)
                (s.link.execute db file.addBlock).2 hphase hfile he
              rw [he] at hsame
              refine ⟨?_, ?_⟩
              · simpa [register, hphase, hfile, Link.execute, hanswer, hsame, Except.isOk,
                  Except.toBool] using hstep
              · simp [register, hphase, hfile, Link.execute, hanswer, hsame]
          | false =>
              have hstep := Step.failAdd file e
                (s.link.execute db file.addBlock).2 hphase hfile he
              rw [he] at hsame
              refine ⟨?_, ?_⟩
              · simpa [register, hphase, hfile, Link.execute, hanswer, hsame] using hstep
              · simp [register, hphase, hfile, Link.execute, hanswer, hsame]
  · refine ⟨[], ?_, ?_⟩
    · simpa [register, hphase] using Step.refuseRegister file hphase
    · simp [register, hphase]

theorem start_step (db : Database σ) (s : Session σ) :
    ∃ sent, Step s (.start (s.start db).1) sent (s.start db).2 ∧
      (s.start db).2.link.exchanges = s.link.exchanges ++ sent := by
  by_cases hphase : s.phase = .configuring
  · by_cases hfiles : s.registered = []
    · refine ⟨[], ?_, ?_⟩
      · simpa [start, hphase, hfiles] using Step.startNothing hphase hfiles
      · simp [start, hphase, hfiles]
    · refine ⟨[.block Options.fixed.startBlock
        (db.execute s.link.peer Options.fixed.startBlock).1], ?_⟩
      cases hanswer : (db.execute s.link.peer Options.fixed.startBlock).1 with
      | ok =>
          have hstep := Step.start (s.link.execute db Options.fixed.startBlock).2 hphase hfiles
          refine ⟨?_, ?_⟩
          · simpa [start, hphase, hfiles, Link.execute, hanswer] using hstep
          · simp [start, hphase, hfiles, Link.execute, hanswer]
      | error e =>
          have hstep := Step.failStart e (s.link.execute db Options.fixed.startBlock).2
            hphase hfiles
          refine ⟨?_, ?_⟩
          · simpa [start, hphase, hfiles, Link.execute, hanswer] using hstep
          · simp [start, hphase, hfiles, Link.execute, hanswer]
  · refine ⟨[], ?_, ?_⟩
    · simpa [start, hphase] using Step.refuseStart hphase
    · simp [start, hphase]

/-- Every call is one of the steps, and the link gains exactly what the step sends. -/
theorem perform_step (db : Database σ) (s : Session σ) (call : Call) :
    ∃ sent, Step s (s.perform db call).1 sent (s.perform db call).2 ∧
      (s.perform db call).2.link.exchanges = s.link.exchanges ++ sent := by
  cases call with
  | discover => exact discover_step db s
  | register file => exact register_step db s file
  | start => exact start_step db s

/-- What calls on a session returned and sent, in order, and the session that they left. -/
inductive Course (s₀ : Session σ) : List Outcome → List Exchange → Session σ → Prop
  | nothing : Course s₀ [] [] s₀
  | step {outcomes : List Outcome} {said : List Exchange} {s : Session σ} {outcome : Outcome}
      {sent : List Exchange} {s' : Session σ} :
      Course s₀ outcomes said s → Step s outcome sent s' →
        Course s₀ (outcomes ++ [outcome]) (said ++ sent) s'

theorem Course.run (db : Database σ) {s₀ s : Session σ} {outcomes : List Outcome}
    {said : List Exchange} (h : Course s₀ outcomes said s)
    (hsaid : s.link.exchanges = s₀.link.exchanges ++ said) (calls : List Call) :
    ∃ said', Course s₀ (outcomes ++ (Session.run db s calls).1) said' (Session.run db s calls).2 ∧
      (Session.run db s calls).2.link.exchanges = s₀.link.exchanges ++ said' := by
  induction calls generalizing s outcomes said with
  | nil => exact ⟨said, by simpa using h, hsaid⟩
  | cons call calls ih =>
      obtain ⟨sent, hstep, hsent⟩ := perform_step db s call
      have hsaid' : (s.perform db call).2.link.exchanges =
          s₀.link.exchanges ++ (said ++ sent) := by
        rw [hsent, hsaid, List.append_assoc]
      simpa [run_cons] using ih (h.step hstep) hsaid'

theorem run_course (db : Database σ) (s : Session σ) (calls : List Call) :
    ∃ said, Course s (run db s calls).1 said (run db s calls).2 ∧
      (run db s calls).2.link.exchanges = s.link.exchanges ++ said := by
  simpa using Course.nothing.run db (by simp) calls

end Session

end ChangeCapture.Mining
