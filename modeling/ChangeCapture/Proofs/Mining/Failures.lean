import ChangeCapture.Proofs.Mining.Runs

/-!
# Calls that fail

A call that fails leaves the files and the phase of a session as they were, and nothing is sent when
the session refuses it on its own account. So the calls that fail may be left out of a run: the
others, answered as they were, return the same and leave the same session.
-/

namespace ChangeCapture.Mining

/-- Whether this is what a session says when it does not send what it was asked for. -/
def Error.isRefusal : Error → Bool
  | .noLogFiles => true
  | .invalidPhase _ _ => true
  | _ => false

/-- The failure that a statement was answered with. -/
def Exchange.failure? : Exchange → Option Error
  | .query _ (.error e) => some e
  | .block _ (.error e) => some e
  | .close (.error e) => some e
  | _ => none

namespace Database

/-- A database whose failures are its own, not refusals of a session. An answer is passed on as it
is, so one in the words of a refusal would be returned although its statement was sent. -/
structure NeverRefuses {σ : Type} (db : Database σ) : Prop where
  query : ∀ peer sql e, (db.query peer sql).1 = .error e → e.isRefusal = false
  execute : ∀ peer text e, (db.execute peer text).1 = .error e → e.isRefusal = false

/-- A statement for which no answer was recorded. -/
def unanswered : Error := .connection "no answer is recorded" none

/-- Answers from a record, as long as exactly the recorded statements are sent. -/
def replay : Database (List Exchange) where
  query
    | .query sql answer :: rest, sent =>
        if sent = sql then (answer, rest) else (.error unanswered, rest)
    | rest, _ => (.error unanswered, rest)
  execute
    | .block text answer :: rest, sent =>
        if sent = text then (answer, rest) else (.error unanswered, rest)
    | rest, _ => (.error unanswered, rest)
  close
    | .close answer :: rest => (answer, rest)
    | rest => (.error unanswered, rest)

@[simp] theorem replay_query (sql : String) (answer : Except Error (List String))
    (rest : List Exchange) : replay.query (.query sql answer :: rest) sql = (answer, rest) := by
  simp [replay]

@[simp] theorem replay_execute (text : String) (answer : Except Error Unit)
    (rest : List Exchange) : replay.execute (.block text answer :: rest) text = (answer, rest) := by
  simp [replay]

end Database

namespace Session

variable {σ τ : Type} {s s' : Session σ} {outcome : Outcome} {sent : List Exchange} {e : Error}

namespace Outcome

/-- The call that was made. -/
def call : Outcome → Call
  | .discover _ => .discover
  | .register file _ => .register file
  | .start _ => .start

def failure? : Outcome → Option Error
  | .discover (.error e) => some e
  | .register _ (.error e) => some e
  | .start (.error e) => some e
  | _ => none

def succeeded (o : Outcome) : Bool := o.failure?.isNone

end Outcome

@[simp] theorem call_perform (db : Database σ) (s : Session σ) (call : Call) :
    (s.perform db call).1.call = call := by
  cases call <;> rfl

/-- What is left by a call that failed: the files and the phase of before. Either the session
refused the call and nothing was sent, or the one statement that was sent was answered with the
failure. -/
structure FailedWith (e : Error) (s : Session σ) (sent : List Exchange) (s' : Session σ) :
    Prop where
  registered_eq : s'.registered = s.registered
  index_eq : s'.index = s.index
  phase_eq : s'.phase = s.phase
  sent_eq : sent = [] ∧ e.isRefusal ∨ ∃ x, sent = [x] ∧ x.failure? = some e

theorem Step.failedWith (hstep : Step s outcome sent s') (h : outcome.failure? = some e) :
    FailedWith e s sent s' := by
  have hsilent : ∀ e', e'.isRefusal → some e' = some e → FailedWith e s [] s := by
    intro e' hrefusal he
    obtain rfl := Option.some.inj he
    exact ⟨rfl, rfl, rfl, Or.inl ⟨rfl, hrefusal⟩⟩
  cases hstep with
  | discover answer link =>
      cases answer with
      | ok paths => exact nomatch h
      | error e' => exact ⟨rfl, rfl, rfl, Or.inr ⟨_, rfl, h⟩⟩
  | refuseRegister | refuseStart | startNothing => exact hsilent _ rfl h
  | skip | add | start => exact nomatch h
  | failAdd | failStart => exact ⟨rfl, rfl, rfl, Or.inr ⟨_, rfl, h⟩⟩

theorem FailedWith.withLink_eq (h : FailedWith e s sent s') (link : Link τ) :
    s'.withLink link = s.withLink link := by
  rw [withLink, withLink, h.registered_eq, h.index_eq, h.phase_eq]

/-- A step is repeated when its statements are answered from the record. -/
theorem Step.perform_replay (hstep : Step s outcome sent s') (rest said : List Exchange) :
    (s.withLink ⟨sent ++ rest, said⟩).perform .replay outcome.call =
      (outcome, s'.withLink ⟨rest, said ++ sent⟩) := by
  cases hstep with
  | discover answer link =>
      simp [perform, Outcome.call, Session.discover, Link.logFiles, Link.query, withLink]
  | refuseRegister file hphase =>
      simp [perform, Outcome.call, register, withLink, hphase]
  | skip file hphase hfile =>
      simp [perform, Outcome.call, register, withLink, hphase, hfile]
  | add file answer link hphase hfile hanswer =>
      cases answer with
      | ok =>
          simp [perform, Outcome.call, register, Link.execute, withLink, hphase, hfile,
            Except.isOk, Except.toBool]
      | error e =>
          have he := (isDuplicateLogFile_eq e).trans hanswer
          simp [perform, Outcome.call, register, Link.execute, withLink, hphase, hfile, he,
            Except.isOk, Except.toBool]
  | failAdd file e link hphase hfile hanswer =>
      have he := (isDuplicateLogFile_eq e).trans hanswer
      simp [perform, Outcome.call, register, Link.execute, withLink, hphase, hfile, he]
  | refuseStart hphase =>
      simp [perform, Outcome.call, Session.start, withLink, hphase]
  | startNothing hphase hfiles =>
      simp [perform, Outcome.call, Session.start, withLink, hphase, hfiles]
  | start link hphase hfiles =>
      simp [perform, Outcome.call, Session.start, Link.execute, withLink, hphase, hfiles]
  | failStart e link hphase hfiles =>
      simp [perform, Outcome.call, Session.start, Link.execute, withLink, hphase, hfiles]

/-- A call that was made: what it returned, and what was said meanwhile. -/
structure Entry where
  outcome : Outcome
  said : List Exchange

def Entry.call (entry : Entry) : Call := entry.outcome.call

/-- What is said during a call. -/
def saidBy (db : Database σ) (s : Session σ) (call : Call) : List Exchange :=
  (s.perform db call).2.link.exchanges.drop s.link.exchanges.length

/-- The calls of a run, one by one. -/
def transcript (db : Database σ) : Session σ → List Call → List Entry
  | _, [] => []
  | s, call :: calls =>
      ⟨(s.perform db call).1, s.saidBy db call⟩ :: transcript db (s.perform db call).2 calls

theorem saidBy_eq {db : Database σ} {call : Call}
    (h : (s.perform db call).2.link.exchanges = s.link.exchanges ++ sent) :
    s.saidBy db call = sent := by
  rw [saidBy, h, List.drop_left]

theorem step_saidBy (db : Database σ) (s : Session σ) (call : Call) :
    Step s (s.perform db call).1 (s.saidBy db call) (s.perform db call).2 := by
  obtain ⟨sent, hstep, hsent⟩ := perform_step db s call
  rwa [saidBy_eq hsent]

/-- A call sends one statement or none. -/
theorem saidBy_cases (db : Database σ) (s : Session σ) (call : Call) :
    s.saidBy db call = [] ∨
      (∃ sql, s.saidBy db call = [.query sql (db.query s.link.peer sql).1]) ∨
      ∃ text, s.saidBy db call = [.block text (db.execute s.link.peer text).1] := by
  cases call with
  | discover =>
      refine Or.inr (Or.inl ⟨catalogQuery, ?_⟩)
      simp [saidBy, perform, discover, Link.logFiles, Link.query]
  | register file =>
      by_cases hphase : s.phase = .configuring
      · by_cases hfile : file ∈ s.index
        · exact Or.inl (by simp [saidBy, perform, register, hphase, hfile])
        · refine Or.inr (Or.inr ⟨file.addBlock, ?_⟩)
          cases hanswer : (db.execute s.link.peer file.addBlock).1 with
          | ok => simp [saidBy, perform, register, hphase, hfile, Link.execute, hanswer]
          | error e =>
              cases he : e.isDuplicateLogFile <;>
                simp [saidBy, perform, register, hphase, hfile, Link.execute, hanswer, he]
      · exact Or.inl (by simp [saidBy, perform, register, hphase])
  | start =>
      by_cases hphase : s.phase = .configuring
      · by_cases hfiles : s.registered = []
        · exact Or.inl (by simp [saidBy, perform, start, hphase, hfiles])
        · refine Or.inr (Or.inr ⟨Options.fixed.startBlock, ?_⟩)
          cases hanswer : (db.execute s.link.peer Options.fixed.startBlock).1 <;>
            simp [saidBy, perform, start, hphase, hfiles, Link.execute, hanswer]
      · exact Or.inl (by simp [saidBy, perform, start, hphase])

theorem saidBy_eq_nil {db : Database σ} (hdb : db.NeverRefuses) {call : Call}
    (h : FailedWith e s (s.saidBy db call) s') (he : e.isRefusal) : s.saidBy db call = [] := by
  rcases h.sent_eq with ⟨hnil, -⟩ | ⟨x, hx, hfailure⟩
  · exact hnil
  · exfalso
    rcases saidBy_cases db s call with hnil | ⟨sql, hquery⟩ | ⟨text, hblock⟩
    · exact List.cons_ne_nil _ _ (hx.symm.trans hnil)
    · obtain rfl := List.singleton_inj.mp (hx.symm.trans hquery)
      cases hanswer : (db.query s.link.peer sql).1 with
      | ok paths => simp [Exchange.failure?, hanswer] at hfailure
      | error e' =>
          obtain rfl : e' = e := by simpa [Exchange.failure?, hanswer] using hfailure
          exact Bool.false_ne_true ((hdb.query _ _ _ hanswer).symm.trans he)
    · obtain rfl := List.singleton_inj.mp (hx.symm.trans hblock)
      cases hanswer : (db.execute s.link.peer text).1 with
      | ok => simp [Exchange.failure?, hanswer] at hfailure
      | error e' =>
          obtain rfl : e' = e := by simpa [Exchange.failure?, hanswer] using hfailure
          exact Bool.false_ne_true ((hdb.execute _ _ _ hanswer).symm.trans he)

/-- The calls of a run that did not fail. -/
def succeeding (db : Database σ) (s : Session σ) (calls : List Call) : List Entry :=
  (transcript db s calls).filter fun entry => entry.outcome.succeeded

theorem map_outcome_transcript (db : Database σ) (s : Session σ) (calls : List Call) :
    (transcript db s calls).map Entry.outcome = (run db s calls).1 := by
  induction calls generalizing s with
  | nil => rfl
  | cons call calls ih => rw [transcript, List.map_cons, ih, run_cons]

theorem map_call_transcript (db : Database σ) (s : Session σ) (calls : List Call) :
    (transcript db s calls).map Entry.call = calls := by
  induction calls generalizing s with
  | nil => rfl
  | cons call calls ih => rw [transcript, List.map_cons, ih, Entry.call, call_perform]

theorem exchanges_run (db : Database σ) (s : Session σ) (calls : List Call) :
    (run db s calls).2.link.exchanges =
      s.link.exchanges ++ (transcript db s calls).flatMap Entry.said := by
  induction calls generalizing s with
  | nil => simp [transcript]
  | cons call calls ih =>
      obtain ⟨sent, -, hsent⟩ := perform_step db s call
      rw [run_cons, ih, hsent, transcript, List.flatMap_cons, saidBy_eq hsent, List.append_assoc]

/-- The calls that did not fail, answered from the record. -/
theorem run_replay (db : Database σ) (s : Session σ) (calls : List Call)
    (said : List Exchange) :
    run .replay (s.withLink ⟨(succeeding db s calls).flatMap Entry.said, said⟩)
        ((succeeding db s calls).map Entry.call) =
      ((succeeding db s calls).map Entry.outcome, (run db s calls).2.withLink
        ⟨[], said ++ (succeeding db s calls).flatMap Entry.said⟩) := by
  induction calls generalizing s said with
  | nil => simp [succeeding, transcript]
  | cons call calls ih =>
      have hstep := step_saidBy db s call
      cases houtcome : (s.perform db call).1.failure? with
      | none =>
          have hkept : succeeding db s (call :: calls) =
              ⟨(s.perform db call).1, s.saidBy db call⟩ ::
                succeeding db (s.perform db call).2 calls := by
            simp [succeeding, transcript, Outcome.succeeded, houtcome]
          rw [hkept, List.flatMap_cons, List.map_cons, List.map_cons, run_cons, run_cons,
            Entry.call, hstep.perform_replay, ih, List.append_assoc]
      | some e =>
          have hkept : succeeding db s (call :: calls) =
              succeeding db (s.perform db call).2 calls := by
            simp [succeeding, transcript, Outcome.succeeded, houtcome]
          rw [hkept, run_cons, ← (hstep.failedWith houtcome).withLink_eq, ih]

/-- A call that fails leaves no trace in the session, and a run without the calls that fail goes as
before. What was sent for a failure is told by `FailedWith.sent_eq` for every database; that a
refusal is returned only where nothing was sent needs a database that gives no refusals itself. -/
theorem run_replay_succeeding (db : Database σ) (s : Session σ) (calls : List Call) :
    (∀ call e, (s.perform db call).1.failure? = some e →
      FailedWith e s (s.saidBy db call) (s.perform db call).2 ∧
        (db.NeverRefuses → e.isRefusal → s.saidBy db call = [])) ∧
    (transcript db s calls).map Entry.call = calls ∧
    (transcript db s calls).map Entry.outcome = (run db s calls).1 ∧
    (run db s calls).2.link.exchanges =
      s.link.exchanges ++ (transcript db s calls).flatMap Entry.said ∧
    run .replay (s.withLink (.fresh ((succeeding db s calls).flatMap Entry.said)))
        ((succeeding db s calls).map Entry.call) =
      ((succeeding db s calls).map Entry.outcome, (run db s calls).2.withLink
        ⟨[], (succeeding db s calls).flatMap Entry.said⟩) := by
  refine ⟨fun call e h => ?_, map_call_transcript db s calls, map_outcome_transcript db s calls,
    exchanges_run db s calls, run_replay db s calls []⟩
  have hfailed := (step_saidBy db s call).failedWith h
  exact ⟨hfailed, fun hdb => saidBy_eq_nil hdb hfailed⟩

/-- A database that is busy, then knows the file that it is given, is busy again, and then obeys. -/
def busy : Database Nat where
  query n _ := (.ok ["redo01.log"], n)
  execute
    | 0, _ => (.error (.call "ORA-12541" (some 12541) none), 1)
    | 1, _ => (.error (.call "ORA-01289" (some 1289) none), 2)
    | 2, _ => (.error (.call "ORA-12541" (some 12541) none), 3)
    | n, _ => (.ok (), n)
  close n := (.ok (), n)

def redo : LogFile := ⟨"redo01.log"⟩

/-- The first call, the second, the fourth and the sixth one fail. -/
def busyCalls : List Call :=
  [.start, .register redo, .register redo, .start, .start, .register ⟨"redo02.log"⟩, .discover]

theorem busy_neverRefuses : busy.NeverRefuses where
  query _ _ _ h := nomatch h
  execute
    | 0, _, _, h | 1, _, _, h | 2, _, _, h => by
        obtain rfl := Except.error.inj h
        rfl

theorem run_replay_succeeding_busy :
    ((new (.fresh 0)).perform busy .start).1.failure? = some .noLogFiles ∧
      (new (.fresh 0)).saidBy busy .start = [] ∧
      ((new (.fresh 0)).perform busy (.register redo)).1.failure? =
        some (.call "ORA-12541" (some 12541) none) ∧
      ((new (.fresh 0)).perform busy (.register redo)).2.registered = [] ∧
      ∃ record, run .replay (new (.fresh record)) [.register redo, .start, .discover] =
        ([.register redo (.ok false), .start (.ok ()), .discover (.ok [redo])],
          (run busy (new (.fresh 0)) busyCalls).2.withLink ⟨[], record⟩) := by
  have hstart : ((new (.fresh 0)).perform busy .start).1.failure? = some .noLogFiles := by
    simp [perform, start, new, Outcome.failure?]
  have hregister : ((new (.fresh 0)).perform busy (.register redo)).1.failure? =
      some (.call "ORA-12541" (some 12541) none) := by
    simp [perform, register, new, Link.fresh, Link.execute, busy, Outcome.failure?,
      Error.isDuplicateLogFile, Error.code?, OraCode.duplicateLogFile]
  have hsucceeding : (succeeding busy (new (.fresh 0)) busyCalls).map Entry.outcome =
      [.register redo (.ok false), .start (.ok ()), .discover (.ok [redo])] := by
    simp [succeeding, transcript, busyCalls, perform, register, start, discover, new, Link.fresh,
      Link.execute, Link.query, Link.logFiles, busy, Outcome.succeeded, Outcome.failure?,
      Error.isDuplicateLogFile, Error.code?, OraCode.duplicateLogFile, redo, Except.map]
  obtain ⟨hfailed, -, -, -, hrun⟩ := run_replay_succeeding busy (new (.fresh 0)) busyCalls
  obtain ⟨-, hsilent⟩ := hfailed .start .noLogFiles hstart
  obtain ⟨hkept, -⟩ := hfailed (.register redo) _ hregister
  refine ⟨hstart, hsilent busy_neverRefuses rfl, hregister, hkept.registered_eq,
    (succeeding busy (new (.fresh 0)) busyCalls).flatMap Entry.said, ?_⟩
  have hcalls : (succeeding busy (new (.fresh 0)) busyCalls).map Entry.call =
      [.register redo, .start, .discover] := by
    have hmap := congrArg (List.map Outcome.call) hsucceeding
    rw [List.map_map] at hmap
    exact hmap
  rwa [hcalls, hsucceeding] at hrun

end Session

end ChangeCapture.Mining
