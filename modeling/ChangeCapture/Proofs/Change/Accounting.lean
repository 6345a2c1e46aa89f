import ChangeCapture.Proofs.Change.Membership

/-!
# Accounts of a run

A run processes records and changes the schemas in any order. As long as no counter can overflow,
the counters are the numbers of what became of the processed records.
-/

namespace ChangeCapture.Change

/-- What became of a record: its canonical record, nothing for a marker, or an error. -/
abbrev Outcome := Except Error (Option CanonicalRecord)

namespace Outcome

def isDdl : Outcome → Bool
  | .ok (some (.ddl _)) => true
  | _ => false

def isDml : Outcome → Bool
  | .ok (some (.dml _)) => true
  | _ => false

def isMarker : Outcome → Bool
  | .ok none => true
  | _ => false

def isError : Outcome → Bool
  | .error _ => true
  | _ => false

/-- A row change that is no insertion, update or deletion. -/
def isUnknownOp : Outcome → Bool
  | .ok (some (.dml r)) => !(["I", "U", "D"].contains r.opType)
  | _ => false

theorem isDml_of_isUnknownOp {o : Outcome} (h : o.isUnknownOp) : o.isDml := by
  unfold isUnknownOp at h
  split at h
  · rfl
  · exact absurd h Bool.false_ne_true

/-- Every record becomes exactly one of the four. -/
theorem length_eq_countP (outcomes : List Outcome) :
    outcomes.length = outcomes.countP isDdl + outcomes.countP isDml +
      outcomes.countP isMarker + outcomes.countP isError := by
  induction outcomes with
  | nil => rfl
  | cons o rest ih =>
      have hone : o.isDdl.toNat + o.isDml.toNat + o.isMarker.toNat + o.isError.toNat = 1 := by
        rcases o with e | _ | r | r <;> rfl
      have hcount : ∀ p : Outcome → Bool, (o :: rest).countP p = rest.countP p + (p o).toNat := by
        intro p
        cases hp : p o <;> simp [hp]
      rw [hcount, hcount, hcount, hcount, List.length_cons, ih]
      omega

end Outcome

theorem Operation.isKnown_ofCode (code : String) :
    (Operation.ofCode code).isKnown = ["I", "U", "D"].contains code := by
  rcases ofCode_cases code with ⟨rfl, hop⟩ | ⟨rfl, hop⟩ | ⟨rfl, hop⟩ | ⟨hcode, hop⟩
  · rw [hop]
    decide
  · rw [hop]
    decide
  · rw [hop]
    decide
  · rw [hop, isKnown, eq_comm, ← Bool.not_eq_true, List.contains_iff_mem]
    exact hcode

namespace Counters

/-- Counters that are the numbers of what became of the records. -/
structure Accounts (c : Counters) (outcomes : List Outcome) : Prop where
  received : c.received.toNat = outcomes.length
  ddl : c.ddl.toNat = outcomes.countP Outcome.isDdl
  dml : c.dml.toNat = outcomes.countP Outcome.isDml
  markers : c.markers.toNat = outcomes.countP Outcome.isMarker
  errors : c.errors.toNat = outcomes.countP Outcome.isError
  unknownOps : c.unknownOps.toNat = outcomes.countP Outcome.isUnknownOp

theorem accounts_zero : zero.Accounts [] := ⟨rfl, rfl, rfl, rfl, rfl, rfl⟩

theorem toNat_add_one {x : UInt64} {k : Nat} (hx : x.toNat = k) (hk : k + 1 < UInt64.size) :
    (x + 1).toNat = k + 1 := by
  rw [UInt64.toNat_add, hx]
  exact Nat.mod_eq_of_lt hk

variable {c : Counters} {outcomes : List Outcome}

/-- One more record keeps the accounts, whatever becomes of it. -/
theorem Accounts.count (h : c.Accounts outcomes) (hroom : outcomes.length + 1 < UInt64.size)
    (o : Outcome) : (Normalizer.count c o).Accounts (outcomes ++ [o]) := by
  have hadd : ∀ {x : UInt64} {p : Outcome → Bool}, x.toNat = outcomes.countP p → p o = true →
      (x + 1).toNat = (outcomes ++ [o]).countP p := by
    intro x p hx hp
    have hle : outcomes.countP p ≤ outcomes.length := List.countP_le_length
    rw [List.countP_append, List.countP_singleton, if_pos hp]
    exact toNat_add_one hx (by omega)
  have hkeep : ∀ {x : UInt64} {p : Outcome → Bool}, x.toNat = outcomes.countP p → p o = false →
      x.toNat = (outcomes ++ [o]).countP p := by
    intro x p hx hp
    rw [List.countP_append, List.countP_singleton, hp]
    exact hx
  have hreceived : (c.received + 1).toNat = (outcomes ++ [o]).length := by
    rw [List.length_append, List.length_singleton]
    exact toNat_add_one h.received hroom
  rcases o with e | _ | r | r
  · exact ⟨hreceived, hkeep h.ddl rfl, hkeep h.dml rfl, hkeep h.markers rfl, hadd h.errors rfl,
      hkeep h.unknownOps rfl⟩
  · exact ⟨hreceived, hkeep h.ddl rfl, hkeep h.dml rfl, hadd h.markers rfl, hkeep h.errors rfl,
      hkeep h.unknownOps rfl⟩
  · exact ⟨hreceived, hadd h.ddl rfl, hkeep h.dml rfl, hkeep h.markers rfl, hkeep h.errors rfl,
      hkeep h.unknownOps rfl⟩
  · -- Only here two counters may change beside the number of records.
    have hop : r.operation.isKnown = ["I", "U", "D"].contains r.opType :=
      Operation.isKnown_ofCode r.opType
    unfold Normalizer.count Normalizer.countResult
    dsimp only
    split
    · next hknown =>
        rw [hop] at hknown
        have hcode : Outcome.isUnknownOp (.ok (some (.dml r))) = false := by
          rw [Outcome.isUnknownOp, hknown]
          rfl
        exact ⟨hreceived, hkeep h.ddl rfl, hadd h.dml rfl, hkeep h.markers rfl,
          hkeep h.errors rfl, hkeep h.unknownOps hcode⟩
    · next hunknown =>
        rw [hop] at hunknown
        have hcode : Outcome.isUnknownOp (.ok (some (.dml r))) = true := by
          rw [Outcome.isUnknownOp, eq_false_of_ne_true hunknown]
          rfl
        exact ⟨hreceived, hkeep h.ddl rfl, hadd h.dml rfl, hkeep h.markers rfl,
          hkeep h.errors rfl, hadd h.unknownOps hcode⟩

end Counters

namespace Normalizer

/-- What is done with a normalizer. -/
inductive Step
  | process (r : InboundRecord)
  | setCache (cache : SchemaCache)

namespace Step

def isProcess : Step → Bool
  | .process _ => true
  | .setCache _ => false

end Step

/-- Takes one step, and tells what became of the record if there is one. -/
def perform (n : Normalizer) : Step → List Outcome × Normalizer
  | .process r => ([(n.process r).1], (n.process r).2)
  | .setCache cache => ([], n.withCache cache)

/-- Takes steps one after the other, whatever becomes of the records. -/
def run : Normalizer → List Step → List Outcome × Normalizer
  | n, [] => ([], n)
  | n, step :: rest =>
      ((n.perform step).1 ++ (run (n.perform step).2 rest).1, (run (n.perform step).2 rest).2)

theorem perform_settings (n : Normalizer) (step : Step) :
    (n.perform step).2.settings = n.settings := by
  cases step with
  | process r => rw [perform, process_eq]
  | setCache cache => rfl

theorem length_perform (n : Normalizer) (step : Step) :
    (n.perform step).1.length = step.isProcess.toNat := by
  cases step <;> rfl

theorem perform_accounts {n : Normalizer} {outcomes : List Outcome}
    (h : n.counters.Accounts outcomes) (hroom : outcomes.length + 1 < UInt64.size)
    (step : Step) :
    (n.perform step).2.counters.Accounts (outcomes ++ (n.perform step).1) := by
  cases step with
  | process r =>
      rw [perform, process_eq]
      exact h.count hroom _
  | setCache cache =>
      rw [perform, List.append_nil]
      exact h

theorem run_accounts {n : Normalizer} {outcomes : List Outcome}
    (h : n.counters.Accounts outcomes) (steps : List Step)
    (hroom : outcomes.length + steps.length < UInt64.size) :
    (run n steps).2.counters.Accounts (outcomes ++ (run n steps).1) := by
  induction steps generalizing n outcomes with
  | nil =>
      rw [run, List.append_nil]
      exact h
  | cons step rest ih =>
      rw [List.length_cons] at hroom
      have hstep := perform_accounts h (by omega) step
      have hlength : (outcomes ++ (n.perform step).1).length ≤ outcomes.length + 1 := by
        rw [List.length_append, length_perform]
        exact Nat.add_le_add_left (Bool.toNat_le _) _
      have hrest := ih hstep (by omega)
      rw [List.append_assoc] at hrest
      exact hrest

theorem length_run (n : Normalizer) (steps : List Step) :
    (run n steps).1.length = steps.countP Step.isProcess := by
  induction steps generalizing n with
  | nil => rfl
  | cons step rest ih =>
      rw [run, List.length_append, length_perform, ih, List.countP_cons]
      cases step.isProcess <;> simp [Nat.add_comm]

/-- In strict mode no row comes out whose operation is not known. -/
theorem isUnknownOp_recordOf {settings : Settings} (hstrict : settings.strictOpTypes = true)
    (cache : SchemaCache) (r : InboundRecord) :
    Outcome.isUnknownOp (recordOf settings cache r) = false := by
  apply eq_false_of_ne_true
  intro hunknown
  cases houtcome : recordOf settings cache r with
  | error e => simp [houtcome, Outcome.isUnknownOp] at hunknown
  | ok result =>
      rcases result with _ | record | record
      · simp [houtcome, Outcome.isUnknownOp] at hunknown
      · simp [houtcome, Outcome.isUnknownOp] at hunknown
      · obtain ⟨bytes, d, -, -, hrecord⟩ := exists_decoded_of_recordOf houtcome
        obtain ⟨hknown, rfl⟩ := normalizeRow_eq_ok_iff.mp hrecord
        rw [houtcome, Outcome.isUnknownOp, ← Operation.isKnown_ofCode, hknown hstrict] at hunknown
        exact absurd hunknown Bool.false_ne_true

theorem isUnknownOp_run {n : Normalizer} (hstrict : n.settings.strictOpTypes = true)
    (steps : List Step) : ∀ o ∈ (run n steps).1, o.isUnknownOp = false := by
  induction steps generalizing n with
  | nil =>
      intro o ho
      cases ho
  | cons step rest ih =>
      intro o ho
      rcases List.mem_append.mp ho with ho | ho
      · cases step with
        | process r =>
            obtain rfl := List.mem_singleton.mp ho
            rw [process_fst]
            exact isUnknownOp_recordOf hstrict n.cache r
        | setCache cache => cases ho
      · have hsettings := perform_settings n step
        exact ih (by rw [hsettings]; exact hstrict) o ho

/-- After every run the counters tell what became of its records. -/
theorem counters_run (settings : Settings) (cache : SchemaCache) (steps : List Step)
    (hsteps : steps.length < UInt64.size) :
    ∃ outcomes n, run (new settings cache) steps = (outcomes, n) ∧
      outcomes.length = steps.countP Step.isProcess ∧ n.counters.Accounts outcomes ∧
      n.counters.received.toNat = n.counters.ddl.toNat + n.counters.dml.toNat +
        n.counters.markers.toNat + n.counters.errors.toNat ∧
      n.counters.unknownOps ≤ n.counters.dml ∧
      (settings.strictOpTypes = true → n.counters.unknownOps = 0) := by
  have haccounts : (run (new settings cache) steps).2.counters.Accounts
      (run (new settings cache) steps).1 := by
    have hroom : ([] : List Outcome).length + steps.length < UInt64.size := by simpa using hsteps
    exact run_accounts (n := new settings cache) Counters.accounts_zero steps hroom
  refine ⟨_, _, rfl, length_run _ steps, haccounts, ?_, ?_, ?_⟩
  · rw [haccounts.received, haccounts.ddl, haccounts.dml, haccounts.markers, haccounts.errors]
    exact Outcome.length_eq_countP _
  · rw [UInt64.le_iff_toNat_le, haccounts.unknownOps, haccounts.dml]
    exact List.countP_mono_left fun o _ h => Outcome.isDml_of_isUnknownOp h
  · intro hstrict
    have hnone := isUnknownOp_run (n := new settings cache) hstrict steps
    have hcount : (run (new settings cache) steps).1.countP Outcome.isUnknownOp = 0 := by
      rw [List.countP_eq_zero]
      intro o ho
      rw [hnone o ho]
      exact Bool.false_ne_true
    apply UInt64.toNat_inj.mp
    rw [haccounts.unknownOps, hcount]
    rfl

/-- A marker, a row without a schema, and the same row with one. -/
def noteSteps : List Step :=
  [.process ⟨some Envelope.markerName, [("message", [])]⟩, .process noteRecord,
    .setCache noteCache, .process noteRecord]

theorem counters_run_noteSteps : noteSteps.length < UInt64.size ∧ ∃ outcomes n,
    run (new .default .empty) noteSteps = (outcomes, n) ∧ outcomes.length = 3 ∧
      n.counters.Accounts outcomes ∧
      n.counters.ddl.toNat + n.counters.dml.toNat + n.counters.markers.toNat +
        n.counters.errors.toNat = 3 ∧
      n.counters.unknownOps ≤ n.counters.dml := by
  have hsteps : noteSteps.length < UInt64.size := by decide
  have hcalls : noteSteps.countP Step.isProcess = 3 := rfl
  obtain ⟨outcomes, n, hrun, hlength, haccounts, hsum, hunknown, -⟩ :=
    counters_run .default .empty noteSteps hsteps
  rw [hcalls] at hlength
  rw [haccounts.received, hlength] at hsum
  exact ⟨hsteps, outcomes, n, hrun, hlength, haccounts, hsum.symm, hunknown⟩

end Normalizer

end ChangeCapture.Change
