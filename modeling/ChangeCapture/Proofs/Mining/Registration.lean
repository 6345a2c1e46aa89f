import ChangeCapture.Proofs.Mining.Runs
import ChangeCapture.Proofs.Mining.Statements

/-!
# The registered files

A session keeps its files twice, as a list and as an index. Both hold exactly the files whose block
was answered in a way that counts, the list in the order of those answers; no block is sent for such
a file again, and the caller is told once that it is new if the database had not known it.
-/

namespace ChangeCapture.Mining

namespace Exchange

/-- The file that is registered by this exchange. -/
def added? : Exchange → Option LogFile
  | .block text answer => if registers answer then LogFile.ofBlock? text else none
  | _ => none

/-- Whether this is a block that registers the file, whatever the answer. -/
def asksFor (file : LogFile) : Exchange → Bool
  | .block text _ => text == file.addBlock
  | _ => false

@[simp] theorem added?_query (sql : String) (answer : Except Error (List String)) :
    (Exchange.query sql answer).added? = none := rfl

theorem added?_addBlock (file : LogFile) (answer : Except Error Unit) :
    (Exchange.block file.addBlock answer).added? =
      if registers answer then some file else none := by
  simp [added?]

@[simp] theorem added?_startBlock (answer : Except Error Unit) :
    (Exchange.block Options.fixed.startBlock answer).added? = none := by
  simp [added?]

theorem asksFor_addBlock (file other : LogFile) (answer : Except Error Unit) :
    (Exchange.block other.addBlock answer).asksFor file = decide (other = file) := by
  by_cases h : other = file
  · simp [asksFor, h]
  · simp [asksFor, h, LogFile.addBlock_injective.ne h]

@[simp] theorem asksFor_query (file : LogFile) (sql : String)
    (answer : Except Error (List String)) : (Exchange.query sql answer).asksFor file = false := rfl

@[simp] theorem asksFor_startBlock (file : LogFile) (answer : Except Error Unit) :
    (Exchange.block Options.fixed.startBlock answer).asksFor file = false := by
  simp [asksFor, (LogFile.addBlock_ne_startBlock file).symm]

end Exchange

namespace Session

variable {σ : Type} {s₀ s s' : Session σ} {outcomes : List Outcome} {outcome : Outcome}
  {said sent : List Exchange}

/-- Whether this call told that the file is new. -/
def Outcome.isNew (file : LogFile) : Outcome → Bool
  | .register f (.ok true) => f == file
  | _ => false

/-- The one answer by which a file was registered: no block of the file follows it, and the calls
told that the file is new once if it was a success and never if the file was known before. -/
def RegisteredOnce (outcomes : List Outcome) (said : List Exchange) (file : LogFile) : Prop :=
  ∃ before answer after, said = before ++ .block file.addBlock answer :: after ∧
    registers answer ∧ (∀ e ∈ before, e.added? ≠ some file) ∧
    (∀ e ∈ after, ¬ e.asksFor file = true) ∧
    outcomes.countP (Outcome.isNew file) = if answer.isOk then 1 else 0

/-- The books of a session agree with what was said and with each other. -/
structure InBooks (outcomes : List Outcome) (said : List Exchange) (s : Session σ) : Prop where
  registered_eq : s.registered = said.filterMap Exchange.added?
  nodup : s.registered.Nodup
  mem_index : ∀ file, file ∈ s.index ↔ file ∈ s.registered
  once : ∀ file ∈ s.registered, RegisteredOnce outcomes said file
  never : ∀ file, file ∉ s.registered → outcomes.countP (Outcome.isNew file) = 0
  mining : s.phase = .mining → s.registered ≠ []

theorem InBooks.new (link : Link σ) : InBooks [] [] (new link) where
  registered_eq := rfl
  nodup := List.nodup_nil
  mem_index := by simp [Session.new]
  once := by simp [Session.new]
  never := by simp
  mining := by simp [Session.new]

theorem RegisteredOnce.append {file : LogFile} (h : RegisteredOnce outcomes said file)
    (hsent : ∀ e ∈ sent, ¬ e.asksFor file = true) (hnew : outcome.isNew file = false) :
    RegisteredOnce (outcomes ++ [outcome]) (said ++ sent) file := by
  obtain ⟨before, answer, after, rfl, hanswer, hbefore, hafter, hcount⟩ := h
  refine ⟨before, answer, after ++ sent, by simp, hanswer, hbefore, fun e he => ?_, ?_⟩
  · exact (List.mem_append.mp he).elim (hafter e) (hsent e)
  · simp [List.countP_append, hcount, hnew]

/-- A call that registers nothing and tells of no new file leaves the books in order, also when it
starts mining over the files that are there. -/
theorem InBooks.keep (h : InBooks outcomes said s) (hregistered : s'.registered = s.registered)
    (hindex : s'.index = s.index) (hphase : s'.phase = .mining → s.registered ≠ [])
    (hadded : ∀ e ∈ sent, e.added? = none)
    (hasks : ∀ file ∈ s.registered, ∀ e ∈ sent, ¬ e.asksFor file = true)
    (hnew : ∀ file, outcome.isNew file = false) :
    InBooks (outcomes ++ [outcome]) (said ++ sent) s' where
  registered_eq := by
    have hsent : sent.filterMap Exchange.added? = [] := List.filterMap_eq_nil_iff.mpr hadded
    simp [hregistered, h.registered_eq, hsent]
  nodup := hregistered ▸ h.nodup
  mem_index := by simpa [hregistered, hindex] using h.mem_index
  once file hfile := by
    rw [hregistered] at hfile
    exact (h.once file hfile).append (hasks file hfile) (hnew file)
  never file hfile := by
    rw [hregistered] at hfile
    simp [List.countP_append, h.never file hfile, hnew file]
  mining hs := hregistered ▸ hphase hs

theorem InBooks.add (h : InBooks outcomes said s) {file : LogFile} {answer : Except Error Unit}
    (link : Link σ) (hfile : file ∉ s.registered) (hanswer : registers answer) :
    InBooks (outcomes ++ [.register file (.ok answer.isOk)])
      (said ++ [.block file.addBlock answer])
      ⟨link, s.registered ++ [file], s.index.insert file, s.phase⟩ where
  registered_eq := by
    simp [List.filterMap_append, Exchange.added?_addBlock, hanswer, ← h.registered_eq]
  nodup := by
    refine List.nodup_append.mpr ⟨h.nodup, by simp, fun f hf g hg => ?_⟩
    exact fun heq => hfile (List.mem_singleton.mp hg ▸ heq ▸ hf)
  mem_index := mem_insert_index h.mem_index file
  once f hf := by
    rcases List.mem_append.mp hf with hf | hf
    · have hne : f ≠ file := fun heq => hfile (heq ▸ hf)
      refine (h.once f hf).append ?_ ?_
      · simpa [Exchange.asksFor_addBlock] using hne.symm
      · cases answer.isOk <;> simp [Outcome.isNew, hne.symm]
    · obtain rfl := List.mem_singleton.mp hf
      refine ⟨said, answer, [], rfl, hanswer, fun e he heq => hfile ?_, by simp, ?_⟩
      · rw [h.registered_eq]
        exact List.mem_filterMap.mpr ⟨e, he, heq⟩
      · cases hok : answer.isOk <;>
          simp [List.countP_append, h.never f hfile, Outcome.isNew]
  never f hf := by
    obtain ⟨hf, hne⟩ : f ∉ s.registered ∧ f ≠ file := by simpa using hf
    cases answer.isOk <;> simp [List.countP_append, h.never f hf, Outcome.isNew, hne.symm]
  mining _ := by simp

theorem Step.inBooks (hstep : Step s outcome sent s') (h : InBooks outcomes said s) :
    InBooks (outcomes ++ [outcome]) (said ++ sent) s' := by
  cases hstep with
  | discover answer link =>
      exact h.keep rfl rfl h.mining (by simp) (by simp) fun _ => rfl
  | refuseRegister file | skip file =>
      exact h.keep rfl rfl h.mining (by simp) (by simp) fun _ => rfl
  | refuseStart | startNothing =>
      exact h.keep rfl rfl h.mining (by simp) (by simp) fun _ => rfl
  | add file answer link hphase hfile hanswer =>
      exact h.add link (fun hf => hfile ((h.mem_index file).mpr hf)) hanswer
  | failAdd file e link hphase hfile he =>
      refine h.keep rfl rfl h.mining (by simp [Exchange.added?_addBlock, he]) ?_ fun _ => rfl
      intro f hf
      have hne : file ≠ f := fun heq => hfile ((h.mem_index file).mpr (heq ▸ hf))
      simpa [Exchange.asksFor_addBlock] using hne
  | start link hphase hfiles =>
      exact h.keep rfl rfl (fun _ => hfiles) (by simp) (by simp) fun _ => rfl
  | failStart e link =>
      exact h.keep rfl rfl h.mining (by simp) (by simp) fun _ => rfl

theorem Course.inBooks {link : Link σ} (h : Course (new link) outcomes said s) :
    InBooks outcomes said s := by
  induction h with
  | nothing => exact .new link
  | step _ hstep ih => exact hstep.inBooks ih

/-- After any calls and any answers the registered files are those of the answers that count. -/
theorem registered_run (db : Database σ) (link : Link σ) (calls : List Call) :
    ∃ said, (run db (new link) calls).2.link.exchanges = link.exchanges ++ said ∧
      InBooks (run db (new link) calls).1 said (run db (new link) calls).2 := by
  obtain ⟨said, hcourse, hsaid⟩ := run_course db (new link) calls
  exact ⟨said, hsaid, hcourse.inBooks⟩

end Session

end ChangeCapture.Mining
