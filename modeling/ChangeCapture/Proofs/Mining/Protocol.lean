import ChangeCapture.Proofs.Mining.Runs
import ChangeCapture.Proofs.Mining.Statements

/-!
# The protocol of a session

Whatever is called on a session and whatever the database answers, files are added and starts fail
until one start succeeds, from then on only the catalog is asked, and the end of mining is sent
exactly if mining was started.
-/

namespace ChangeCapture.Mining

namespace Exchange

def IsCatalogQuery : Exchange → Prop
  | .query sql _ => sql = catalogQuery
  | _ => False

/-- What may be sent as long as no start has succeeded. -/
def IsSetUp : Exchange → Prop
  | .query sql _ => sql = catalogQuery
  | .block text answer =>
      (∃ file : LogFile, text = file.addBlock) ∨
        (text = Options.fixed.startBlock ∧ ∃ e, answer = .error e)
  | .close _ => False

def isStart : Exchange → Bool
  | .block text _ => text == Options.fixed.startBlock
  | _ => false

/-- A start that succeeded. -/
def isStarted : Exchange → Bool
  | .block text (.ok ()) => text == Options.fixed.startBlock
  | _ => false

def isEnd : Exchange → Bool
  | .block text _ => text == endBlock
  | _ => false

theorem IsCatalogQuery.isSetUp {e : Exchange} (h : e.IsCatalogQuery) : e.IsSetUp := by
  cases e with
  | query sql answer => exact h
  | block text answer => exact h.elim
  | close answer => exact h.elim

theorem IsSetUp.not_isStarted {e : Exchange} (h : e.IsSetUp) : ¬ e.isStarted = true := by
  cases e with
  | query sql answer => simp [isStarted]
  | close answer => simp [isStarted]
  | block text answer =>
      rcases h with ⟨file, rfl⟩ | ⟨rfl, e, rfl⟩
      · cases answer <;> simp [isStarted, LogFile.addBlock_ne_startBlock]
      · simp [isStarted]

theorem IsSetUp.not_isEnd {e : Exchange} (h : e.IsSetUp) : ¬ e.isEnd = true := by
  cases e with
  | query sql answer => simp [isEnd]
  | close answer => simp [isEnd]
  | block text answer =>
      rcases h with ⟨file, rfl⟩ | ⟨rfl, -⟩
      · simp [isEnd, LogFile.addBlock_ne_endBlock]
      · simp [isEnd, startBlock_ne_endBlock]

end Exchange

/-- What is said on an open session in each phase. -/
inductive Dialogue : Phase → List Exchange → Prop
  | configuring (said : List Exchange) (hsaid : ∀ e ∈ said, e.IsSetUp) :
      Dialogue .configuring said
  | mining (before after : List Exchange) (hbefore : ∀ e ∈ before, e.IsSetUp)
      (hafter : ∀ e ∈ after, e.IsCatalogQuery) :
      Dialogue .mining (before ++ .block Options.fixed.startBlock (.ok ()) :: after)

namespace Dialogue

variable {phase : Phase} {said : List Exchange}

theorem ne_closed (h : Dialogue phase said) : phase ≠ .closed := by
  cases h <;> simp

theorem setUp (h : Dialogue .configuring said) {e : Exchange} (he : e.IsSetUp) :
    Dialogue .configuring (said ++ [e]) := by
  cases h with
  | configuring _ hsaid =>
      refine .configuring _ fun x hx => ?_
      rcases List.mem_append.mp hx with hx | hx
      · exact hsaid x hx
      · exact List.mem_singleton.mp hx ▸ he

theorem query (h : Dialogue phase said) (answer : Except Error (List String)) :
    Dialogue phase (said ++ [.query catalogQuery answer]) := by
  cases h with
  | configuring _ hsaid => exact (Dialogue.configuring _ hsaid).setUp rfl
  | mining before after hbefore hafter =>
      rw [List.append_assoc, List.cons_append]
      refine .mining before _ hbefore fun x hx => ?_
      rcases List.mem_append.mp hx with hx | hx
      · exact hafter x hx
      · exact List.mem_singleton.mp hx ▸ rfl

theorem start (h : Dialogue .configuring said) :
    Dialogue .mining (said ++ [.block Options.fixed.startBlock (.ok ())]) := by
  cases h with
  | configuring _ hsaid => exact .mining said [] hsaid (by simp)

/-- Mining is on exactly if one start succeeded, and no more than one ever does. -/
theorem countP_isStarted (h : Dialogue phase said) :
    said.countP Exchange.isStarted = if phase = .mining then 1 else 0 := by
  have hzero : ∀ {xs : List Exchange}, (∀ e ∈ xs, e.IsSetUp) →
      xs.countP Exchange.isStarted = 0 :=
    fun hxs => List.countP_eq_zero.mpr fun e he => (hxs e he).not_isStarted
  cases h with
  | configuring _ hsaid => simp [hzero hsaid]
  | mining before after hbefore hafter =>
      have hend := hzero fun e he => (hafter e he).isSetUp
      simp [List.countP_append, hzero hbefore, hend, Exchange.isStarted]

theorem countP_isEnd (h : Dialogue phase said) : said.countP Exchange.isEnd = 0 := by
  refine List.countP_eq_zero.mpr fun e he => ?_
  cases h with
  | configuring _ hsaid => exact (hsaid e he).not_isEnd
  | mining before after hbefore hafter =>
      rcases List.mem_append.mp he with he | he
      · exact (hbefore e he).not_isEnd
      · rcases List.mem_cons.mp he with rfl | he
        · simp [Exchange.isEnd, startBlock_ne_endBlock]
        · exact (hafter e he).isSetUp.not_isEnd

end Dialogue

/-- Each attempt to start follows an answer after which a file counts as registered. -/
def StartsAfterFile (said : List Exchange) : Prop :=
  ∀ before answer, before ++ [.block Options.fixed.startBlock answer] <+: said →
    ∃ (file : LogFile) (added : Except Error Unit),
      .block file.addBlock added ∈ before ∧ registers added

/-- What is said when a session is closed in each phase, and what closing returns. -/
inductive Closing : Phase → List Exchange → Except Error Unit → Prop
  | configuring (closed : Except Error Unit) : Closing .configuring [.close closed] closed
  | ended (closed : Except Error Unit) :
      Closing .mining [.block endBlock (.ok ()), .close closed] closed
  | failedEnd (e : Error) (closed : Except Error Unit) :
      Closing .mining [.block endBlock (.error e), .close closed] (.error e)

namespace Closing

variable {phase : Phase} {closing : List Exchange} {result : Except Error Unit}

theorem countP_isEnd (h : Closing phase closing result) :
    closing.countP Exchange.isEnd = if phase = .mining then 1 else 0 := by
  cases h <;> simp [Exchange.isEnd]

end Closing

namespace Session

variable {σ : Type} {s₀ s s' : Session σ} {outcomes : List Outcome} {outcome : Outcome}
  {said sent : List Exchange}

theorem Step.dialogue (hstep : Step s outcome sent s') (h : Dialogue s.phase said) :
    Dialogue s'.phase (said ++ sent) := by
  cases hstep with
  | discover answer link => exact h.query answer
  | refuseRegister | skip | refuseStart | startNothing => simpa using h
  | add file answer link hphase =>
      change Dialogue s.phase _
      rw [hphase] at h ⊢
      exact h.setUp (Or.inl ⟨file, rfl⟩)
  | failAdd file e link hphase =>
      change Dialogue s.phase _
      rw [hphase] at h ⊢
      exact h.setUp (Or.inl ⟨file, rfl⟩)
  | start link hphase =>
      rw [hphase] at h
      exact h.start
  | failStart e link hphase =>
      change Dialogue s.phase _
      rw [hphase] at h ⊢
      exact h.setUp (Or.inr ⟨rfl, e, rfl⟩)

/-- A registered file was added by an answer that counts. -/
def HasSource (s : Session σ) (said : List Exchange) : Prop :=
  ∀ file ∈ s.registered, ∃ added, .block file.addBlock added ∈ said ∧ registers added

theorem Step.hasSource (hstep : Step s outcome sent s') (h : s.HasSource said) :
    s'.HasSource (said ++ sent) := by
  have hkeep : s.HasSource (said ++ sent) := fun file hfile =>
    (h file hfile).imp fun _ hadded => ⟨List.mem_append_left _ hadded.1, hadded.2⟩
  cases hstep with
  | add file answer link hphase hfile hanswer =>
      intro f hf
      rcases List.mem_append.mp hf with hf | hf
      · exact hkeep f hf
      · obtain rfl := List.mem_singleton.mp hf
        exact ⟨answer, by simp, hanswer⟩
  | _ => exact hkeep

theorem Step.startsAfterFile (hstep : Step s outcome sent s') (hsource : s.HasSource said)
    (h : StartsAfterFile said) : StartsAfterFile (said ++ sent) := by
  -- a start is sent only while some file is registered, and that file has its source in `said`
  have hnew : ∀ answer, s.registered ≠ [] →
      StartsAfterFile (said ++ [.block Options.fixed.startBlock answer]) := by
    intro answer hfiles before answer' hpre
    rcases List.prefix_concat_iff.mp hpre with heq | hpre
    · obtain ⟨file, hfile⟩ := List.exists_mem_of_ne_nil _ hfiles
      obtain ⟨added, hadded⟩ := hsource file hfile
      obtain ⟨rfl, -⟩ := List.append_inj' heq rfl
      exact ⟨file, added, hadded⟩
    · exact h before answer' hpre
  have hother : ∀ e : Exchange, ¬ e.isStart = true → StartsAfterFile (said ++ [e]) := by
    intro e he before answer hpre
    rcases List.prefix_concat_iff.mp hpre with heq | hpre
    · obtain ⟨-, heq⟩ := List.append_inj' heq rfl
      simp [← List.singleton_inj.mp heq, Exchange.isStart] at he
    · exact h before answer hpre
  cases hstep with
  | discover => exact hother _ (by simp [Exchange.isStart])
  | refuseRegister | skip | refuseStart | startNothing => simpa using h
  | add file => exact hother _ (by simp [Exchange.isStart, LogFile.addBlock_ne_startBlock])
  | failAdd file => exact hother _ (by simp [Exchange.isStart, LogFile.addBlock_ne_startBlock])
  | start link hphase hfiles => exact hnew _ hfiles
  | failStart e link hphase hfiles => exact hnew _ hfiles

theorem Course.protocol {link : Link σ} (h : Course (new link) outcomes said s) :
    Dialogue s.phase said ∧ s.HasSource said ∧ StartsAfterFile said := by
  induction h with
  | nothing =>
      refine ⟨.configuring [] (by simp), fun file hfile => ?_, fun before answer hpre => ?_⟩
      · simp [new] at hfile
      · simp at hpre
  | step _ hstep ih =>
      exact ⟨hstep.dialogue ih.1, hstep.hasSource ih.2.1, hstep.startsAfterFile ih.2.1 ih.2.2⟩

theorem close_closing (db : Database σ) (s : Session σ) (hphase : s.phase ≠ .closed) :
    ∃ closing, (s.close db).2.exchanges = s.link.exchanges ++ closing ∧
      Closing s.phase closing (s.close db).1 := by
  cases hs : s.phase with
  | closed => exact (hphase hs).elim
  | configuring =>
      refine ⟨[.close (db.close s.link.peer).1], ?_, ?_⟩
      · simp [close, isMining, hs, Link.close]
      · simpa [close, isMining, hs, Link.close] using Closing.configuring _
  | mining =>
      let closed := (db.close (db.execute s.link.peer endBlock).2).1
      refine ⟨[.block endBlock (db.execute s.link.peer endBlock).1, .close closed], ?_, ?_⟩
      · cases hended : (db.execute s.link.peer endBlock).1 <;>
          simp [close, isMining, hs, Link.close, Link.execute, hended, closed]
      · cases hended : (db.execute s.link.peer endBlock).1 with
        | ok =>
            simpa [close, isMining, hs, Link.close, Link.execute, hended, closed] using
              Closing.ended closed
        | error e =>
            simpa [close, isMining, hs, Link.close, Link.execute, hended, closed] using
              Closing.failedEnd e closed

/-- What a session says from its opening on, and what is added when it is closed. -/
theorem session_protocol (db : Database σ) (link : Link σ) (calls : List Call) :
    ∃ said closing, (run db (new link) calls).2.link.exchanges = link.exchanges ++ said ∧
      ((run db (new link) calls).2.close db).2.exchanges = link.exchanges ++ said ++ closing ∧
      Dialogue (run db (new link) calls).2.phase said ∧
      StartsAfterFile said ∧
      Closing (run db (new link) calls).2.phase closing
        ((run db (new link) calls).2.close db).1 ∧
      said.countP Exchange.isStarted ≤ 1 ∧
      (said ++ closing).countP Exchange.isEnd = said.countP Exchange.isStarted := by
  obtain ⟨said, hcourse, hsaid⟩ := run_course db (new link) calls
  obtain ⟨hdialogue, -, hstarts⟩ := hcourse.protocol
  obtain ⟨closing, hexchanges, hclosing⟩ := close_closing db _ hdialogue.ne_closed
  have hstarted := hdialogue.countP_isStarted
  refine ⟨said, closing, hsaid, by rw [hexchanges, hsaid]; rfl, hdialogue, hstarts, hclosing,
    ?_, ?_⟩
  · rw [hstarted]
    split <;> simp
  · rw [List.countP_append, hdialogue.countP_isEnd, hclosing.countP_isEnd, hstarted, Nat.zero_add]

end Session

end ChangeCapture.Mining
