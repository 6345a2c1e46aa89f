import ChangeCapture.Proofs.Mining.Protocol

/-!
# Establishing a session

A session is established by a fixed script: the catalog is asked, a block is sent for each file in
the order in which the files are first met, and mining is started. The script ends early at the
first failure that is no tolerated duplicate, and this failure is what is returned.
-/

namespace ChangeCapture.Mining

/-- A file with the answer to its block. -/
structure Addition where
  file : LogFile
  answer : Except Error Unit

namespace Addition

def exchange (a : Addition) : Exchange := .block a.file.addBlock a.answer

/-- Files whose answers all count. -/
def AllRegister (added : List Addition) : Prop := ∀ a ∈ added, registers a.answer

end Addition

open Addition (AllRegister)

namespace Exchange

/-- The failure that the set-up of a session ends with. That a file is known already is none. -/
def fatal? : Exchange → Option Error
  | .query _ (.error e) => some e
  | .block text (.error e) =>
      if (LogFile.ofBlock? text).isSome && registers (.error e) then none else some e
  | .close (.error e) => some e
  | _ => none

theorem fatal?_addition {a : Addition} (h : registers a.answer) : a.exchange.fatal? = none := by
  obtain ⟨file, answer⟩ := a
  cases answer with
  | ok => rfl
  | error e =>
      have he : registers (.error e) = true := h
      simp [Addition.exchange, fatal?, he]

theorem fatal?_addBlock (file : LogFile) {e : Error} (he : registers (.error e) = false) :
    (Exchange.block file.addBlock (.error e)).fatal? = some e := by
  simp [fatal?, he]

@[simp] theorem fatal?_startBlock (e : Error) :
    (Exchange.block Options.fixed.startBlock (.error e)).fatal? = some e := by
  simp [fatal?]

theorem filterMap_fatal? {added : List Addition} (h : AllRegister added) :
    (added.map Addition.exchange).filterMap fatal? = [] := by
  rw [List.filterMap_eq_nil_iff]
  intro x hx
  obtain ⟨a, ha, rfl⟩ := List.mem_map.mp hx
  exact fatal?_addition (h a ha)

theorem countP_isStarted_additions (added : List Addition) :
    (added.map Addition.exchange).countP isStarted = 0 := by
  refine List.countP_eq_zero.mpr fun x hx => ?_
  obtain ⟨a, -, rfl⟩ := List.mem_map.mp hx
  have hsetUp : a.exchange.IsSetUp := Or.inl ⟨a.file, rfl⟩
  exact hsetUp.not_isStarted

end Exchange

namespace Session

variable {σ : Type} {s : Session σ} {files : List LogFile} {file : LogFile}

/-! ## Registering the files of a list -/

/-- The files of a list that are not registered yet, in the order in which they are first met. -/
def unregistered (s : Session σ) (files : List LogFile) : List LogFile :=
  (files.filter fun f => f ∉ s.registered).eraseDups

@[simp] theorem unregistered_nil (s : Session σ) : s.unregistered [] = [] := rfl

theorem unregistered_cons_of_mem (h : file ∈ s.registered) (files : List LogFile) :
    s.unregistered (file :: files) = s.unregistered files := by
  simp [unregistered, h]

theorem unregistered_cons_of_notMem (h : file ∉ s.registered) (files : List LogFile) {t : Session σ}
    (ht : t.registered = s.registered ++ [file]) :
    s.unregistered (file :: files) = file :: t.unregistered files := by
  have hfilter : (files.filter fun f => f ∉ s.registered).filter (fun f => !f == file) =
      files.filter fun f => f ∉ t.registered := by
    rw [List.filter_filter, ht]
    refine List.filter_congr fun f _ => ?_
    by_cases hf : f = file <;> simp [hf, h]
  rw [unregistered, List.filter_cons_of_pos (by simpa using h), List.eraseDups_cons, hfilter]
  rfl

/-- What registering the files of a list returns, what is sent for it and what it leaves. -/
inductive Additions (s : Session σ) (files : List LogFile) :
    Except Error Unit → List Exchange → Session σ → Prop
  | all (added : List Addition) (link : Link σ) (index : Std.HashSet LogFile)
      (hadded : AllRegister added) (hfiles : added.map Addition.file = s.unregistered files) :
      Additions s files (.ok ()) (added.map Addition.exchange)
        ⟨link, s.registered ++ s.unregistered files, index, s.phase⟩
  | upTo (added : List Addition) (file : LogFile) (e : Error) (link : Link σ)
      (index : Std.HashSet LogFile) (hadded : AllRegister added)
      (hfiles : added.map Addition.file ++ [file] <+: s.unregistered files)
      (he : registers (.error e) = false) :
      Additions s files (.error e)
        (added.map Addition.exchange ++ [.block file.addBlock (.error e)])
        ⟨link, s.registered ++ added.map Addition.file, index, s.phase⟩

namespace Additions

variable {result : Except Error Unit} {sent : List Exchange} {s' : Session σ}

theorem skip (h : Additions s files result sent s') (hfile : file ∈ s.registered) :
    Additions s (file :: files) result sent s' := by
  have hsame := unregistered_cons_of_mem hfile files
  cases h with
  | all added link index hadded hfiles =>
      rw [← hsame] at hfiles ⊢
      exact .all added link index hadded hfiles
  | upTo added other e link index hadded hfiles he =>
      rw [← hsame] at hfiles
      exact .upTo added other e link index hadded hfiles he

theorem add {answer : Except Error Unit} {link : Link σ} {index : Std.HashSet LogFile}
    (h : Additions ⟨link, s.registered ++ [file], index, s.phase⟩ files result sent s')
    (hfile : file ∉ s.registered) (hanswer : registers answer) :
    Additions s (file :: files) result (.block file.addBlock answer :: sent) s' := by
  have hnext := unregistered_cons_of_notMem hfile files
    (t := ⟨link, s.registered ++ [file], index, s.phase⟩) rfl
  have hfirst : ∀ {added : List Addition}, AllRegister added →
      AllRegister (⟨file, answer⟩ :: added) := fun hadded =>
    List.forall_mem_cons.mpr ⟨hanswer, hadded⟩
  cases h with
  | all added link index hadded hfiles =>
      rw [List.append_assoc, List.singleton_append, ← hnext]
      exact .all (⟨file, answer⟩ :: added) link index (hfirst hadded) (by
        rw [hnext, List.map_cons, hfiles])
  | upTo added other e link index hadded hfiles he =>
      rw [List.append_assoc, List.singleton_append]
      refine .upTo (⟨file, answer⟩ :: added) other e link index (hfirst hadded) ?_ he
      rw [hnext, List.map_cons, List.cons_append, List.prefix_cons_inj]
      exact hfiles

end Additions

/-- The files of a list are registered in the order in which they are first met, up to the first
failure. -/
theorem registerAll_additions (db : Database σ) (s : Session σ) (files : List LogFile)
    (hphase : s.phase = .configuring) (hindex : ∀ f, f ∈ s.index ↔ f ∈ s.registered) :
    ∃ sent, Additions s files (registerAll db s files).1 sent (registerAll db s files).2 ∧
      (registerAll db s files).2.link.exchanges = s.link.exchanges ++ sent := by
  induction files generalizing s with
  | nil =>
      have hnothing : Additions s [] (.ok ()) _ _ :=
        .all [] s.link s.index (List.forall_mem_nil _) rfl
      exact ⟨[], by simpa [registerAll] using hnothing, by simp [registerAll]⟩
  | cons file files ih =>
      obtain ⟨sent, hstep, hsent⟩ := register_step db s file
      rw [registerAll]
      generalize s.register db file = registered at hstep hsent
      obtain ⟨result, s'⟩ := registered
      dsimp only at hstep hsent
      cases hstep with
      | refuseRegister _ hother => exact absurd hphase hother
      | skip _ _ hfile =>
          obtain ⟨sent, hadditions, hlater⟩ := ih s hphase hindex
          exact ⟨sent, hadditions.skip ((hindex file).mp hfile), hlater⟩
      | add _ answer link _ hfile hanswer =>
          -- The later files are registered by the session that knows this one.
          have hnew : file ∉ s.registered := fun h => hfile ((hindex file).mpr h)
          obtain ⟨sent, hadditions, hlater⟩ :=
            ih ⟨link, s.registered ++ [file], s.index.insert file, s.phase⟩ hphase
              (mem_insert_index hindex file)
          refine ⟨_, hadditions.add hnew hanswer, ?_⟩
          rw [hlater, hsent, List.append_assoc, List.singleton_append]
      | failAdd _ e link _ hfile he =>
          have hnew : file ∉ s.registered := fun h => hfile ((hindex file).mpr h)
          have hfirst := unregistered_cons_of_notMem hnew files
            (t := { s with registered := s.registered ++ [file] }) rfl
          have hfails : Additions s (file :: files) (.error e) _ _ :=
            .upTo [] file e link s.index (List.forall_mem_nil _) (by rw [hfirst]; simp) he
          exact ⟨_, by simpa using hfails, hsent⟩

/-! ## The script -/

/-- The files of a catalog, each where it is first met. -/
def catalogFiles (paths : List String) : List LogFile := (paths.map LogFile.mk).eraseDups

/-- What is said while a session is established, what is returned, and the phase and the files of
the session after it. -/
inductive Setup : List Exchange → Except Error Unit → Phase → List LogFile → Prop
  | noCatalog (e : Error) :
      Setup [.query catalogQuery (.error e)] (.error e) .configuring []
  | noFiles :
      Setup [.query catalogQuery (.ok [])] (.error .noLogFiles) .configuring []
  | notAdded (paths : List String) (added : List Addition) (file : LogFile) (e : Error)
      (hadded : AllRegister added)
      (hfiles : added.map Addition.file ++ [file] <+: catalogFiles paths)
      (he : registers (.error e) = false) :
      Setup (.query catalogQuery (.ok paths) :: added.map Addition.exchange ++
          [.block file.addBlock (.error e)])
        (.error e) .configuring (added.map Addition.file)
  | notStarted (paths : List String) (added : List Addition) (e : Error)
      (hadded : AllRegister added) (hfiles : added.map Addition.file = catalogFiles paths)
      (hsome : catalogFiles paths ≠ []) :
      Setup (.query catalogQuery (.ok paths) :: added.map Addition.exchange ++
          [.block Options.fixed.startBlock (.error e)])
        (.error e) .configuring (catalogFiles paths)
  | started (paths : List String) (added : List Addition)
      (hadded : AllRegister added) (hfiles : added.map Addition.file = catalogFiles paths)
      (hsome : catalogFiles paths ≠ []) :
      Setup (.query catalogQuery (.ok paths) :: added.map Addition.exchange ++
          [.block Options.fixed.startBlock (.ok ())])
        (.ok ()) .mining (catalogFiles paths)

/-- What the exchanges of a set-up come to: its first failure that is no tolerated duplicate, or
else success if mining was started. -/
def verdict (said : List Exchange) : Except Error Unit :=
  match said.findSome? Exchange.fatal? with
  | some e => .error e
  | none => if said.any Exchange.isStarted then .ok () else .error .noLogFiles

namespace Setup

variable {said : List Exchange} {result : Except Error Unit} {phase : Phase}

theorem findSome?_fatal? {added : List Addition} (h : AllRegister added) (paths : List String)
    (last : Exchange) :
    (.query catalogQuery (.ok paths) :: added.map Addition.exchange ++ [last]).findSome?
      Exchange.fatal? = last.fatal? := by
  have hnone : (added.map Addition.exchange).findSome? Exchange.fatal? = none := by
    rw [List.findSome?_eq_none_iff, ← List.filterMap_eq_nil_iff]
    exact Exchange.filterMap_fatal? h
  rw [List.findSome?_append, List.findSome?_cons, hnone]
  change (Option.none.or ([last].findSome? Exchange.fatal?)) = last.fatal?
  cases hlast : last.fatal? <;> simp [hlast]

theorem verdict_started {added : List Addition} (paths : List String) (h : AllRegister added) :
    verdict (.query catalogQuery (.ok paths) :: added.map Addition.exchange ++
      [.block Options.fixed.startBlock (.ok ())]) = .ok () := by
  rw [verdict, findSome?_fatal? h]
  simp [Exchange.fatal?, Exchange.isStarted]

theorem verdict_eq (h : Setup said result phase files) : verdict said = result := by
  cases h with
  | noCatalog e => rfl
  | noFiles => rfl
  | notAdded paths added file e hadded hfiles he =>
      rw [verdict, findSome?_fatal? hadded, Exchange.fatal?_addBlock file he]
  | notStarted paths added e hadded =>
      rw [verdict, findSome?_fatal? hadded, Exchange.fatal?_startBlock]
  | started paths added hadded => exact verdict_started paths hadded

theorem filterMap_dropLast (h : Setup said result phase files) :
    said.dropLast.filterMap Exchange.fatal? = [] := by
  cases h with
  | noCatalog | noFiles => rfl
  | notAdded paths added _ _ hadded | notStarted paths added _ hadded
  | started paths added hadded =>
      rw [List.dropLast_concat, List.filterMap_cons_none rfl]
      exact Exchange.filterMap_fatal? hadded

theorem countP_isStarted (h : Setup said result phase files) :
    said.countP Exchange.isStarted = if result.isOk then 1 else 0 := by
  cases h with
  | noCatalog | noFiles => rfl
  | notAdded | notStarted | started =>
      rw [List.countP_append, List.countP_cons_of_neg (by simp [Exchange.isStarted]),
        Exchange.countP_isStarted_additions]
      simp [Exchange.isStarted, Except.isOk, Except.toBool]

theorem result_eq_ok_iff (h : Setup said result phase files) : result = .ok () ↔
    ∃ paths added, said = .query catalogQuery (.ok paths) :: added.map Addition.exchange ++
        [.block Options.fixed.startBlock (.ok ())] ∧
      added.map Addition.file = catalogFiles paths ∧ catalogFiles paths ≠ [] ∧
      AllRegister added ∧ phase = .mining ∧ files = catalogFiles paths := by
  constructor
  · rintro rfl
    cases h with
    | started paths added hadded hfiles hsome =>
        exact ⟨paths, added, rfl, hfiles, hsome, hadded, rfl, rfl⟩
  · rintro ⟨paths, added, rfl, -, -, hadded, -⟩
    rw [← h.verdict_eq, verdict_started paths hadded]

end Setup

theorem unregistered_of_nil (h : s.registered = []) (paths : List String) :
    s.unregistered (paths.map LogFile.mk) = catalogFiles paths := by
  simp [unregistered, catalogFiles, h]

theorem eq_nil_of_catalogFiles {paths : List String} (h : catalogFiles paths = []) :
    paths = [] := by
  cases paths with
  | nil => rfl
  | cons path rest =>
      rw [catalogFiles, List.map_cons, List.eraseDups_cons] at h
      exact nomatch h

theorem start_setup (db : Database σ) {paths : List String} {added : List Addition}
    (hphase : s.phase = .configuring) (hregistered : s.registered = catalogFiles paths)
    (hadded : AllRegister added) (hfiles : added.map Addition.file = catalogFiles paths) :
    ∃ sent, Setup (.query catalogQuery (.ok paths) :: added.map Addition.exchange ++ sent)
        (s.start db).1 (s.start db).2.phase (s.start db).2.registered ∧
      (s.start db).2.link.exchanges = s.link.exchanges ++ sent := by
  obtain ⟨sent, hstep, hsent⟩ := start_step db s
  refine ⟨sent, ?_, hsent⟩
  generalize s.start db = started at hstep hsent
  obtain ⟨result, s'⟩ := started
  dsimp only at hstep hsent ⊢
  cases hstep with
  | refuseStart hother => exact absurd hphase hother
  | startNothing _ hnothing =>
      rw [hregistered] at hnothing
      obtain rfl := eq_nil_of_catalogFiles hnothing
      obtain rfl := List.map_eq_nil_iff.mp (hfiles.trans hnothing)
      rw [hphase, hregistered]
      exact .noFiles
  | start link _ hsome =>
      rw [hregistered] at hsome ⊢
      exact .started paths added hadded hfiles hsome
  | failStart e link _ hsome =>
      rw [hregistered] at hsome ⊢
      rw [hphase]
      exact .notStarted paths added e hadded hfiles hsome

theorem establish_setup (db : Database σ) (link : Link σ) :
    ∃ said, Setup said (establish db link).1 (establish db link).2.phase
        (establish db link).2.registered ∧
      (establish db link).2.link.exchanges = link.exchanges ++ said := by
  obtain ⟨asked, hstep, hasked⟩ := discover_step db (new link)
  rw [establish]
  generalize (new link).discover db = discovered at hstep hasked
  obtain ⟨result, s⟩ := discovered
  dsimp only at hstep hasked
  cases hstep with
  | discover answer l =>
      cases answer with
      | error e => exact ⟨_, .noCatalog e, hasked⟩
      | ok paths =>
          obtain ⟨sent, hadditions, hsent⟩ := registerAll_additions db { new link with link := l }
            (paths.map LogFile.mk) rfl (by simp [new])
          have hcatalog := unregistered_of_nil (s := { new link with link := l }) rfl paths
          dsimp only [Except.map]
          generalize registerAll db { new link with link := l } (paths.map LogFile.mk) =
            registered at hadditions hsent
          obtain ⟨result, s⟩ := registered
          dsimp only at hadditions hsent
          cases hadditions with
          | upTo added file e link' index hadded hfiles he =>
              rw [hcatalog] at hfiles
              refine ⟨_, .notAdded paths added file e hadded hfiles he, ?_⟩
              rw [hsent, hasked, List.append_assoc]
              rfl
          | all added link' index hadded hfiles =>
              rw [hcatalog] at hfiles
              -- All files are there, so it is the start that decides.
              obtain ⟨last, hsetup, hlast⟩ := start_setup db
                (s := ⟨link', [] ++ catalogFiles paths, index, .configuring⟩) rfl rfl hadded hfiles
              rw [hcatalog]
              refine ⟨_, hsetup, hlast.trans ?_⟩
              change link'.exchanges ++ last = _
              change link'.exchanges = l.exchanges ++ _ at hsent
              rw [hsent, hasked, List.append_assoc, List.append_assoc]
              rfl

/-- Establishing a session asks for the catalog, adds its files in order and starts mining, up to
the first failure that is no tolerated duplicate, which it returns. -/
theorem establish_script (db : Database σ) (link : Link σ) :
    ∃ said, (establish db link).2.link.exchanges = link.exchanges ++ said ∧
      Setup said (establish db link).1 (establish db link).2.phase
        (establish db link).2.registered ∧
      (establish db link).1 = verdict said ∧
      said.dropLast.filterMap Exchange.fatal? = [] ∧
      (said.countP Exchange.isStarted = if (establish db link).1.isOk then 1 else 0) ∧
      ((establish db link).1 = .ok () ↔
        ∃ paths added, said = .query catalogQuery (.ok paths) :: added.map Addition.exchange ++
            [.block Options.fixed.startBlock (.ok ())] ∧
          added.map Addition.file = catalogFiles paths ∧ catalogFiles paths ≠ [] ∧
          AllRegister added ∧ (establish db link).2.phase = .mining ∧
          (establish db link).2.registered = catalogFiles paths) := by
  obtain ⟨said, hsetup, hsaid⟩ := establish_setup db link
  exact ⟨said, hsaid, hsetup, hsetup.verdict_eq.symm, hsetup.filterMap_dropLast,
    hsetup.countP_isStarted, hsetup.result_eq_ok_iff⟩

end Session

end ChangeCapture.Mining
