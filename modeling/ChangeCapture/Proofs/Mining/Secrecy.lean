import ChangeCapture.Proofs.Mining.Runs

/-!
# The password is never seen

A manager opens connections and works with the sessions on them, in any order. Two managers whose
settings differ in the password alone are told apart by nothing that they return, send or show, as
long as the connections answer alike.
-/

namespace ChangeCapture.Mining

namespace Config

def withPassword (c : Config) (password : String) : Config := { c with password := some password }

/-- Both settings have a password, and nothing but its value tells them apart. -/
def SameButPassword (c c' : Config) : Prop :=
  ∃ base password password', c = withPassword base password ∧ c' = withPassword base password'

variable {c c' : Config}

theorem SameButPassword.descriptor_eq (h : c.SameButPassword c') :
    c.descriptor = c'.descriptor := by
  obtain ⟨base, password, password', rfl, rfl⟩ := h
  rfl

theorem SameButPassword.connectionString_eq (h : c.SameButPassword c') :
    c.connectionString = c'.connectionString := by
  obtain ⟨base, password, password', rfl, rfl⟩ := h
  rfl

theorem SameButPassword.describe_eq (h : c.SameButPassword c') : c.describe = c'.describe := by
  obtain ⟨base, password, password', rfl, rfl⟩ := h
  rfl

end Config

/-- The same result, with what cannot be told apart beside it. -/
def Agree {α β : Type} (alike : β → β → Prop) (p p' : α × β) : Prop :=
  p.1 = p'.1 ∧ alike p.2 p'.2

theorem Agree.exists_eq {α β : Type} {alike : β → β → Prop} {p p' : α × β}
    (h : Agree alike p p') : ∃ a b b', alike b b' ∧ p = (a, b) ∧ p' = (a, b') :=
  ⟨p.1, p.2, p'.2, h.2, rfl, Prod.ext h.1.symm rfl⟩

/-- States that look alike are answered from alike, and the states after the answers look alike. -/
structure Database.AnswersAlike {σ : Type} (db : Database σ) (alike : σ → σ → Prop) : Prop where
  query : ∀ {peer peer'}, alike peer peer' →
    ∀ sql, Agree alike (db.query peer sql) (db.query peer' sql)
  execute : ∀ {peer peer'}, alike peer peer' →
    ∀ text, Agree alike (db.execute peer text) (db.execute peer' text)
  close : ∀ {peer peer'}, alike peer peer' → Agree alike (db.close peer) (db.close peer')

variable {σ : Type} {alike : σ → σ → Prop} {db : Database σ}

/-- The same was said on both connections, to databases that look alike. -/
structure Link.Alike (alike : σ → σ → Prop) (link link' : Link σ) : Prop where
  peer : alike link.peer link'.peer
  exchanges : link.exchanges = link'.exchanges

namespace Link

variable {link link' : Link σ}

theorem Alike.query (h : link.Alike alike link') (hdb : db.AnswersAlike alike) (sql : String) :
    Agree (Alike alike) (link.query db sql) (link'.query db sql) := by
  obtain ⟨hanswer, hpeer⟩ := hdb.query h.peer sql
  refine ⟨hanswer, hpeer, ?_⟩
  simp [Link.query, h.exchanges, hanswer]

theorem Alike.execute (h : link.Alike alike link') (hdb : db.AnswersAlike alike)
    (text : String) : Agree (Alike alike) (link.execute db text) (link'.execute db text) := by
  obtain ⟨hanswer, hpeer⟩ := hdb.execute h.peer text
  refine ⟨hanswer, hpeer, ?_⟩
  simp [Link.execute, h.exchanges, hanswer]

theorem Alike.close (h : link.Alike alike link') (hdb : db.AnswersAlike alike) :
    Agree (Alike alike) (link.close db) (link'.close db) := by
  obtain ⟨hanswer, hpeer⟩ := hdb.close h.peer
  refine ⟨hanswer, hpeer, ?_⟩
  simp [Link.close, h.exchanges, hanswer]

end Link

namespace Session

/-- The same session on connections that are alike. -/
structure Alike (alike : σ → σ → Prop) (s s' : Session σ) : Prop where
  link : s.link.Alike alike s'.link
  registered : s.registered = s'.registered
  index : s.index = s'.index
  phase : s.phase = s'.phase

variable {s s' : Session σ}

theorem Alike.withLink (h : s.Alike alike s') {link link' : Link σ}
    (hlink : link.Alike alike link') : (s.withLink link).Alike alike (s'.withLink link') :=
  ⟨hlink, h.registered, h.index, h.phase⟩

theorem Alike.discover (h : s.Alike alike s') (hdb : db.AnswersAlike alike) :
    Agree (Alike alike) (s.discover db) (s'.discover db) := by
  obtain ⟨hanswer, hlink⟩ := h.link.query hdb catalogQuery
  refine ⟨?_, h.withLink hlink⟩
  simp [Session.discover, Link.logFiles, hanswer]

theorem Alike.register (h : s.Alike alike s') (hdb : db.AnswersAlike alike) (file : LogFile) :
    Agree (Alike alike) (s.register db file) (s'.register db file) := by
  obtain ⟨link, registered, index, phase⟩ := s
  obtain ⟨link', registered', index', phase'⟩ := s'
  obtain ⟨hlink, rfl, rfl, rfl⟩ := h
  obtain ⟨answer, after, after', hafter, hexecute, hexecute'⟩ :=
    (hlink.execute hdb file.addBlock).exists_eq
  unfold Session.register
  split
  · exact ⟨rfl, hlink, rfl, rfl, rfl⟩
  · split
    · exact ⟨rfl, hlink, rfl, rfl, rfl⟩
    · rw [hexecute, hexecute']
      cases answer with
      | ok => exact ⟨rfl, hafter, rfl, rfl, rfl⟩
      | error e =>
          dsimp only
          split
          · exact ⟨rfl, hafter, rfl, rfl, rfl⟩
          · exact ⟨rfl, hafter, rfl, rfl, rfl⟩

theorem Alike.start (h : s.Alike alike s') (hdb : db.AnswersAlike alike) :
    Agree (Alike alike) (s.start db) (s'.start db) := by
  obtain ⟨link, registered, index, phase⟩ := s
  obtain ⟨link', registered', index', phase'⟩ := s'
  obtain ⟨hlink, rfl, rfl, rfl⟩ := h
  obtain ⟨answer, after, after', hafter, hexecute, hexecute'⟩ :=
    (hlink.execute hdb Options.fixed.startBlock).exists_eq
  unfold Session.start
  split
  · exact ⟨rfl, hlink, rfl, rfl, rfl⟩
  · split
    · exact ⟨rfl, hlink, rfl, rfl, rfl⟩
    · rw [hexecute, hexecute']
      cases answer with
      | ok => exact ⟨rfl, hafter, rfl, rfl, rfl⟩
      | error e => exact ⟨rfl, hafter, rfl, rfl, rfl⟩

theorem Alike.perform (h : s.Alike alike s') (hdb : db.AnswersAlike alike) (call : Call) :
    Agree (Alike alike) (s.perform db call) (s'.perform db call) := by
  cases call with
  | discover =>
      obtain ⟨hresult, hs⟩ := h.discover hdb
      exact ⟨congrArg Outcome.discover hresult, hs⟩
  | register file =>
      obtain ⟨hresult, hs⟩ := h.register hdb file
      exact ⟨congrArg (Outcome.register file) hresult, hs⟩
  | start =>
      obtain ⟨hresult, hs⟩ := h.start hdb
      exact ⟨congrArg Outcome.start hresult, hs⟩

theorem Alike.close (h : s.Alike alike s') (hdb : db.AnswersAlike alike) :
    Agree (Link.Alike alike) (s.close db) (s'.close db) := by
  obtain ⟨link, registered, index, phase⟩ := s
  obtain ⟨link', registered', index', phase'⟩ := s'
  obtain ⟨hlink, rfl, rfl, rfl⟩ := h
  unfold Session.close
  by_cases hmining : phase = .mining
  · obtain ⟨ended, after, after', hafter, hexecute, hexecute'⟩ :=
      (hlink.execute hdb endBlock).exists_eq
    obtain ⟨closed, last, last', hlast, hclose, hclose'⟩ := (hafter.close hdb).exists_eq
    simp only [isMining, hmining, beq_self_eq_true, if_true]
    rw [hexecute, hexecute']
    dsimp only
    rw [hclose, hclose']
    cases ended with
    | ok => exact ⟨rfl, hlast⟩
    | error e => exact ⟨rfl, hlast⟩
  · simp only [isMining, beq_eq_false_iff_ne.mpr hmining, Bool.false_eq_true, if_false]
    exact hlink.close hdb

theorem Alike.registerAll (h : s.Alike alike s') (hdb : db.AnswersAlike alike)
    (files : List LogFile) :
    Agree (Alike alike) (s.registerAll db files) (s'.registerAll db files) := by
  induction files generalizing s s' with
  | nil => exact ⟨rfl, h⟩
  | cons file files ih =>
      obtain ⟨result, t, t', ht, hregister, hregister'⟩ := (h.register hdb file).exists_eq
      rw [Session.registerAll, Session.registerAll, hregister, hregister']
      cases result with
      | ok => exact ih ht
      | error e => exact ⟨rfl, ht⟩

theorem alike_new {link link' : Link σ} (h : link.Alike alike link') :
    (new link).Alike alike (new link') :=
  ⟨h, rfl, rfl, rfl⟩

theorem establish_alike {link link' : Link σ} (h : link.Alike alike link')
    (hdb : db.AnswersAlike alike) :
    Agree (Alike alike) (establish db link) (establish db link') := by
  obtain ⟨result, s, s', hs, hdiscover, hdiscover'⟩ := ((alike_new h).discover hdb).exists_eq
  rw [establish, establish, hdiscover, hdiscover']
  cases result with
  | error e => exact ⟨rfl, hs⟩
  | ok files =>
      obtain ⟨result, t, t', ht, hregister, hregister'⟩ := (hs.registerAll hdb files).exists_eq
      dsimp only
      rw [hregister, hregister']
      cases result with
      | error e => exact ⟨rfl, ht⟩
      | ok => exact ht.start hdb

/-- A session with this database at the other end of its connection. -/
def attach {τ : Type} (s : Session τ) (peer : σ) : Session σ :=
  s.withLink ⟨peer, s.link.exchanges⟩

theorem alike_attach {peer peer' : σ} (h : alike peer peer') (s : Session Unit) :
    (s.attach peer).Alike alike (s.attach peer') :=
  ⟨⟨h, rfl⟩, rfl, rfl, rfl⟩

theorem Alike.attach_eq (h : s.Alike alike s') : s.attach () = s'.attach () := by
  rw [attach, attach, Session.withLink, Session.withLink, h.link.exchanges, h.registered, h.index,
    h.phase]

end Session

/-- What can be asked of a manager, and of the sessions that it opened, which go by their number. -/
inductive Act
  | openSession
  | call (number : Nat) (call : Session.Call)
  | close (number : Nat)
  | drop (number : Nat)

inductive Reply
  | opened (result : Except Error Unit)
  | called (outcome : Session.Outcome)
  | closed (result : Except Error Unit)
  | dropped
  /-- There is no session of this number. -/
  | noSession

/-- All that is seen of an act: the reply, the descriptor for which a connection was asked, what was
sent with the answers, and the text of each open session afterwards. -/
structure Sight where
  reply : Reply
  descriptor : Option String
  sent : List Exchange
  shown : List (Option String)

/-- The world outside, in which the databases are, and the sessions that were opened, apart from it.
Nothing is left of a session that is over. -/
structure Stage (σ : Type) where
  world : σ
  sessions : List (Option (Session Unit))

/-- What an act does to a session: the reply, the connection after it, and the session that is
left. -/
structure Turn (σ : Type) where
  reply : Reply
  link : Link σ
  left : Option (Session Unit)

namespace Stage

def shown (stage : Stage σ) : List (Option String) :=
  stage.sessions.map fun s => s.map Session.describe

/-- Opens a session, or fails to, in the world as it is. -/
def opening (stage : Stage σ) (descriptor : String) (p : Except Error Unit × Session σ) :
    Sight × Stage σ :=
  let session :=
    match p.1 with
    | .ok () => some (p.2.attach ())
    | .error _ => none
  let after : Stage σ := ⟨p.2.link.peer, stage.sessions ++ [session]⟩
  (⟨.opened p.1, some descriptor, p.2.link.exchanges, after.shown⟩, after)

/-- Acts on the session of this number, if it is open, in the world as it is. -/
def acting (stage : Stage σ) (number : Nat) (f : Session σ → Turn σ) : Sight × Stage σ :=
  match stage.sessions[number]?.join with
  | none => (⟨.noSession, none, [], stage.shown⟩, stage)
  | some s =>
      let turn := f (s.attach stage.world)
      let after : Stage σ := ⟨turn.link.peer, stage.sessions.set number turn.left⟩
      (⟨turn.reply, none, turn.link.exchanges.drop s.link.exchanges.length, after.shown⟩, after)

end Stage

namespace Session

def callTurn (db : Database σ) (call : Call) (s : Session σ) : Turn σ :=
  let (outcome, t) := s.perform db call
  ⟨.called outcome, t.link, some (t.attach ())⟩

def closeTurn (db : Database σ) (s : Session σ) : Turn σ :=
  let (result, link) := s.close db
  ⟨.closed result, link, none⟩

/-- A session that is dropped is over; nothing is sent. -/
def dropTurn (s : Session σ) : Turn σ := ⟨.dropped, s.link, none⟩

end Session

namespace Manager

/-- One act. Each session has the database of its number at the other end. -/
def act (m : Manager) (factory : Factory σ) (dbs : Nat → Database σ) (stage : Stage σ) :
    Act → Sight × Stage σ
  | .openSession =>
      stage.opening m.config.descriptor
        (m.openSession factory (dbs stage.sessions.length) stage.world)
  | .call number call => stage.acting number (Session.callTurn (dbs number) call)
  | .close number => stage.acting number (Session.closeTurn (dbs number))
  | .drop number => stage.acting number Session.dropTurn

/-- Acts one after the other, and what is seen of them. -/
def observe (m : Manager) (factory : Factory σ) (dbs : Nat → Database σ) :
    Stage σ → List Act → List Sight
  | _, [] => []
  | stage, a :: acts =>
      (m.act factory dbs stage a).1 :: observe m factory dbs (m.act factory dbs stage a).2 acts

end Manager

/-- Connections that are alike are left, and all else is the same. -/
structure Turn.Alike (alike : σ → σ → Prop) (turn turn' : Turn σ) : Prop where
  reply : turn.reply = turn'.reply
  link : turn.link.Alike alike turn'.link
  left : turn.left = turn'.left

namespace Session

variable {s s' : Session σ}

theorem Alike.callTurn (h : s.Alike alike s') (hdb : db.AnswersAlike alike) (call : Call) :
    (s.callTurn db call).Alike alike (s'.callTurn db call) := by
  obtain ⟨outcome, t, t', ht, hperform, hperform'⟩ := (h.perform hdb call).exists_eq
  rw [Session.callTurn, Session.callTurn, hperform, hperform']
  exact ⟨rfl, ht.link, congrArg some ht.attach_eq⟩

theorem Alike.closeTurn (h : s.Alike alike s') (hdb : db.AnswersAlike alike) :
    (s.closeTurn db).Alike alike (s'.closeTurn db) := by
  obtain ⟨result, link, link', hlink, hclose, hclose'⟩ := (h.close hdb).exists_eq
  rw [Session.closeTurn, Session.closeTurn, hclose, hclose']
  exact ⟨rfl, hlink, rfl⟩

theorem Alike.dropTurn (h : s.Alike alike s') : s.dropTurn.Alike alike s'.dropTurn :=
  ⟨rfl, h.link, rfl⟩

end Session

namespace Stage

variable {stage stage' : Stage σ}

/-- The same sessions, in worlds that look alike. -/
structure Alike (alike : σ → σ → Prop) (stage stage' : Stage σ) : Prop where
  world : alike stage.world stage'.world
  sessions : stage.sessions = stage'.sessions

theorem Alike.opening (h : stage.Alike alike stage') (descriptor : String)
    {p p' : Except Error Unit × Session σ} (hp : Agree (Session.Alike alike) p p') :
    Agree (Alike alike) (stage.opening descriptor p) (stage'.opening descriptor p') := by
  obtain ⟨result, s, s', hs, rfl, rfl⟩ := hp.exists_eq
  unfold Stage.opening Stage.shown
  rw [h.sessions, hs.attach_eq, hs.link.exchanges]
  exact ⟨rfl, hs.link.peer, rfl⟩

theorem Alike.acting (h : stage.Alike alike stage') (number : Nat) {f : Session σ → Turn σ}
    (hf : ∀ {s s'}, Session.Alike alike s s' → (f s).Alike alike (f s')) :
    Agree (Alike alike) (stage.acting number f) (stage'.acting number f) := by
  unfold Stage.acting
  rw [h.sessions]
  split
  · refine ⟨?_, h⟩
    rw [shown, shown, h.sessions]
  · next s _ =>
      have hturn := hf (Session.alike_attach h.world s)
      dsimp only [shown]
      rw [hturn.reply, hturn.left, hturn.link.exchanges]
      exact ⟨rfl, hturn.link.peer, rfl⟩

end Stage

namespace Manager

variable {m m' : Manager} {factory : Factory σ} {dbs : Nat → Database σ} {stage stage' : Stage σ}

/-- In worlds that look alike, two managers get the same answer when they ask for a connection. -/
def ConnectAlike (m m' : Manager) (factory : Factory σ) (alike : σ → σ → Prop) : Prop :=
  ∀ peer peer', alike peer peer' →
    Agree alike (factory.connect peer m.config) (factory.connect peer' m'.config)

theorem openSession_alike (hconnect : ConnectAlike m m' factory alike)
    (hdb : db.AnswersAlike alike) {peer peer' : σ} (hpeer : alike peer peer') :
    Agree (Session.Alike alike) (m.openSession factory db peer)
      (m'.openSession factory db peer') := by
  obtain ⟨result, w, w', hw, hopen, hopen'⟩ := (hconnect peer peer' hpeer).exists_eq
  rw [openSession, openSession, hopen, hopen']
  have hfresh : (Link.fresh w).Alike alike (Link.fresh w') := ⟨hw, rfl⟩
  cases result with
  | error e => exact ⟨rfl, Session.alike_new hfresh⟩
  | ok => exact Session.establish_alike hfresh hdb

theorem act_alike (hsame : m.config.SameButPassword m'.config)
    (hconnect : ConnectAlike m m' factory alike) (hdbs : ∀ number, (dbs number).AnswersAlike alike)
    (h : stage.Alike alike stage') (a : Act) :
    Agree (Stage.Alike alike) (m.act factory dbs stage a) (m'.act factory dbs stage' a) := by
  cases a with
  | openSession =>
      rw [act, act, ← h.sessions, ← hsame.descriptor_eq]
      exact h.opening _ (openSession_alike hconnect (hdbs _) h.world)
  | call number call => exact h.acting number fun hs => hs.callTurn (hdbs number) call
  | close number => exact h.acting number fun hs => hs.closeTurn (hdbs number)
  | drop number => exact h.acting number fun hs => hs.dropTurn

theorem observe_alike (hsame : m.config.SameButPassword m'.config)
    (hconnect : ConnectAlike m m' factory alike) (hdbs : ∀ number, (dbs number).AnswersAlike alike)
    (h : stage.Alike alike stage') (acts : List Act) :
    m.observe factory dbs stage acts = m'.observe factory dbs stage' acts := by
  induction acts generalizing stage stage' with
  | nil => rfl
  | cons a acts ih =>
      obtain ⟨hsight, hstage⟩ := act_alike hsame hconnect hdbs h a
      rw [observe, observe, hsight, ih hstage]

/-- Two managers whose settings differ in the password alone are told apart by nothing that is seen
of them and of their sessions, as long as connections are made alike and answer alike. -/
theorem observe_eq_of_sameButPassword (hsame : m.config.SameButPassword m'.config)
    (hconnect : ConnectAlike m m' factory alike) (hdbs : ∀ number, (dbs number).AnswersAlike alike)
    {world world' : σ} (hworld : alike world world') (acts : List Act) :
    m.observe factory dbs ⟨world, []⟩ acts = m'.observe factory dbs ⟨world', []⟩ acts ∧
      m.config.describe = m'.config.describe ∧
      m.config.connectionString = m'.config.connectionString ∧
      m.config.descriptor = m'.config.descriptor := by
  have hstage : Stage.Alike alike ⟨world, []⟩ ⟨world', []⟩ := ⟨hworld, rfl⟩
  exact ⟨observe_alike hsame hconnect hdbs hstage acts, hsame.describe_eq,
    hsame.connectionString_eq, hsame.descriptor_eq⟩

/-- Lets in who comes for one host, and remembers everyone who came, with the password. -/
def porter : Factory (List Config) where
  connect seen c :=
    (if c.host = "db" then .ok () else .error (.connection "unknown host" none), c :: seen)

/-- A database with one log file that obeys. -/
def obedient : Database (List Config) where
  query seen _ := (.ok ["redo01.log"], seen)
  execute seen _ := (.ok (), seen)
  close seen := (.ok (), seen)

/-- As many came. -/
def AsMany (seen seen' : List Config) : Prop := seen.length = seen'.length

theorem obedient_answersAlike : obedient.AnswersAlike AsMany where
  query h _ := ⟨rfl, h⟩
  execute h _ := ⟨rfl, h⟩
  close h := ⟨rfl, h⟩

def miner (password : String) : Manager where
  config := Config.withPassword
    { Config.default with host := "db", serviceName := "XE", username := "miner" } password
  fault?_config := rfl

def minerActs : List Act :=
  [.openSession, .call 0 .start, .openSession, .call 1 .discover, .close 0, .drop 1, .drop 1]

theorem observe_eq_of_sameButPassword_miner :
    (miner "tiger").config ≠ (miner "hunter2").config ∧
      (miner "tiger").observe porter (fun _ => obedient) ⟨[], []⟩ minerActs =
        (miner "hunter2").observe porter (fun _ => obedient) ⟨[], []⟩ minerActs ∧
      (miner "tiger").config.describe = (miner "hunter2").config.describe ∧
      ((miner "tiger").observe porter (fun _ => obedient) ⟨[], []⟩ minerActs).map
          (fun sight => (sight.descriptor, sight.reply)) =
        [(some "//db:1521/XE", .opened (.ok ())),
          (none, .called (.start (.error (.invalidPhase .configuring .mining)))),
          (some "//db:1521/XE", .opened (.ok ())),
          (none, .called (.discover (.ok [⟨"redo01.log"⟩]))), (none, .closed (.ok ())),
          (none, .dropped), (none, .noSession)] := by
  have hsame : (miner "tiger").config.SameButPassword (miner "hunter2").config :=
    ⟨_, _, _, rfl, rfl⟩
  have hconnect : ConnectAlike (miner "tiger") (miner "hunter2") porter AsMany :=
    fun _ _ h => ⟨rfl, congrArg (· + 1) h⟩
  have hworld : AsMany [] [] := rfl
  obtain ⟨hobserve, hdescribe, -⟩ := observe_eq_of_sameButPassword hsame hconnect
    (fun _ => obedient_answersAlike) hworld minerActs
  refine ⟨by decide, hobserve, hdescribe, ?_⟩
  have hhost : (miner "tiger").config.host = "db" := rfl
  have hdescriptor : (miner "tiger").config.descriptor = "//db:1521/XE" := by decide
  simp [observe, minerActs, act, Stage.opening, Stage.acting, hhost, hdescriptor, openSession,
    porter, Session.callTurn, Session.closeTurn, Session.dropTurn, Session.perform, Session.start,
    Session.close, Session.establish, Session.registerAll, Session.register, Session.discover,
    Session.new, Link.fresh, Link.logFiles, Link.query, Link.execute, Link.close, obedient,
    Session.attach, Session.withLink, Session.isMining, Except.map]

end Manager

end ChangeCapture.Mining
