import ChangeCapture.Mining.Database
import Std.Data.HashSet.Basic

/-!
# Mining sessions

A session registers log files one by one, starts mining over them, and ends it when it is closed. A
file that the database already knows counts as registered. Each operation gives its result together
with the session after it; an operation that fails leaves registration and phase as they were.
-/

namespace ChangeCapture.Mining

/-- The log files of a database, in its order. -/
def Link.logFiles {σ : Type} (db : Database σ) (link : Link σ) :
    Except Error (List LogFile) × Link σ :=
  let (answer, link) := link.query db catalogQuery
  (answer.map (·.map LogFile.mk), link)

/-- A session on a connection of its own. -/
structure Session (σ : Type) where
  link : Link σ
  /-- The registered files in the order of their registration. -/
  registered : List LogFile
  /-- The same files, to look one up. -/
  index : Std.HashSet LogFile
  phase : Phase

namespace Session

variable {σ : Type}

/-- A session in which nothing has happened yet. -/
def new (link : Link σ) : Session σ := ⟨link, [], ∅, .configuring⟩

def isMining (s : Session σ) : Bool := s.phase == .mining

def discover (db : Database σ) (s : Session σ) : Except Error (List LogFile) × Session σ :=
  let (files, link) := s.link.logFiles db
  (files, { s with link := link })

/-- Registers a file. The answer tells whether the database did not know it before. -/
def register (db : Database σ) (s : Session σ) (file : LogFile) : Except Error Bool × Session σ :=
  if s.phase ≠ .configuring then (.error (.invalidPhase .configuring s.phase), s)
  else if s.index.contains file then (.ok false, s)
  else
    let (answer, link) := s.link.execute db file.addBlock
    let known : Session σ := ⟨link, s.registered ++ [file], s.index.insert file, s.phase⟩
    match answer with
    | .ok () => (.ok true, known)
    | .error e =>
        if e.isDuplicateLogFile then (.ok false, known) else (.error e, { s with link := link })

/-- Starts mining over the registered files. -/
def start (db : Database σ) (s : Session σ) : Except Error Unit × Session σ :=
  if s.phase ≠ .configuring then (.error (.invalidPhase .configuring s.phase), s)
  else if s.registered.isEmpty then (.error .noLogFiles, s)
  else
    let (answer, link) := s.link.execute db Options.fixed.startBlock
    match answer with
    | .ok () => (.ok (), { s with link := link, phase := .mining })
    | .error e => (.error e, { s with link := link })

/-- Ends mining, if it was started, and closes the connection in any case. The first failure
counts. -/
def close (db : Database σ) (s : Session σ) : Except Error Unit × Link σ :=
  let (ended, link) := if s.isMining then s.link.execute db endBlock else (.ok (), s.link)
  let (closed, link) := link.close db
  match ended with
  | .ok () => (closed, link)
  | .error e => (.error e, link)

/-- Registers files one after the other, up to the first failure. -/
def registerAll (db : Database σ) : Session σ → List LogFile → Except Error Unit × Session σ
  | s, [] => (.ok (), s)
  | s, file :: files =>
      match s.register db file with
      | (.ok _, s) => registerAll db s files
      | (.error e, s) => (.error e, s)

/-- Discovers the log files, registers them all and starts mining. What was done before a failure
stays done. -/
def establish (db : Database σ) (link : Link σ) : Except Error Unit × Session σ :=
  match (new link).discover db with
  | (.error e, s) => (.error e, s)
  | (.ok files, s) =>
      match s.registerAll db files with
      | (.error e, s) => (.error e, s)
      | (.ok (), s) => s.start db

def describe (s : Session σ) : String :=
  "MiningSession \x7b state: " ++ s.phase.describe ++ ", registered: ["
    ++ ", ".intercalate (s.registered.map LogFile.describe) ++ "] \x7d"

end Session

/-- Settings from which sessions are opened. None of them is missing. -/
structure Manager where
  config : Config
  fault?_config : config.fault? = none

namespace Manager

variable {σ : Type}

def ofConfig (config : Config) : Except ConfigFault Manager :=
  match h : config.fault? with
  | some fault => .error fault
  | none => .ok ⟨config, h⟩

/-- Opens a connection and establishes a session on it. Without a connection there is a link over
which nothing was sent. -/
def openSession (m : Manager) (factory : Factory σ) (db : Database σ) (peer : σ) :
    Except Error Unit × Session σ :=
  match factory.connect peer m.config with
  | (.error e, peer) => (.error e, Session.new (Link.fresh peer))
  | (.ok (), peer) => Session.establish db (Link.fresh peer)

end Manager

end ChangeCapture.Mining
