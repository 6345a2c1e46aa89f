import ChangeCapture.Mining.Config
import ChangeCapture.Mining.Error
import ChangeCapture.Text.Characters

/-!
# The database

What is said to the database that is mined, and the link over which it answers.
-/

namespace ChangeCapture.Mining

/-! ## Log files

The members of the redo logs, and the block that registers one. The path stands in it as a literal,
in which a quote is written twice. -/

/-- One member of the redo logs, known by its path. -/
structure LogFile where
  path : String
  deriving DecidableEq, Hashable, Repr

namespace LogFile

/-- A quote inside a literal is written twice. -/
def doubleQuote (c : Char) : List Char := if c = '\x27' then ['\x27', '\x27'] else [c]

/-- What stands between the quotes of the literal for a text. -/
def literalBody (s : String) : List Char := s.toList.flatMap doubleQuote

def beforeLiteral : String := "BEGIN DBMS_LOGMNR.ADD_LOGFILE(LOGFILENAME => "

def afterLiteral : String := ", OPTIONS => DBMS_LOGMNR.ADDFILE); END;"

/-- The block that registers the file. -/
def addBlock (f : LogFile) : String :=
  beforeLiteral ++ String.ofList ('\x27' :: literalBody f.path ++ ['\x27']) ++ afterLiteral

def describe (f : LogFile) : String := "LogFileReference(" ++ Text.quoted f.path ++ ")"

end LogFile

/-! ## Mining options

What mining is started with, and the statements that need no file. -/

/-- What mining is started with. -/
structure Options where
  dictFromOnlineCatalog : Bool
  committedDataOnly : Bool
  noSqlDelimiter : Bool
  deriving DecidableEq, Repr

namespace Options

/-- The options of every session. -/
def fixed : Options := ⟨true, true, true⟩

def flags (o : Options) : List String :=
  (if o.dictFromOnlineCatalog then ["DBMS_LOGMNR.DICT_FROM_ONLINE_CATALOG"] else [])
    ++ (if o.committedDataOnly then ["DBMS_LOGMNR.COMMITTED_DATA_ONLY"] else [])
    ++ (if o.noSqlDelimiter then ["DBMS_LOGMNR.NO_SQL_DELIMITER"] else [])

/-- The block that starts mining. -/
def startBlock (o : Options) : String :=
  "BEGIN DBMS_LOGMNR.START_LOGMNR(OPTIONS => " ++ " + ".intercalate o.flags ++ "); END;"

end Options

/-- The block that ends mining. -/
def endBlock : String := "BEGIN DBMS_LOGMNR.END_LOGMNR; END;"

/-- The query for the paths of all log files. -/
def catalogQuery : String := "SELECT DISTINCT member LOGFILENAME FROM V$LOGFILE"

/-! ## Links to a database

A database is known by how it answers; what it keeps between two answers is its own business. A link
remembers every statement sent over it, with the answer. -/

/-- The answers of a database whose state is of type `σ`. -/
structure Database (σ : Type) where
  query : σ → String → Except Error (List String) × σ
  execute : σ → String → Except Error Unit × σ
  close : σ → Except Error Unit × σ

/-- How connections are opened. -/
structure Factory (σ : Type) where
  connect : σ → Config → Except Error Unit × σ

/-- A statement and what was answered. -/
inductive Exchange
  | query (sql : String) (answer : Except Error (List String))
  | block (text : String) (answer : Except Error Unit)
  | close (answer : Except Error Unit)

/-- A connection: the database at the other end and what was said so far, in order. -/
structure Link (σ : Type) where
  peer : σ
  exchanges : List Exchange

namespace Link

variable {σ : Type}

/-- A connection over which nothing was sent. -/
def fresh (peer : σ) : Link σ := ⟨peer, []⟩

def query (db : Database σ) (link : Link σ) (sql : String) :
    Except Error (List String) × Link σ :=
  let (answer, peer) := db.query link.peer sql
  (answer, ⟨peer, link.exchanges ++ [.query sql answer]⟩)

def execute (db : Database σ) (link : Link σ) (text : String) : Except Error Unit × Link σ :=
  let (answer, peer) := db.execute link.peer text
  (answer, ⟨peer, link.exchanges ++ [.block text answer]⟩)

def close (db : Database σ) (link : Link σ) : Except Error Unit × Link σ :=
  let (answer, peer) := db.close link.peer
  (answer, ⟨peer, link.exchanges ++ [.close answer]⟩)

end Link

end ChangeCapture.Mining
