import ChangeCapture.Text.Integer

/-!
# Failures of mining

What can go wrong while a session is set up or used, with the error number of the database where its
message gives one.
-/

namespace ChangeCapture.Mining

/-! ## Phases of a session -/

/-- A session is set up, then it mines, then it is over. -/
inductive Phase
  | configuring
  | mining
  | closed
  deriving DecidableEq, Repr

namespace Phase

def word : Phase → String
  | configuring => "configuring"
  | mining => "mining"
  | closed => "closed"

def describe : Phase → String
  | configuring => "Configuring"
  | mining => "Mining"
  | closed => "Closed"

end Phase

/-! ## Error numbers and failures -/

/-- The error number of the database: the digits of `ORA-01289` and the like. -/
abbrev OraCode := UInt32

namespace OraCode

/-- A log file is added that was added before. -/
def duplicateLogFile : OraCode := 1289

/-- The connection is lost or could not be made. -/
def transient : List OraCode := [3113, 3114, 3135, 12170, 12537, 12541, 12543]

/-- What follows the first mark of an error number. -/
def afterMark? : List Char → Option (List Char)
  | [] => none
  | 'O' :: 'R' :: 'A' :: '-' :: rest => some rest
  | _ :: rest => afterMark? rest

/-- The number after the first mark in a message, if digits follow it and fit 32 bits. -/
def ofMessage? (message : String) : Option OraCode :=
  (afterMark? message.toList).bind fun rest =>
    Text.readUInt32? (rest.takeWhile fun c => (Text.digit? c).isSome)

end OraCode

inductive Error
  | connection (reason : String) (source : Option String)
  | query (reason : String) (sql : String) (code : Option OraCode)
  | call (reason : String) (code : Option OraCode) (source : Option String)
  | noLogFiles
  | invalidPhase (expected : Phase) (actual : Phase)
  deriving DecidableEq, Repr

namespace Error

/-- A query that failed with a message of the database. -/
def ofQuery (reason sql : String) : Error := .query reason sql (OraCode.ofMessage? reason)

/-- A call that failed; a number that comes with it counts before one in the message. -/
def ofCall (reason : String) (code : Option OraCode) : Error :=
  .call reason (code.or (OraCode.ofMessage? reason)) none

def ofCallWithSource (reason source : String) : Error :=
  .call reason (OraCode.ofMessage? reason) (some source)

def message : Error → String
  | connection reason _ => "connection error: " ++ reason
  | query reason _ _ => "catalog query failed: " ++ reason
  | call reason _ _ => "DBMS_LOGMNR call failed: " ++ reason
  | noLogFiles => "no redo log files registered; LogMiner cannot be started"
  | invalidPhase expected actual =>
      "invalid session state: expected " ++ expected.word ++ ", found " ++ actual.word

/-- The message of the failure behind this one. -/
def source? : Error → Option String
  | connection _ source => source
  | call _ _ source => source
  | _ => none

def code? : Error → Option OraCode
  | query _ _ code => code
  | call _ code _ => code
  | _ => none

def isDuplicateLogFile (e : Error) : Bool := e.code? == some OraCode.duplicateLogFile

/-- Whether another attempt may succeed. -/
def isRetriable : Error → Bool
  | connection _ _ => true
  | query _ _ code => code.any OraCode.transient.contains
  | call _ code _ => code.any OraCode.transient.contains
  | noLogFiles => false
  | invalidPhase _ _ => false

end Error

end ChangeCapture.Mining
