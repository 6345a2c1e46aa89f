import ChangeCapture.Json.Slots
import ChangeCapture.Text.Characters

/-!
# Connection settings

How to reach the database that is mined. The password appears in no text that is made from the
settings.
-/

namespace ChangeCapture.Mining

structure Config where
  host : String
  port : UInt16
  serviceName : String
  username : String
  password : Option String
  applicationName : String
  connectTimeoutSecs : UInt64
  deriving DecidableEq, Repr

/-- A setting that has to be made. -/
inductive ConfigFault
  | noHost
  | noPort
  | noServiceName
  | noUsername
  deriving DecidableEq, Repr

def ConfigFault.message : ConfigFault → String
  | noHost => "Host is required"
  | noPort => "Port must be > 0"
  | noServiceName => "Service name is required"
  | noUsername => "Username is required"

namespace Config

def default : Config where
  host := "localhost"
  port := 1521
  serviceName := ""
  username := ""
  password := none
  applicationName := "logminer-cdc"
  connectTimeoutSecs := 30

/-- The first setting that is missing. -/
def fault? (c : Config) : Option ConfigFault :=
  if c.host = "" then some .noHost
  else if c.port = 0 then some .noPort
  else if c.serviceName = "" then some .noServiceName
  else if c.username = "" then some .noUsername
  else none

/-- The settings, if none is missing. -/
def checked (c : Config) : Except ConfigFault Config :=
  match c.fault? with
  | some fault => .error fault
  | none => .ok c

def sourceType : String := "oracle"

def portText (c : Config) : String := String.ofList (Text.digits c.port.toNat)

/-- Where to connect to. -/
def descriptor (c : Config) : String :=
  "//" ++ c.host ++ ":" ++ c.portText ++ "/" ++ c.serviceName

def connectionString (c : Config) : String := c.username ++ "@" ++ c.descriptor

def describePassword : Option String → String
  | none => "None"
  | some _ => "Some(" ++ Text.quoted "[REDACTED]" ++ ")"

def describe (c : Config) : String :=
  "LogMinerConfig \x7b host: " ++ Text.quoted c.host ++ ", port: " ++ c.portText
    ++ ", service_name: " ++ Text.quoted c.serviceName
    ++ ", username: " ++ Text.quoted c.username
    ++ ", password: " ++ describePassword c.password
    ++ ", application_name: " ++ Text.quoted c.applicationName
    ++ ", connect_timeout_secs: "
    ++ String.ofList (Text.digits c.connectTimeoutSecs.toNat) ++ " \x7d"

def fieldNames : List String :=
  ["host", "port", "service_name", "username", "password", "application_name",
    "connect_timeout_secs"]

open Json.Written in
def ofWritten? (w : Json.Written) : Option Config :=
  match w.slots? fieldNames with
  | some [host, port, serviceName, username, password, applicationName, timeout] => do
      return {
        host := ← orElse? text? default.host host
        port := ← orElse? (fun v => (v.int? 0 65535).map UInt16.ofInt) default.port port
        serviceName := ← orElse? text? default.serviceName serviceName
        username := ← orElse? text? default.username username
        password := ← orElse? (nullable? text?) default.password password
        applicationName := ← orElse? text? default.applicationName applicationName
        connectTimeoutSecs := ← orElse? uint64? default.connectTimeoutSecs timeout }
  | _ => none

/-- The settings of a JSON text; what it does not mention keeps its default. -/
def parse? (text : String) : Option Config :=
  (Json.Written.ofChars? text.toList).bind ofWritten?

end Config

end ChangeCapture.Mining
