import BlockProgram.Command.Files
import BlockProgram.Number.Literal
import BlockProgram.Program.Options
import BlockProgram.Rule
import BlockProgram.Settings.EnvFile
import BlockProgram.Text.Lowercase
import BlockProgram.Text.Utf8

/-! Settings from the environment. A file may set variables that the environment does not have; what
neither sets has a default. -/
namespace BlockProgram

structure StoreSettings where
  host : String := ""
  port : String := ""
  user : String := ""
  password : String := ""
  name : String := ""
  sslMode : String := ""
deriving DecidableEq

/-- Where results are cached; the time they are kept is in nanoseconds. -/
structure CacheSettings where
  host : String := ""
  port : String := ""
  password : String := ""
  database : Int := 0
  lifetime : Int := 0
deriving DecidableEq

structure EventSettings where
  url : String := ""
  subject : String := ""
deriving DecidableEq

/-- All settings. A part of the service is in use when its host, address or secret is not empty. -/
structure Settings where
  mode : String
  port : String
  logLevel : String
  options : Options
  store : StoreSettings
  cache : CacheSettings
  events : EventSettings
  secret : String
deriving DecidableEq

namespace Settings

/-- A variable whose value is not of the kind it must have. -/
structure BadValue where
  key : String
  kind : String
  value : String
deriving DecidableEq

def BadValue.message (b : BadValue) : String :=
  b.key ++ " must be " ++ b.kind ++ ", got " ++ Text.quoted b.value

inductive Fault where
  | file (path : String) (fault : FileFault)
  | content (path : String) (fault : EnvFile.Fault)
  | values (bad : List BadValue)
  | rules (broken : List (String × String × String))
deriving DecidableEq

def Fault.message : Fault → String
  | file path f => "load " ++ path ++ ": " ++ f.message true path
  | content path f => "load " ++ path ++ ": " ++ f.message
  | values bad => Text.join "\n" (bad.map BadValue.message)
  | rules broken =>
    "invalid configuration: " ++
      Text.join "\n" (broken.map fun (path, field, rule) => ruleMessage path field rule)

/-- The exit code of a service that cannot load its settings, and what it says. -/
def Fault.ending (f : Fault) : Nat × String := (1, "Error loading configuration: " ++ f.message ++ "\n")

/-- Variables with their values; the first of two with one name counts. -/
abbrev Environment := List (String × String)

def value (env : Environment) (key : String) : String :=
  ((env.find? (·.1 = key)).map (·.2)).getD ""

def valueOrElse (env : Environment) (key other : String) : String :=
  if value env key = "" then other else value env key

def integer (env : Environment) (key : String) (other : Int) : Int × List BadValue :=
  let raw := value env key
  if raw = "" then (other, [])
  else
    match Number.readInteger? raw.toList with
    | some i => (i, [])
    | none => (0, [⟨key, "an integer", raw⟩])

def truth? (s : String) : Option Bool :=
  if ["1", "t", "T", "TRUE", "true", "True"].contains s then some true
  else if ["0", "f", "F", "FALSE", "false", "False"].contains s then some false
  else none

def truth (env : Environment) (key : String) (other : Bool) : Bool × List BadValue :=
  let raw := value env key
  if raw = "" then (other, [])
  else
    match truth? raw with
    | some b => (b, [])
    | none => (false, [⟨key, "a boolean", raw⟩])

/-- A time of so many seconds, in nanoseconds that fit 64 bits. -/
def seconds (n : Int) : Int := Number.wrap (n * 1000000000)

def keys : List String :=
  ["RUN_MODE", "API_PORT", "LOG_LEVEL", "GEN_INDENT", "GEN_ONE_BASED_INDEX", "GEN_STATEMENT_PREFIX",
    "GEN_STATEMENT_SUFFIX", "GEN_INFINITE_LOOP_TRAP", "GEN_COMMENT_WRAP", "DB_HOSTNAME", "DB_PORT",
    "DB_USERNAME", "DB_PASSWORD", "DB_NAME", "DB_SSL_MODE", "REDIS_HOST", "REDIS_PORT",
    "REDIS_PASSWORD", "REDIS_DB", "REDIS_TTL_SECONDS", "NATS_URL", "NATS_SUBJECT", "JWT_SECRET"]

def ofEnvironment (env : Environment) : Settings × List BadValue :=
  let defaults : Options := {}
  let (oneBased, bad1) := truth env "GEN_ONE_BASED_INDEX" defaults.oneBasedIndex
  let (wrap, bad2) := integer env "GEN_COMMENT_WRAP" defaults.commentWrap
  let (database, bad3) := integer env "REDIS_DB" 0
  let (lifetime, bad4) := integer env "REDIS_TTL_SECONDS" 3600
  ({ mode := valueOrElse env "RUN_MODE" "prod"
     port := valueOrElse env "API_PORT" ":8080"
     logLevel := Text.lower (valueOrElse env "LOG_LEVEL" "info")
     options :=
       { indent := valueOrElse env "GEN_INDENT" defaults.indent
         oneBasedIndex := oneBased
         statementPrefix := value env "GEN_STATEMENT_PREFIX"
         statementSuffix := value env "GEN_STATEMENT_SUFFIX"
         infiniteLoopTrap := value env "GEN_INFINITE_LOOP_TRAP"
         commentWrap := wrap }
     store :=
       { host := value env "DB_HOSTNAME", port := valueOrElse env "DB_PORT" "5432"
         user := value env "DB_USERNAME", password := value env "DB_PASSWORD"
         name := value env "DB_NAME", sslMode := valueOrElse env "DB_SSL_MODE" "disable" }
     cache :=
       { host := value env "REDIS_HOST", port := valueOrElse env "REDIS_PORT" "6379"
         password := value env "REDIS_PASSWORD", database := database
         lifetime := seconds lifetime }
     events :=
       { url := value env "NATS_URL", subject := valueOrElse env "NATS_SUBJECT" "program.generated" }
     secret := value env "JWT_SECRET" }, bad1 ++ bad2 ++ bad3 ++ bad4)

/-- The rules that settings break, in the order of the settings: a path, its last field, and the
rule. -/
def broken (s : Settings) : List (String × String × String) :=
  let rule (holds : Bool) (path field name : String) : List (String × String × String) :=
    if holds then [] else [("AppConfig." ++ path ++ field, field, name)]
  let given (needed : Bool) (text : String) : Bool := !needed || text ≠ ""
  rule (["dev", "prod", "test"].contains s.mode) "" "Mode" "oneof" ++
  rule (s.port ≠ "") "" "ApiPort" "required" ++
  rule (["debug", "info", "warn", "error"].contains s.logLevel) "" "LogLevel" "oneof" ++
  rule (10 ≤ s.options.commentWrap) "Generator." "CommentWrap" "min" ++
  rule (given (s.store.host ≠ "") s.store.port) "MainDatabase." "Port" "required_with" ++
  rule (given (s.store.host ≠ "") s.store.name) "MainDatabase." "DatabaseName" "required_with" ++
  rule (s.store.sslMode = "" ||
      ["disable", "allow", "prefer", "require", "verify-ca", "verify-full"].contains s.store.sslMode)
    "MainDatabase." "SSLMode" "oneof" ++
  rule (given (s.cache.host ≠ "") s.cache.port) "RedisConfig." "Port" "required_with" ++
  rule (0 ≤ s.cache.database) "RedisConfig." "DB" "min" ++
  rule (given (s.events.url ≠ "") s.events.subject) "NatsConfig." "Subject" "required_with" ++
  rule (s.secret = "" || 16 ≤ s.secret.length) "JWTConfig." "Secret" "min"

/-- A variable of a file. A value with a zero character in it cannot be set. -/
def settable (key value : String) : String × String :=
  (key, if value.toList.contains '\x00' then "" else value)

/-- The variables of a file and the environment together. Without a name the usual file is read, if
there is one. -/
def withFile (files : FileView) (envFile : String) (env : Environment) : Except Fault Environment :=
  let path := if envFile = "" then ".env" else envFile
  match files.read path with
  | .error .missing => if envFile = "" then .ok env else .error (.file path .missing)
  | .error f => .error (.file path f)
  | .ok bytes =>
    match EnvFile.read (Text.ofBytes bytes) with
    | .error f => .error (.content path f)
    | .ok vars => .ok (env ++ vars.map fun (key, value) => settable key value)

def load (files : FileView) (envFile : String) (env : Environment) : Except Fault Settings :=
  match withFile files envFile env with
  | .error f => .error f
  | .ok env =>
    let (s, bad) := ofEnvironment env
    if !bad.isEmpty then .error (.values bad)
    else if !s.broken.isEmpty then .error (.rules s.broken)
    else .ok s

end Settings

end BlockProgram
