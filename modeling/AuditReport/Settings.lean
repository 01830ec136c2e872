import AuditReport.Number.Reading
import AuditReport.Value.Text
import AuditReport.Vault
import AuditReport.Workers

/-! The settings of the report, read from named texts. A setting that is missing has a default, and
so has a number that is blank. -/

namespace AuditReport

/-- Why the settings cannot be used. -/
inductive SettingsError where
  | notAnInteger (name given : String)
  | notPositive (name : String) (n : Int)
  /-- A time to live beyond the range of doubles. -/
  | tooLong (name : String)
  | noSecret
  deriving DecidableEq, Repr

/-- The wording of a settings error. -/
def SettingsError.message : SettingsError → String
  | notAnInteger name given =>
    "Environment variable " ++ name ++ " must be an integer, got " ++ (Value.text given).quoted
  | notPositive name n =>
    "Environment variable " ++ name ++ " must be positive, got " ++ toString n
  | tooLong name => "Environment variable " ++ name ++ " is out of range"
  | noSecret => "ENCRYPTION_SECRET must be set to decrypt OTA credentials"

/-- What the report is set up with. -/
structure Settings where
  applicationId : String
  /-- Where the document store is, and the name of its database. -/
  storeUrl : String
  storeName : String
  /-- Where the request log is. -/
  logUrl : String
  secret : String
  workers : Int
  /-- How many seconds decrypted values are kept. -/
  cacheTtl : Float
  /-- How many milliseconds a query may take. -/
  timeout : Int
  deriving Repr

namespace Settings

/-- The text given for each name. -/
abbrev Environment := String → Option String

/-- A positive integer, or its default where there is no text but blanks. -/
def positive (env : Environment) (name : String) (default : Int) : Except SettingsError Int :=
  match env name with
  | none => .ok default
  | some given =>
    if (Text.trim given).isEmpty then .ok default
    else match Number.readInt? (Text.trimBy Text.isNumberBlank given.toList) with
      | none => .error (.notAnInteger name given)
      | some n => if n ≤ 0 then .error (.notPositive name n) else .ok n

/-- A number of seconds as a double. -/
def seconds (name : String) (n : Int) : Except SettingsError Float :=
  match Number.ofInt? n with
  | some x => .ok x
  | none => .error (.tooLong name)

/-- Reads the settings. Of several faults the first in the order of the numbers here is reported. -/
def read (env : Environment) : Except SettingsError Settings := do
  let workers ← positive env "PARALLEL_WORKERS" 8
  let cacheTtl ← seconds "DECRYPTION_CACHE_TTL" (← positive env "DECRYPTION_CACHE_TTL" 300)
  let timeout ← positive env "QUERY_TIMEOUT_MS" 30000
  return {
    applicationId := (env "APPLICATION_ID").getD "Unknown"
    storeUrl := (env "MONGODB_URL").getD "mongodb://localhost:27017"
    storeName := (env "MONGODB_DATABASE").getD "hotel_audit"
    logUrl := (env "DATABASE_URL").getD "sqlite:///./report_logs.db"
    secret := (env "ENCRYPTION_SECRET").getD ""
    workers, cacheTtl, timeout }

/-- The secret for stored credentials, without which nothing can be decrypted. -/
def requireSecret (s : Settings) : Except SettingsError String :=
  if s.secret.isEmpty then .error .noSecret else .ok s.secret

/-- The workers on a machine with some processors. -/
def workersOn (s : Settings) (processors : Nat) : Workers :=
  Workers.ofRequest (some s.workers) processors none

end Settings

end AuditReport
