import TunnelIngress.Config.Basic
import TunnelIngress.Decimal.Integer
import TunnelIngress.Decimal.Reading
import TunnelIngress.Text.Blank
import TunnelIngress.Text.Flag

/-!
The configuration that a set of environment variables describes. Variables are read in a fixed order,
so of two bad ones the first in that order is reported, and the whole is validated at the end.
-/

namespace TunnelIngress.ControllerConfig

/-- The host and secret of one entry of the override list. -/
def overrideOfEntry (entry : String) : Except ConfigError (String × String) :=
  match Text.cut? '=' entry with
  | some (host, secret) => .ok (Text.trim host, Text.trim secret)
  | none => .error (.invalidValue "ARGOT_SECRET_OVERRIDES" entry)

/-- The table that `host=namespace/name,…` writes. Blank entries are skipped and the last entry of a
host counts. -/
def readOverrides (raw : String) : Except ConfigError (Table String String) := do
  let entries := ((Text.pieces ',' raw).map Text.trim).filter (!·.isEmpty)
  return .ofList (← entries.mapM overrideOfEntry)

/-- The variable's value, trimmed and read; unset leaves the default. -/
def variableOr {α : Type} (env : String → Option String) (name : String)
    (read : String → Option α) (default : α) : Except ConfigError α :=
  match env name with
  | none => .ok default
  | some raw =>
    match read (Text.trim raw) with
    | some value => .ok value
    | none => .error (.invalidValue name raw)

def nonEmpty? (s : String) : Option String :=
  if s.isEmpty then none else some s

/-- All variables that a configuration is read from. -/
def variableNames : List String :=
  ["ARGOT_INGRESS_CLASS", "ARGOT_WATCH_NAMESPACE", "ARGOT_RESYNC_PERIOD_SECS",
   "ARGOT_REQUEUE_LIMIT", "ARGOT_WORKERS", "ARGOT_DEFAULT_SECRET", "ARGOT_SECRET_OVERRIDES",
   "ARGOT_FILTER_SERVICES", "ARGOT_TUNNEL_VERSION", "ARGOT_REPAIR_DELAY_SECS",
   "ARGOT_REPAIR_JITTER", "ARGOT_TAG_LIMIT", "ARGOT_METRICS_UPDATE_FREQ_SECS",
   "ARGOT_CLOUDFLARED_PATH", "ARGOT_CERT_DIR"]

def ofEnvironment (env : String → Option String) : Except ConfigError ControllerConfig := do
  let defaults : ControllerConfig := {}
  let tunnel := defaults.tunnel
  let resyncPeriodSecs ←
    variableOr env "ARGOT_RESYNC_PERIOD_SECS" Decimal.word64? defaults.resyncPeriodSecs
  let requeueLimit ← variableOr env "ARGOT_REQUEUE_LIMIT" Decimal.word32? defaults.requeueLimit
  let workers ← variableOr env "ARGOT_WORKERS" Decimal.word64? defaults.workers
  let secretOverrides ← match env "ARGOT_SECRET_OVERRIDES" with
    | some raw => readOverrides raw
    | none => pure defaults.secretOverrides
  let filterServices ← variableOr env "ARGOT_FILTER_SERVICES" Text.flag? defaults.filterServices
  let repairDelaySecs ←
    variableOr env "ARGOT_REPAIR_DELAY_SECS" Decimal.word64? tunnel.repairDelaySecs
  let repairJitter ← variableOr env "ARGOT_REPAIR_JITTER" Decimal.float? tunnel.repairJitter
  let tagLimit ← variableOr env "ARGOT_TAG_LIMIT" Decimal.word64? tunnel.tagLimit
  let metricsUpdateFreqSecs ←
    variableOr env "ARGOT_METRICS_UPDATE_FREQ_SECS" Decimal.word64? tunnel.metricsUpdateFreqSecs
  let config : ControllerConfig := {
    ingressClass := (env "ARGOT_INGRESS_CLASS").getD defaults.ingressClass
    watchNamespace := (env "ARGOT_WATCH_NAMESPACE").bind nonEmpty?
    resyncPeriodSecs
    requeueLimit
    workers
    defaultSecret := (env "ARGOT_DEFAULT_SECRET").bind nonEmpty?
    secretOverrides
    filterServices
    tunnel := {
      version := (env "ARGOT_TUNNEL_VERSION").getD tunnel.version
      repairDelaySecs
      repairJitter
      tagLimit
      metricsUpdateFreqSecs
      cloudflaredPath := (env "ARGOT_CLOUDFLARED_PATH").getD tunnel.cloudflaredPath
      certDir := (env "ARGOT_CERT_DIR").getD tunnel.certDir } }
  config.validate
  return config

end TunnelIngress.ControllerConfig
