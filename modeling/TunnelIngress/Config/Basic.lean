import TunnelIngress.Config.Settings
import TunnelIngress.Decimal.Shortest
import TunnelIngress.Resource.Key
import TunnelIngress.Table

/-!
The configuration of a controller and the conditions under which it can run.
-/

namespace TunnelIngress

/-- Why a configuration is refused. -/
inductive ConfigError where
  | invalidValue (name value : String)
  | invalid (text : String)
deriving DecidableEq, Repr

def ConfigError.message : ConfigError → String
  | invalidValue name value => s!"{name}: invalid value '{value}'"
  | invalid text => text

structure ControllerConfig where
  ingressClass : String := "argo-tunnel"
  /-- All namespaces when absent. -/
  watchNamespace : Option String := none
  /-- No periodic resync when zero. -/
  resyncPeriodSecs : UInt64 := 0
  requeueLimit : UInt32 := 2
  workers : UInt64 := 2
  /-- The secret, as `namespace/name`, of hosts that no other rule covers. -/
  defaultSecret : Option String := none
  /-- Secrets, as `namespace/name`, by host. -/
  secretOverrides : Table String String := ∅
  filterServices : Bool := false
  tunnel : TunnelSettings := {}

namespace ControllerConfig

def resyncPeriod? (config : ControllerConfig) : Option Duration :=
  if 0 < config.resyncPeriodSecs then some (.ofSeconds config.resyncPeriodSecs) else none

/-- The key of a secret: a bare name is refused. -/
def namespacedKey (setting raw : String) : Except ConfigError ResourceKey :=
  match ResourceKey.read raw with
  | .ok key => if key.hasNamespace then .ok key else .error (.invalidValue setting raw)
  | .error _ => .error (.invalidValue setting raw)

def defaultSecretKey (config : ControllerConfig) : Except ConfigError (Option ResourceKey) :=
  match config.defaultSecret with
  | none => .ok none
  | some raw => (namespacedKey "default_secret" raw).map some

/-- The override secrets in the order of their hosts; the first bad one is reported. -/
def secretOverrideKeys (config : ControllerConfig) :
    Except ConfigError (List (String × ResourceKey)) :=
  config.secretOverrides.sorted.mapM fun entry =>
    (namespacedKey "secret_overrides" entry.2).map (entry.1, ·)

def validate (config : ControllerConfig) : Except ConfigError Unit := do
  if config.ingressClass.isEmpty then
    throw (.invalid "ingress class must not be empty")
  if config.workers = 0 then
    throw (.invalid "at least one worker is required")
  let jitter := config.tunnel.repairJitter
  if !jitter.isFinite || jitter < 0.0 then
    throw (.invalidValue "repair_jitter" (Decimal.floatText jitter))
  discard config.defaultSecretKey
  discard config.secretOverrideKeys

end ControllerConfig

end TunnelIngress
