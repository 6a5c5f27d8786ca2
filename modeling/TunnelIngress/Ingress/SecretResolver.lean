import TunnelIngress.Config.Basic
import TunnelIngress.Kubernetes.Object
import TunnelIngress.Table

/-!
The secret of a host: the one the ingress names for it, else the override of the host, else the
default.
-/

namespace TunnelIngress

structure SecretResolver where
  default : Option ResourceKey
  overrides : Table String ResourceKey
deriving DecidableEq

namespace SecretResolver

def ofConfig (config : ControllerConfig) : Except ConfigError SecretResolver := do
  return {
    default := ← config.defaultSecretKey
    overrides := .ofList (← config.secretOverrideKeys) }

def resolve (resolver : SecretResolver) (host : String) (tls : Table String ResourceKey) :
    Option ResourceKey :=
  ((tls.get? host).or (resolver.overrides.get? host)).or resolver.default

end SecretResolver

/-- The secrets that an ingress names by host, in its own namespace. Entries without a secret name are
skipped and a host keeps its first secret. -/
def Ingress.tlsSecrets (ingress : Ingress) : Table String ResourceKey :=
  let ns := ingress.metadata.ns.getD ""
  let named := ingress.tls.flatMap fun entry =>
    match entry.secretName with
    | none => []
    | some name => if name.isEmpty then [] else (entry.hosts.getD []).map (·, ⟨ns, name⟩)
  named.foldl
    (fun (table : Table String ResourceKey) (entry : String × ResourceKey) =>
      if table.contains entry.1 then table else table.insert entry.1 entry.2)
    ∅

end TunnelIngress
