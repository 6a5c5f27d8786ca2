import TunnelIngress.Ingress.Cache
import TunnelIngress.Ingress.Dependencies
import TunnelIngress.Tunnel.Launch

/-!
The route that an ingress calls for, from what the caches hold: one tunnel for each host whose root
path leads to a cached service with a matching port and endpoints. All else is left out.
-/

namespace TunnelIngress

/-- The first port of a service that a backend means: by number when one other than zero is given,
else by name when one is given. -/
def Service.portFor? (service : Service) (port : Option BackendPort) : Option Int32 := do
  let wanted ← port
  let found ← service.ports.find? fun candidate =>
    if wanted.number.any (· ≠ 0) then
      wanted.number == some candidate.port
    else if wanted.name.any (!·.isEmpty) then
      wanted.name == candidate.name
    else
      false
  return found.port

structure RoutePlan where
  key : ResourceKey
  options : TunnelOptions
  links : Table Rule LinkSpec
deriving DecidableEq

def HttpPath.isRoot (path : HttpPath) : Bool :=
  match path.path with
  | none => true
  | some text => text.isEmpty || text == "/"

namespace RoutePlan

def describe (key : ResourceKey) (rules : Nat) : String :=
  s!"Route({key.text}): {rules} rule(s)"

def text (plan : RoutePlan) : String :=
  describe plan.key plan.links.size

/-- The certificate of a secret, empty when it is not at hand. -/
def certificateOf (caches : Caches) (secret : Option ResourceKey) : List UInt8 :=
  ((secret.bind caches.secrets.find?).bind (·.certificate?)).getD []

/-- The service and port that a path leads to. -/
def target? (caches : Caches) (ns : String) (path : HttpPath) : Option (ResourceKey × Int32) := do
  guard path.isRoot
  let backend ← path.backend.service
  let name ← nonEmptyName? (some backend.name)
  let key : ResourceKey := ⟨ns, name⟩
  let service ← caches.services.find? key
  let port ← service.portFor? backend.port
  let endpoints ← caches.endpoints.find? key
  guard endpoints.hasSubsets
  return (key, port)

/-- The rules of an ingress that can be served, in the order of its paths. -/
def servedRules (caches : Caches) (resolver : SecretResolver) (ingress : Ingress) : List Rule :=
  let ns := ingress.metadata.ns.getD ""
  let tls := ingress.tlsSecrets
  ingress.rules.flatMap fun rule =>
    match nonEmptyName? rule.host with
    | none => []
    | some host =>
      (rule.paths.getD []).filterMap fun path =>
        (target? caches ns path).map fun (service, port) =>
          { host, port, service, secret := resolver.resolve host tls }

/-- The route of an ingress. It has none when an annotation is beyond the range of durations. -/
def ofIngress (caches : Caches) (resolver : SecretResolver) (settings : TunnelSettings)
    (ingress : Ingress) : Except Phrase.Fault RoutePlan := do
  let options ← TunnelOptions.ofAnnotations (ingress.metadata.annotations.getD [])
  let rules := servedRules caches resolver ingress
  return {
    key := keyOf ingress
    options
    links := .ofList <| rules.map fun rule =>
      (rule, .new settings rule (certificateOf caches rule.secret) options) }

end RoutePlan

end TunnelIngress
