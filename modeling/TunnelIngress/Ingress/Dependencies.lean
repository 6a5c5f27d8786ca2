import TunnelIngress.Ingress.Admission
import TunnelIngress.Ingress.SecretResolver

/-!
What the routes of an ingress depend on: the secrets of its hosts and the services of its paths. An
ingress of another class depends on nothing.
-/

namespace TunnelIngress

def pushNew (keys : List ResourceKey) (key : ResourceKey) : List ResourceKey :=
  if keys.contains key then keys else keys ++ [key]

def nonEmptyName? (name : Option String) : Option String :=
  name.filter (!·.isEmpty)

/-- The secrets of the hosts, in the order of the rules. -/
def Ingress.secretsNeeded (ingress : Ingress) (className : String) (resolver : SecretResolver) :
    List ResourceKey :=
  if ingress.hasClass className then
    let tls := ingress.tlsSecrets
    let hosts := ingress.rules.filterMap fun rule => nonEmptyName? rule.host
    (hosts.filterMap fun host => resolver.resolve host tls).foldl pushNew []
  else
    []

/-- The services of the paths, in the order of the paths. -/
def Ingress.servicesNeeded (ingress : Ingress) (className : String) : List ResourceKey :=
  if ingress.hasClass className then
    let ns := ingress.metadata.ns.getD ""
    let paths := ingress.rules.flatMap fun rule => rule.paths.getD []
    let names := paths.filterMap fun path => nonEmptyName? (path.backend.service.map (·.name))
    (names.map fun name => ⟨ns, name⟩).foldl pushNew []
  else
    []

end TunnelIngress
