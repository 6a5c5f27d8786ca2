import TunnelIngress.Resource.Key

/-!
A rule sends the traffic of one host to one port of a service, under the certificate of a secret.
Rules are ordered by host, port, service and secret, a rule without a secret first.
-/

namespace TunnelIngress

structure Rule where
  host : String
  port : Int32
  service : ResourceKey
  secret : Option ResourceKey
deriving DecidableEq, Repr

namespace Rule

instance : Ord Rule where
  compare a b :=
    (compare a.host b.host).then <| (compare a.port.toInt b.port.toInt).then <|
      (compare a.service b.service).then (compare a.secret b.secret)

/-- The address inside the cluster that traffic is sent to. -/
def origin (rule : Rule) : String :=
  rule.service.name ++ "." ++ rule.service.ns ++ ":" ++ toString rule.port.toInt

def text (rule : Rule) : String :=
  rule.host ++ " -> " ++ rule.origin

/-- Whether the rule needs the object of that kind and key. -/
def dependsOn (rule : Rule) (kind : Kind) (key : ResourceKey) : Bool :=
  match kind with
  | .endpoint => rule.service == key
  | .service => rule.service == key
  | .secret => rule.secret == some key
  | .ingress => true

end Rule

end TunnelIngress
