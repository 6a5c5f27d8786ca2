/-!
The four kinds of cluster objects that decide where tunnels go.
-/

namespace TunnelIngress

inductive Kind where
  | endpoint
  | ingress
  | secret
  | service
deriving DecidableEq, Repr

namespace Kind

def all : List Kind :=
  [endpoint, ingress, secret, service]

def name : Kind → String
  | endpoint => "endpoint"
  | ingress => "ingress"
  | secret => "secret"
  | service => "service"

/-- The place of a kind in `all`. -/
def index : Kind → Nat
  | endpoint => 0
  | ingress => 1
  | secret => 2
  | service => 3

def ofName? (s : String) : Option Kind :=
  all.find? (·.name == s)

end Kind

end TunnelIngress
