import TunnelIngress.Resource.Key

/-!
The objects of the cluster that decide where tunnels go. A field that is absent differs from one that
is present and empty. Maps are lists in ascending order of their keys, so equal maps are equal lists.
-/

namespace TunnelIngress

abbrev StringMap : Type :=
  List (String × String)

structure Metadata where
  name : Option String := none
  ns : Option String := none
  annotations : Option StringMap := none
  labels : Option StringMap := none
  resourceVersion : Option String := none
  uid : Option String := none
deriving DecidableEq, Repr

def Metadata.key (metadata : Metadata) : ResourceKey :=
  .ofMetadata metadata.ns metadata.name

/-- The metadata with a version; an object that has none is in its first. -/
def Metadata.versioned (metadata : Metadata) : Metadata :=
  { metadata with resourceVersion := metadata.resourceVersion.or (some "1") }

structure BackendPort where
  name : Option String
  number : Option Int32
deriving DecidableEq, Repr

structure BackendService where
  name : String
  port : Option BackendPort
deriving DecidableEq, Repr

structure BackendResource where
  kind : String
  name : String
deriving DecidableEq, Repr

structure Backend where
  service : Option BackendService := none
  resource : Option BackendResource := none
deriving DecidableEq, Repr

structure HttpPath where
  path : Option String
  pathType : String
  backend : Backend
deriving DecidableEq, Repr

structure IngressRule where
  host : Option String
  paths : Option (List HttpPath)
deriving DecidableEq, Repr

structure IngressTls where
  hosts : Option (List String)
  secretName : Option String
deriving DecidableEq, Repr

structure IngressSpec where
  className : Option String
  rules : Option (List IngressRule)
  tls : Option (List IngressTls)
deriving DecidableEq, Repr

structure Ingress where
  metadata : Metadata
  spec : Option IngressSpec
  hasStatus : Bool
deriving DecidableEq, Repr

structure ServicePort where
  name : Option String
  port : Int32
deriving DecidableEq, Repr

structure Service where
  metadata : Metadata
  /-- The ports, when the service has a specification. -/
  spec : Option (Option (List ServicePort))
deriving DecidableEq, Repr

structure Endpoints where
  metadata : Metadata
  /-- The addresses of each subset. -/
  subsets : Option (List (Option (List String)))
deriving DecidableEq, Repr

structure Secret where
  metadata : Metadata
  data : Option (List (String × List UInt8))
  stringData : Option StringMap
deriving DecidableEq, Repr

/-- The rules of an ingress, none when it has no specification. -/
def Ingress.rules (ingress : Ingress) : List IngressRule :=
  (ingress.spec.bind (·.rules)).getD []

def Ingress.tls (ingress : Ingress) : List IngressTls :=
  (ingress.spec.bind (·.tls)).getD []

def Service.ports (service : Service) : List ServicePort :=
  (service.spec.bind id).getD []

inductive AnyObject where
  | endpoint (object : Endpoints)
  | ingress (object : Ingress)
  | secret (object : Secret)
  | service (object : Service)
deriving DecidableEq, Repr

namespace AnyObject

def metadata : AnyObject → Metadata
  | endpoint object => object.metadata
  | ingress object => object.metadata
  | secret object => object.metadata
  | service object => object.metadata

/-- An object as the cluster reports it, with a version. -/
def versioned : AnyObject → AnyObject
  | endpoint object => endpoint { object with metadata := object.metadata.versioned }
  | ingress object => ingress { object with metadata := object.metadata.versioned }
  | secret object => secret { object with metadata := object.metadata.versioned }
  | service object => service { object with metadata := object.metadata.versioned }

end AnyObject

class KubernetesObject (α : Type) where
  kind : Kind
  metadata : α → Metadata

instance : KubernetesObject Endpoints :=
  ⟨.endpoint, Endpoints.metadata⟩

instance : KubernetesObject Ingress :=
  ⟨.ingress, Ingress.metadata⟩

instance : KubernetesObject Secret :=
  ⟨.secret, Secret.metadata⟩

instance : KubernetesObject Service :=
  ⟨.service, Service.metadata⟩

def keyOf {α : Type} [KubernetesObject α] (object : α) : ResourceKey :=
  (KubernetesObject.metadata object).key

end TunnelIngress
