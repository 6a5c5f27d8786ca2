import TunnelIngress.Kubernetes.Object

/-!
Which objects are worth a work item. An ingress must be of the controller's class, endpoints must have
a subset, a secret must hold a certificate, and a service may be required to have ports.
-/

namespace TunnelIngress

/-- The entry of a secret that holds the certificate of a tunnel. -/
def certificateEntry : String :=
  "cert.pem"

/-- The class of an ingress: its annotation, or else the class name of its specification. -/
def Ingress.className? (ingress : Ingress) : Option String :=
  ((ingress.metadata.annotations.getD []).lookup "kubernetes.io/ingress.class").or
    (ingress.spec.bind (·.className))

def Ingress.hasClass (ingress : Ingress) (className : String) : Bool :=
  ingress.className? == some className

def Endpoints.hasSubsets (endpoints : Endpoints) : Bool :=
  !(endpoints.subsets.getD []).isEmpty

def Secret.certificate? (secret : Secret) : Option (List UInt8) :=
  (secret.data.getD []).lookup certificateEntry

def Secret.hasCertificate (secret : Secret) : Bool :=
  secret.certificate?.isSome

def Service.hasPorts (service : Service) : Bool :=
  !service.ports.isEmpty

structure Admission where
  ingressClass : String
  filterServices : Bool
deriving DecidableEq

class Admissible (α : Type) extends KubernetesObject α where
  admitted : Admission → α → Bool

instance : Admissible Endpoints :=
  { admitted := fun _ endpoints => endpoints.hasSubsets }

instance : Admissible Ingress :=
  { admitted := fun admission ingress => ingress.hasClass admission.ingressClass }

instance : Admissible Secret :=
  { admitted := fun _ secret => secret.hasCertificate }

instance : Admissible Service :=
  { admitted := fun admission service => !admission.filterServices || service.hasPorts }

end TunnelIngress
