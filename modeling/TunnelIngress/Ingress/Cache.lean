import TunnelIngress.Kubernetes.Object
import TunnelIngress.Table

/-!
The cache of one kind of object. Entries are kept under the name and, when there is one, the namespace
of the object. A list in progress fills a buffer that replaces the whole cache when the list is
complete; other changes act on the cache at once.
-/

namespace TunnelIngress

structure ObjectRef where
  name : String
  ns : Option String
deriving DecidableEq, Repr

/-- The reference of an object; an object without a name has none. -/
def refOf? {α : Type} [KubernetesObject α] (object : α) : Option ObjectRef :=
  let metadata := KubernetesObject.metadata object
  metadata.name.map fun name => ⟨name, metadata.ns⟩

structure Cache (α : Type) where
  entries : Table ObjectRef α
  buffer : Table ObjectRef α
  /-- Whether a list was ever completed. -/
  ready : Bool

namespace Cache

variable {α : Type}

def empty : Cache α :=
  { entries := ∅, buffer := ∅, ready := false }

/-- The object under a reference, or else the one of that name without a namespace. -/
def get? (cache : Cache α) (ref : ObjectRef) : Option α :=
  (cache.entries.get? ref).or (cache.entries.get? { ref with ns := none })

def find? (cache : Cache α) (key : ResourceKey) : Option α :=
  cache.get? ⟨key.name, some key.ns⟩

def objects (cache : Cache α) : List α :=
  cache.entries.values

def apply (cache : Cache α) (ref : ObjectRef) (object : α) : Cache α :=
  { cache with entries := cache.entries.insert ref object }

def delete (cache : Cache α) (ref : ObjectRef) : Cache α :=
  { cache with entries := cache.entries.erase ref }

def beginList (cache : Cache α) : Cache α :=
  { cache with buffer := ∅ }

def listItem (cache : Cache α) (ref : ObjectRef) (object : α) : Cache α :=
  { cache with buffer := cache.buffer.insert ref object }

def endList (cache : Cache α) : Cache α :=
  { entries := cache.buffer, buffer := ∅, ready := true }

end Cache

structure Caches where
  endpoints : Cache Endpoints
  ingresses : Cache Ingress
  secrets : Cache Secret
  services : Cache Service

namespace Caches

def empty : Caches :=
  { endpoints := .empty, ingresses := .empty, secrets := .empty, services := .empty }

def allReady (caches : Caches) : Bool :=
  caches.endpoints.ready && caches.ingresses.ready && caches.secrets.ready && caches.services.ready

def has (caches : Caches) (kind : Kind) (key : ResourceKey) : Bool :=
  match kind with
  | .endpoint => (caches.endpoints.find? key).isSome
  | .ingress => (caches.ingresses.find? key).isSome
  | .secret => (caches.secrets.find? key).isSome
  | .service => (caches.services.find? key).isSome

end Caches

end TunnelIngress
