import TunnelIngress.Ingress.Watch

/-!
The watches of all four kinds. An event of one kind acts on the watch of that kind alone, and on the
index that the watches share.
-/

namespace TunnelIngress

structure Watches where
  endpoints : Watch Endpoints
  ingresses : Watch Ingress
  secrets : Watch Secret
  services : Watch Service

/-- An event of objects of any kind as one of objects of a certain kind. -/
def WatchEvent.cast? {α : Type} (cast : AnyObject → Option α) :
    WatchEvent AnyObject → Option (WatchEvent α)
  | .apply object => (cast object).map .apply
  | .delete object => (cast object).map .delete
  | .beginList => some .beginList
  | .listItem object => (cast object).map .listItem
  | .endList => some .endList

namespace Watches

def new : Watches :=
  { endpoints := .new, ingresses := .new, secrets := .new, services := .new }

def caches (watches : Watches) : Caches :=
  { endpoints := watches.endpoints.cache
    ingresses := watches.ingresses.cache
    secrets := watches.secrets.cache
    services := watches.services.cache }

def ready (watches : Watches) (kind : Kind) : Bool :=
  match kind with
  | .endpoint => watches.endpoints.cache.ready
  | .ingress => watches.ingresses.cache.ready
  | .secret => watches.secrets.cache.ready
  | .service => watches.services.cache.ready

structure Outcome where
  watches : Watches
  index : IngressIndex
  work : List WorkKey

def Outcome.of {α : Type} (put : Watch α → Watches) (outcome : Watch.Outcome α) : Outcome :=
  { watches := put outcome.watch, index := outcome.index, work := outcome.work }

/-- Handles an event of a kind; there is no outcome for an object of another kind or without a name. -/
def handle (watches : Watches) (admission : Admission) (index : IngressIndex) :
    Kind → WatchEvent AnyObject → Option Outcome
  | .endpoint, event => do
    let event ← event.cast? fun | .endpoint object => some object | _ => none
    let outcome ← watches.endpoints.handle admission index event
    return .of (fun endpoints => { watches with endpoints }) outcome
  | .ingress, event => do
    let event ← event.cast? fun | .ingress object => some object | _ => none
    let outcome ← watches.ingresses.handle admission index event
    return .of (fun ingresses => { watches with ingresses }) outcome
  | .secret, event => do
    let event ← event.cast? fun | .secret object => some object | _ => none
    let outcome ← watches.secrets.handle admission index event
    return .of (fun secrets => { watches with secrets }) outcome
  | .service, event => do
    let event ← event.cast? fun | .service object => some object | _ => none
    let outcome ← watches.services.handle admission index event
    return .of (fun services => { watches with services }) outcome

end Watches

end TunnelIngress
