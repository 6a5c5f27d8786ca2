import TunnelIngress.Ingress.Watches
import TunnelIngress.Proofs.Control.IdleQueue
import TunnelIngress.Proofs.Ingress.Demands
import TunnelIngress.Proofs.Ingress.IndexCoverage
import TunnelIngress.Proofs.Ingress.ServedRules
import TunnelIngress.Proofs.Ingress.SingleChanges
import TunnelIngress.Proofs.Tunnel.RoutePlaces
import TunnelIngress.Proofs.Tunnel.RouterSession

/-!
# The control loop

Objects are applied and deleted, and their keys queued. Workers take one key after the other and change
the routes as it calls for. What is out of date at any moment is covered by a key that still waits: this
is the invariant from which the routes are right whenever the queue is empty.
-/

namespace TunnelIngress

structure ControlLoop where
  watches : Watches
  index : IngressIndex
  queue : WorkQueue
  /-- Items to be added again after a delay, as handling them failed. -/
  delayed : List String
  router : RouterSession

/-- An object is cached under its key. -/
def Caches.Holds (caches : Caches) : AnyObject → Prop
  | .endpoint object => caches.endpoints.find? (keyOf object) = some object
  | .ingress object => caches.ingresses.find? (keyOf object) = some object
  | .secret object => caches.secrets.find? (keyOf object) = some object
  | .service object => caches.services.find? (keyOf object) = some object

namespace ControlLoop

def start (className : String) (resolver : SecretResolver) : ControlLoop :=
  { watches := .new, index := .new className resolver, queue := .empty, delayed := [], router := .new }

abbrev caches (loop : ControlLoop) : Caches :=
  loop.watches.caches

/-- An event has been handled, and its keys are queued. -/
def absorb (loop : ControlLoop) (outcome : Watches.Outcome) : ControlLoop :=
  { loop with
    watches := outcome.watches
    index := outcome.index
    queue := loop.queue.addAll (outcome.work.map (·.text)) }

/-- A worker handles an item to the end. One that is no key is dropped; one without a namespace is
refused, and dropped or tried again later. Any other may call for a change of the routes: its links are
made, it waits until it may begin, and it is complete in the end. Daemons do what they like meanwhile. -/
inductive Handles (settings : TunnelSettings) (item : String) (loop : ControlLoop) :
    ControlLoop → Prop where
  | malformed (error : KeyError) (read : WorkKey.read item = .error error) :
      Handles settings item loop loop
  | refused (work : WorkKey) (read : WorkKey.read item = .ok work)
      (bare : work.key.hasNamespace = false) (retried : Bool) :
      Handles settings item loop
        { loop with delayed := if retried then item :: loop.delayed else loop.delayed }
  | unconcerned (work : WorkKey) (read : WorkKey.read item = .ok work)
      (placed : work.key.hasNamespace = true) (index : IngressIndex) (demand : Demand)
      (found : Demand.ofKey loop.caches loop.index settings work.kind work.key = (index, .ok demand))
      (fleet : Fleet) (built : demand.build loop.router.fleet = (fleet, none)) :
      Handles settings item loop { loop with index, router := { loop.router with fleet } }
  | changed (work : WorkKey) (read : WorkKey.read item = .ok work)
      (placed : work.key.hasNamespace = true) (index : IngressIndex) (demand : Demand)
      (found : Demand.ofKey loop.caches loop.index settings work.kind work.key = (index, .ok demand))
      (fleet : Fleet) (mutation : Mutation)
      (built : demand.build loop.router.fleet = (fleet, some mutation))
      (waiting : RouterSession) (waits : RouterSession.Carries { loop.router with fleet } waiting)
      (router : RouterSession) (carries : RouterSession.Carries (waiting.begin mutation) router)
      (complete : router.pending = none) :
      Handles settings item loop { loop with index, router }

/-- The events and the worker runs come in any order. A deleted object is the cached one. -/
inductive Step (settings : TunnelSettings) (admission : Admission) (loop : ControlLoop) :
    ControlLoop → Prop where
  | applied (kind : Kind) (object : AnyObject) (plain : object.metadata.Plain)
      (outcome : Watches.Outcome)
      (handled : loop.watches.handle admission loop.index kind (.apply object) = some outcome) :
      Step settings admission loop (loop.absorb outcome)
  | deleted (kind : Kind) (object : AnyObject) (plain : object.metadata.Plain)
      (cached : loop.caches.Holds object) (outcome : Watches.Outcome)
      (handled : loop.watches.handle admission loop.index kind (.delete object) = some outcome) :
      Step settings admission loop (loop.absorb outcome)
  | worked (item : String) (taken : WorkQueue) (took : loop.queue.take = (taken, .item item))
      (later : ControlLoop) (handles : Handles settings item { loop with queue := taken } later) :
      Step settings admission loop { later with queue := (later.queue.finish item).1 }
  | due (item : String) (mem : item ∈ loop.delayed) :
      Step settings admission loop
        { loop with delayed := loop.delayed.erase item, queue := (loop.queue.add item).1 }
  | daemons (router : RouterSession) (goes : loop.router.Goes router) :
      Step settings admission loop { loop with router }

abbrev Leads (settings : TunnelSettings) (admission : Admission) :
    ControlLoop → ControlLoop → Prop :=
  Relation.ReflTransGen (Step settings admission)

/-! ### What may be out of date -/

variable (loop : ControlLoop)

/-- A key that a cluster object can have waits for a worker. -/
def Waits (kind : Kind) (key : ResourceKey) : Prop :=
  key.Plain ∧ (⟨kind, key⟩ : WorkKey).text ∈ loop.queue.waiting

/-- The service of a key, or its endpoints, wait for a worker. -/
def ServiceWaits (key : ResourceKey) : Prop :=
  loop.Waits .endpoint key ∨ loop.Waits .service key

/-- The ingress of a key, if it is cached and of the controller's class. -/
def wanted (key : ResourceKey) : Option Ingress :=
  Demand.wanted loop.caches loop.index key

/-- A route is that of an ingress, but for what depends on keys that wait, and for rules whose secret has
no certificate at hand. -/
structure UpToDate (settings : TunnelSettings) (ingress : Ingress) (route : Route) : Prop where
  options : TunnelOptions.ofAnnotations (ingress.metadata.annotations.getD []) = .ok route.options
  asked : ∀ rule id, route.links.get? rule = some id → ∃ port, ingress.Asks loop.index.resolver rule port
  served : ∀ rule id, route.links.get? rule = some id →
    rule ∈ RoutePlan.servedRules loop.caches loop.index.resolver ingress ∨ loop.ServiceWaits rule.service
  made : ∀ rule id, route.links.get? rule = some id →
    loop.router.fleet.spec? id = some (.new settings rule
      (RoutePlan.certificateOf loop.caches rule.secret) route.options) ∨
    ∃ secret, rule.secret = some secret ∧ loop.Waits .secret secret
  complete : ∀ rule ∈ RoutePlan.servedRules loop.caches loop.index.resolver ingress,
    route.links.get? rule = none → loop.ServiceWaits rule.service ∨
      ∃ secret, rule.secret = some secret ∧
        (loop.caches.certificate? secret = none ∨ loop.Waits .secret secret)

/-- What holds between any two steps. -/
structure Tracks (settings : TunnelSettings) (admission : Admission) (resolver : SecretResolver) :
    Prop where
  className : loop.index.className = admission.ingressClass
  resolver : loop.index.resolver = resolver
  queue : loop.queue.Idle
  plain : ∀ item ∈ loop.queue.waiting, ∃ work : WorkKey, work.key.Plain ∧ item = work.text
  delayed : loop.delayed = []
  idle : loop.router.pending = none
  endpoints : Watch.Placed loop.watches.endpoints.cache.entries
  ingresses : Watch.Placed loop.watches.ingresses.cache.entries
  secrets : Watch.Placed loop.watches.secrets.cache.entries
  services : Watch.Placed loop.watches.services.cache.entries
  covered : ∀ key ingress, loop.caches.ingresses.find? key = some ingress → loop.index.Covers ingress
  coherent : Routes.Coherent loop.router.routes loop.router.fleet settings
  routed : ∀ key ingress, loop.wanted key = some ingress → ¬ loop.Waits .ingress key →
    ∃ route, loop.router.routes.get? key = some route ∧ loop.UpToDate settings ingress route
  unrouted : ∀ key, loop.wanted key = none → ¬ loop.Waits .ingress key →
    loop.router.routes.get? key = none

theorem tracks_start (settings : TunnelSettings) (admission : Admission) (resolver : SecretResolver) :
    (start admission.ingressClass resolver).Tracks settings admission resolver where
  className := rfl
  resolver := rfl
  queue := WorkQueue.idle_empty
  plain := by simp [start, WorkQueue.empty]
  delayed := rfl
  idle := rfl
  endpoints := Watch.placed_empty
  ingresses := Watch.placed_empty
  secrets := Watch.placed_empty
  services := Watch.placed_empty
  covered key ingress found := by cases found
  coherent :=
    { keyed := fun _ _ hit => nomatch hit
      made := fun _ _ _ ⟨_, hit, _⟩ => nomatch hit }
  routed key ingress found := by cases found
  unrouted _ _ _ := rfl

end ControlLoop

end TunnelIngress
