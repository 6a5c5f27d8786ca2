import TunnelIngress.Ingress.Index
import TunnelIngress.Tunnel.Router

/-!
What handling a work key calls for. An ingress of the controller's class calls for its route, built
from what the caches hold, and any other for the removal of its route. A dependency calls for new
routes of the ingresses that depend on it, or, when it is gone, for dropping the links that need it.
-/

namespace TunnelIngress

inductive Demand where
  | nothing
  | update (plan : RoutePlan)
  | refresh (plans : List RoutePlan)
  | remove (key : ResourceKey)
  | drop (kind : Kind) (object : ResourceKey) (routes : List ResourceKey)

namespace Demand

/-- The routes of those of some ingresses that are cached and of the controller's class. -/
def plans (caches : Caches) (index : IngressIndex) (settings : TunnelSettings)
    (keys : List ResourceKey) : Except Phrase.Fault (List RoutePlan) :=
  let ingresses := (keys.filterMap caches.ingresses.find?).filter fun ingress =>
    ingress.hasClass index.className
  ingresses.mapM (RoutePlan.ofIngress caches index.resolver settings)

def ofIngress (caches : Caches) (index : IngressIndex) (settings : TunnelSettings)
    (key : ResourceKey) : Except Phrase.Fault Demand := do
  match ← plans caches index settings [key] with
  | plan :: _ => return .update plan
  | [] => return .remove key

/-- What a change to an object calls for, given the ingresses that depend on it. -/
def ofDependency (caches : Caches) (index : IngressIndex) (settings : TunnelSettings) (kind : Kind)
    (key : ResourceKey) (dependents : List ResourceKey) : Except Phrase.Fault Demand :=
  if dependents.isEmpty then
    .ok .nothing
  else if caches.has kind key then
    (plans caches index settings dependents).map .refresh
  else
    .ok (.drop kind key dependents)

/-- The demand of a key, and the index with the lookups for it counted. There is none when an
annotation is beyond the range of durations. -/
def ofKey (caches : Caches) (index : IngressIndex) (settings : TunnelSettings) (kind : Kind)
    (key : ResourceKey) : IngressIndex × Except Phrase.Fault Demand :=
  match kind with
  | .ingress => (index, ofIngress caches index settings key)
  | kind =>
    let (index, dependents) := index.lookup kind key
    (index, ofDependency caches index settings kind key dependents)

def buildAll (plans : List RoutePlan) (fleet : Fleet) : Fleet × List Route :=
  plans.foldl
    (fun (built : Fleet × List Route) plan =>
      let (fleet, route) := plan.build built.1
      (fleet, built.2 ++ [route]))
    (fleet, [])

/-- The change to the routes that a demand comes down to, if any, once its links have been made. -/
def build (demand : Demand) (fleet : Fleet) : Fleet × Option Mutation :=
  match demand with
  | .nothing => (fleet, none)
  | .update plan =>
    let (fleet, route) := plan.build fleet
    (fleet, some (.update route))
  | .refresh plans =>
    let (fleet, routes) := buildAll plans fleet
    (fleet, some (.refresh routes))
  | .remove key => (fleet, some (.remove key))
  | .drop kind object routes => (fleet, some (.drop kind object routes))

end Demand

end TunnelIngress
