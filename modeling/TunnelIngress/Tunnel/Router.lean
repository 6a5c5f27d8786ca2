import TunnelIngress.Ingress.RoutePlan
import TunnelIngress.Tunnel.Fleet

/-!
The routes of a controller and the changes to them. Each change of the map says which links are to be
stopped and which started; a link is kept when the new route has an equal one for the same rule.
-/

namespace TunnelIngress

structure Route where
  key : ResourceKey
  options : TunnelOptions
  links : Table Rule LinkId
deriving DecidableEq

def Route.text (route : Route) : String :=
  RoutePlan.describe route.key route.links.size

def RoutePlan.build (plan : RoutePlan) (fleet : Fleet) : Fleet × Route :=
  let (fleet, links) := plan.links.entries.foldl
    (fun (built : Fleet × Table Rule LinkId) entry =>
      let (fleet, id) := built.1.add entry.2
      (fleet, built.2.insert entry.1 id))
    (fleet, ∅)
  (fleet, { key := plan.key, options := plan.options, links })

/-- Links to stop, and links to start once those have stopped. -/
structure Changeover where
  stop : List LinkId
  start : List LinkId
deriving DecidableEq, Repr

namespace Changeover

def none : Changeover :=
  ⟨[], []⟩

def append (a b : Changeover) : Changeover :=
  ⟨a.stop ++ b.stop, a.start ++ b.start⟩

instance : Append Changeover :=
  ⟨append⟩

/-- The link that serves a rule of a new route, and what has to change for it. An equal old link stays,
and is started again if its supervisor has ended. -/
def settle (fleet : Fleet) (old : Option LinkId) (new : LinkId) : LinkId × Changeover :=
  match old with
  | .none => (new, ⟨[], [new]⟩)
  | some kept =>
    if fleet.same kept new then
      (kept, ⟨[], if fleet.isStarted kept then [] else [kept]⟩)
    else
      (new, ⟨[kept], [new]⟩)

/-- Replaces the links of an old route by those of a new one. -/
def replace (fleet : Fleet) (old : Table Rule LinkId) (new : Route) : Route × Changeover :=
  let (links, changes) := new.links.entries.foldl
    (fun (done : Table Rule LinkId × Changeover) entry =>
      let (id, changes) := settle fleet (old.get? entry.1) entry.2
      (done.1.insert entry.1 id, done.2 ++ changes))
    (new.links, none)
  let dropped := (old.filter fun rule _ => !new.links.contains rule).values
  ({ new with links }, changes ++ ⟨dropped, []⟩)

end Changeover

abbrev Routes : Type :=
  Table ResourceKey Route

inductive Mutation where
  | update (route : Route)
  /-- Replaces the routes that are there, after a change to a dependency. -/
  | refresh (routes : List Route)
  | remove (key : ResourceKey)
  /-- Drops the links of some routes that need a deleted object. A deleted ingress takes its whole
  route with it, one route after the other. -/
  | drop (kind : Kind) (object : ResourceKey) (routes : List ResourceKey)
  | halt

/-- The routes after a change, what has to happen to the links, and the routes that are to be removed
after that. -/
structure Mutation.Plan where
  routes : Routes
  changes : Changeover
  later : List ResourceKey

namespace Routes

def linkCount (routes : Routes) : Nat :=
  routes.values.foldl (fun count route => count + route.links.size) 0

def text (routes : Routes) : String :=
  s!"Router: {Table.size routes} route(s), {linkCount routes} link(s)"

def removeRoute (routes : Routes) (key : ResourceKey) : Routes × Changeover :=
  match routes.get? key with
  | none => (routes, .none)
  | some route => (routes.erase key, ⟨route.links.values, []⟩)

def putRoute (routes : Routes) (fleet : Fleet) (old : Table Rule LinkId) (new : Route) :
    Routes × Changeover :=
  let (route, changes) := Changeover.replace fleet old new
  (Table.insert routes route.key route, changes)

/-- A route that is no longer there is not brought back. -/
def refreshRoute (routes : Routes) (fleet : Fleet) (new : Route) : Routes × Changeover :=
  match routes.get? new.key with
  | none => (routes, .none)
  | some old => putRoute routes fleet old.links new

def dropDependents (routes : Routes) (kind : Kind) (object key : ResourceKey) :
    Routes × Changeover :=
  match routes.get? key with
  | none => (routes, .none)
  | some route =>
    let doomed := route.links.filter fun rule _ => rule.dependsOn kind object
    let kept := route.links.filter fun rule _ => !rule.dependsOn kind object
    (Table.insert routes key { route with links := kept }, ⟨doomed.values, []⟩)

/-- Applies a change per item and collects what has to happen to the links. -/
def forEach {α : Type} (routes : Routes) (items : List α)
    (change : Routes → α → Routes × Changeover) : Routes × Changeover :=
  items.foldl
    (fun (done : Routes × Changeover) item =>
      let (routes, changes) := change done.1 item
      (routes, done.2 ++ changes))
    (routes, .none)

end Routes

def Mutation.plan (fleet : Fleet) (routes : Routes) : Mutation → Mutation.Plan
  | .update route =>
    let old := ((Table.get? routes route.key).map (·.links)).getD ∅
    let (routes, changes) := Routes.putRoute routes fleet old route
    { routes, changes, later := [] }
  | .refresh updated =>
    let (routes, changes) := Routes.forEach routes updated fun routes route =>
      Routes.refreshRoute routes fleet route
    { routes, changes, later := [] }
  | .remove key =>
    let (routes, changes) := Routes.removeRoute routes key
    { routes, changes, later := [] }
  | .drop .ingress _ keys =>
    { routes, changes := .none, later := keys }
  | .drop kind object keys =>
    let (routes, changes) := Routes.forEach routes keys fun routes key =>
      Routes.dropDependents routes kind object key
    { routes, changes, later := [] }
  | .halt =>
    { routes := (∅ : Table _ _)
      changes := ⟨(Table.values routes).flatMap (·.links.values), []⟩
      later := [] }

end TunnelIngress
