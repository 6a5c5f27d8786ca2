import TunnelIngress.Tunnel.Router

/-!
Links and the routes that lead to them, and how a change to the routes is carried out: the routes
change at once, then links stop, then links start. A change that waits for supervisors to end is
carried on later, as often as it takes.
-/

namespace TunnelIngress

/-- A change that has changed the routes: the supervisors it waits for, the links it starts when those
have ended, and the routes it removes after that. -/
structure Mutation.Progress where
  stopping : List (LinkId × Nat)
  start : List LinkId
  later : List ResourceKey
deriving DecidableEq, Repr

namespace Mutation.Progress

def done : Progress :=
  ⟨[], [], []⟩

def isDone (progress : Progress) : Bool :=
  progress.stopping.isEmpty && progress.start.isEmpty && progress.later.isEmpty

end Mutation.Progress

structure Network where
  fleet : Fleet
  routes : Routes

namespace Network

/-- What a change leads to outside: supervisors that have a turn now, as they were asked to quit or are
new, and what was observed. -/
structure Effects where
  roused : List (LinkId × Nat)
  seen : List Observation

namespace Effects

def none : Effects :=
  ⟨[], []⟩

def append (a b : Effects) : Effects :=
  ⟨a.roused ++ b.roused, a.seen ++ b.seen⟩

instance : Append Effects :=
  ⟨append⟩

end Effects

/-- Begins to stop several links; returns the supervisors that have to end. A link that has none is
left alone. -/
def beginStops (network : Network) (links : List LinkId) : Network × List (LinkId × Nat) :=
  links.foldl
    (fun (done : Network × List (LinkId × Nat)) id =>
      let (fleet, taken) := done.1.fleet.beginStop id
      ({ done.1 with fleet }, done.2 ++ (taken.map (id, ·)).toList))
    (network, [])

/-- Ends the stops whose supervisors have ended; returns those that have not. -/
def endStops (network : Network) (stopping : List (LinkId × Nat)) :
    Network × List (LinkId × Nat) × Effects :=
  let (waiting, ended) := stopping.partition fun stop => network.fleet.alive stop.1 stop.2
  let (network, effects) := ended.foldl
    (fun (done : Network × Effects) stop =>
      let (fleet, seen) := done.1.fleet.endStop stop.1
      ({ done.1 with fleet }, done.2 ++ ⟨[], seen⟩))
    (network, Effects.none)
  (network, waiting, effects)

def startLinks (network : Network) (links : List LinkId) : Network × Effects :=
  links.foldl
    (fun (done : Network × Effects) id =>
      let (fleet, spawned, seen) := done.1.fleet.start id
      ({ done.1 with fleet }, done.2 ++ ⟨(spawned.map (id, ·)).toList, seen⟩))
    (network, Effects.none)

/-- Takes a route out and begins to stop its links. -/
def removeRoute (network : Network) (key : ResourceKey) : Network × List (LinkId × Nat) :=
  let (routes, changes) := Routes.removeRoute network.routes key
  { network with routes }.beginStops changes.stop

/-- Removes routes one after the other, as long as no link has to be waited for. -/
def removeRoutes (network : Network) : List ResourceKey → Network × Mutation.Progress × Effects
  | [] => (network, .done, .none)
  | key :: rest =>
    let (network, stopping) := network.removeRoute key
    let (network, waiting, ended) := network.endStops stopping
    if waiting.isEmpty then
      let (network, progress, effects) := network.removeRoutes rest
      (network, progress, ⟨stopping, []⟩ ++ ended ++ effects)
    else
      (network, { stopping := waiting, start := [], later := rest }, ⟨stopping, []⟩ ++ ended)

/-- Changes the routes and begins to stop the links that go. The supervisors waited for have a turn. -/
def begin (network : Network) (mutation : Mutation) : Network × Mutation.Progress :=
  let plan := mutation.plan network.fleet network.routes
  let (network, stopping) := { network with routes := plan.routes }.beginStops plan.changes.stop
  (network, { stopping, start := plan.changes.start, later := plan.later })

/-- Carries a change on: once the supervisors it waits for have ended, starts the new links and goes
through the routes that are to be removed. -/
def advance (network : Network) (progress : Mutation.Progress) :
    Network × Mutation.Progress × Effects :=
  let (network, waiting, ended) := network.endStops progress.stopping
  if waiting.isEmpty then
    let (network, started) := network.startLinks progress.start
    let (network, progress, removed) := network.removeRoutes progress.later
    (network, progress, ended ++ started ++ removed)
  else
    (network, { progress with stopping := waiting }, ended)

end Network

end TunnelIngress
