import TunnelIngress.Rehearsal.Steps

/-!
Rehearsals of whole controllers: a cluster lists its objects and reports changes to them, the pool of
workers starts once every kind has been listed, and the shutdown ends everything.
-/

namespace TunnelIngress.World

/-- Starts all parts of a controller: the watches, the resync, the one who halts the router at shutdown
and the pool. -/
def boot (world : World) : World :=
  let listing := Kind.all.foldl (fun world kind => world.post (.list kind))
    { world with failsTogether := true }
  let resyncing := match world.config.resyncPeriod? with
    | none => listing
    | some period => listing.startResync period
  (resyncing.inBackground .awaitingShutdown).startPool

/-- What the cluster reports about an object: a change, or the end of it. -/
inductive Change where
  | added
  | modified
  | deleted
deriving DecidableEq, Repr

def Change.event (change : Change) (object : AnyObject) : WatchEvent AnyObject :=
  match change with
  | .deleted => .delete object
  | _ => .apply object

/-- A change that the cluster reports. It is lost on a watch that is gone, and on one that does not see
the object's namespace. -/
def emit (world : World) (kind : Kind) (change : Change) (object : AnyObject) : World :=
  if world.watching.contains kind && world.cluster.opened.contains kind && world.inScope object then
    world.watchEvents kind [change.event object.versioned]
  else
    world

def setListed (world : World) (kind : Kind) (objects : List AnyObject) : World :=
  { world with
    cluster := { world.cluster with
      listed := world.cluster.listed.insert kind (objects.map (·.versioned)) } }

def failLists (world : World) (kind : Kind) (count : Nat) : World :=
  { world with
    cluster := { world.cluster with failing := world.cluster.failing.insert kind count } }

/-- The watch of a kind expires, and makes a new list of other objects after a while. -/
def relist (world : World) (kind : Kind) (objects : List AnyObject) : World :=
  let changed := world.setListed kind objects
  if changed.cluster.opened.contains kind then
    { changed with
      cluster := { changed.cluster with
        opened := changed.cluster.opened.filter (· ≠ kind) } }.plan (listRetry 0) (.list kind)
  else
    changed

/-- How a controller ended, if it has. -/
def result? (world : World) : Option (Except ControllerError Unit) :=
  match world.poolPhase? with
  | some .finished => if world.backgroundDone then some (.ok ()) else none
  | some (.failed cause) => if world.backgroundDone then some (.error (.cacheSync cause)) else none
  | _ => none

def finish (world : World) : World :=
  world.shutDown.runUntil (·.result?.isSome)

end TunnelIngress.World
