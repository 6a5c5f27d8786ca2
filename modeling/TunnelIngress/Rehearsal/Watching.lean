import TunnelIngress.Rehearsal.Work

/-!
Watch events, periodic resyncs, pools of workers and the shutdown.
-/

namespace TunnelIngress.World

def addWork (world : World) (work : List WorkKey) : World :=
  work.foldl (fun world key => world.addItem key.text) world

def admission (world : World) : Admission :=
  ⟨world.config.ingressClass, world.config.filterServices⟩

/-- Handles a watch event; there is no world after one with a nameless object. -/
def watchEvent (world : World) (kind : Kind) (event : WatchEvent AnyObject) : Option World := do
  let outcome ← world.watches.handle world.admission world.index kind event
  let watched := { world with watches := outcome.watches, index := outcome.index }
  return (watched.addWork outcome.work).wakePools

def dropWatches (world : World) (kinds : List Kind) : World :=
  { world with watching := world.watching.filter fun kind => !kinds.contains kind }.wakePools

def fireShutdown (world : World) : World :=
  if world.shutdown then
    world
  else
    let fired := { world with shutdown := true }
    let waiting := fired.jobs.entries.filter fun entry =>
      match entry.2 with
      | .awaitingShutdown => true
      | _ => false
    (waiting.foldl (fun world entry => world.wake entry.1) fired).wakePools

def stopResyncs (world : World) : World :=
  { world with resyncsStopped := true }

/-- Stops the watches and the resyncs of a controller and tells everyone else to end. -/
def shutDown (world : World) : World :=
  ({ world with watching := [] }.stopResyncs).fireShutdown

/-- What a pool fails with when the watch of a kind is gone before its first list. -/
def lostWatch : String :=
  "writer was dropped before store became ready"

def setPhase (world : World) (pool : Nat) (phase : PoolPhase) : World :=
  world.modifyPool pool fun p => { p with phase }

/-- A turn of a pool: it waits for the first list of every kind, runs its workers until the shutdown,
and is finished when they have ended. -/
def poolTurn (world : World) (n : Nat) : World :=
  match world.pools[n]? with
  | some { phase := .syncing, .. } =>
    if world.shutdown then
      world.closeQueue.setPhase n .finished
    else if Kind.all.any fun kind =>
        !world.watches.ready kind && !world.watching.contains kind then
      let failed := world.setPhase n (.failed lostWatch)
      if failed.failsTogether then failed.shutDown else failed
    else if world.watches.caches.allReady then
      let workers := List.range world.config.workers.toNat
      workers.foldl (fun world worker => world.wake (.worker n worker))
        (world.modifyPool n fun _ => { phase := .running, workers })
    else
      world
  | some { phase := .running, workers } =>
    if world.shutdown then
      world.closeQueue.setPhase n (if workers.isEmpty then .finished else .closing)
    else
      world
  | some { phase := .closing, workers } =>
    if workers.isEmpty then world.setPhase n .finished else world
  | _ => world

def startPool (world : World) : World :=
  let n := world.pools.length
  let pool : Pool := { phase := .syncing, workers := [] }
  { world with pools := world.pools ++ [pool], pool := some n }.wake (.pool n)

def poolPhase? (world : World) : Option PoolPhase :=
  (world.pool.bind (world.pools[·]?)).map (·.phase)

/-- How far the latest pool is. Once it has been told that the pool is over, it is not told again. -/
def reportPool (world : World) : World × Option PoolPhase :=
  let phase := world.poolPhase?
  (if phase.any (·.isOver) then { world with pool := none } else world, phase)

/-- Plans a tick of a resync, due at an instant in nanoseconds. -/
def planTick (world : World) (period due : Nat) : World :=
  { world with
    agenda := world.agenda.planAt ((due + 999999) / 1000000) (.resyncTick period due) }

/-- Starts to add all admitted ingresses to the queue once per period. -/
def startResync (world : World) (period : Duration) : World :=
  if period.isZero then world else world.post (.resyncBegin period.nanos)

def beginResync (world : World) (period : Nat) : World :=
  world.planTick period (world.nowNanos + period)

/-- A tick of a resync. Further ticks that are due by now come together with it. -/
def resyncTick (world : World) (period due : Nat) : World :=
  if world.resyncsStopped then
    world
  else
    let admitted := world.watches.ingresses.cache.objects.filter
      (Admissible.admitted world.admission)
    let passed := (world.nowNanos - due) / period
    (world.addWork (admitted.map Watch.workOf)).planTick period (due + (passed + 1) * period)

/-- How long to wait after some failed lists in a row: doubling, up to half a minute. -/
def listRetry (failed : Nat) : Nat :=
  min (800 * Decimal.twoPow (min failed 10)) 30000

def inScope (world : World) (object : AnyObject) : Bool :=
  match world.config.watchNamespace with
  | none => true
  | some ns => object.metadata.ns == some ns

/-- Handles events of a kind in turn, up to one that kills the watch. -/
def watchEvents (world : World) (kind : Kind) : List (WatchEvent AnyObject) → World
  | [] => world
  | event :: rest =>
    match world.watchEvent kind event with
    | some handled => handled.watchEvents kind rest
    | none => world.dropWatches [kind]

/-- The events of a list of all objects of a kind. -/
def listEvents (world : World) (kind : Kind) : List (WatchEvent AnyObject) :=
  let objects := (world.cluster.listed.getD kind []).filter world.inScope
  [.beginList] ++ objects.map .listItem ++ [.endList]

/-- A list of a kind is complete; from now on its changes are watched. -/
def openWatch (world : World) (kind : Kind) : World :=
  { world with
    cluster := { world.cluster with
      failed := world.cluster.failed.erase kind
      opened := kind :: world.cluster.opened } }

/-- The watch of a kind makes a list, or fails to and plans another. -/
def list (world : World) (kind : Kind) : World :=
  if !world.watching.contains kind then
    world
  else
    let failing := world.cluster.failing.getD kind 0
    let failed := world.cluster.failed.getD kind 0
    if 0 < failing then
      { world with
        cluster := { world.cluster with
          failing := world.cluster.failing.insert kind (failing - 1)
          failed := world.cluster.failed.insert kind (failed + 1) } }.plan
        (listRetry failed) (.list kind)
    else
      (world.watchEvents kind (world.listEvents kind)).openWatch kind

end TunnelIngress.World
