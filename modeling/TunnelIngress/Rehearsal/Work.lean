import TunnelIngress.Control.Error
import TunnelIngress.Rehearsal.Routing

/-!
The work queue at work: adding items now and later, asking for them, and workers that handle them.
-/

namespace TunnelIngress.World

def setQueue (world : World) (queue : WorkQueue) : World :=
  { world with queue }.record [.depth (UInt64.ofNat queue.gauge)]

def notifyOne (world : World) : World :=
  let (wakeup, first) := world.wakeup.wakeOne
  let notified := { world with wakeup }
  match first with
  | none => notified
  | some actor => notified.wake actor

def addItem (world : World) (item : String) : World :=
  let (queue, entered) := world.queue.add item
  let added := world.setQueue queue
  if entered then added.notifyOne else added

def finishItem (world : World) (item : String) : World :=
  let (queue, entered) := world.queue.finish item
  let finished := world.setQueue queue
  if entered then finished.notifyOne else finished

def addAfter (world : World) (item : String) (delay : Duration) : World :=
  if world.queue.shutDown then
    world
  else if delay.isZero then
    world.addItem item
  else
    world.post (.delayAdd item delay.startedMillis)

/-- Adds an item after the delay its failures call for; the flag is false when no duration is that
long. -/
def addRateLimited (world : World) (item : String) : World × Bool :=
  let (limiter, delay) := world.limiter.delay item world.nowNanos
  let limited := { world with limiter }
  match delay with
  | none => (limited, false)
  | some wait => (limited.addAfter item wait, true)

def closeQueue (world : World) : World :=
  let (wakeup, woken) := world.wakeup.wakeAll
  woken.foldl wake { world with queue := world.queue.close, wakeup }

/-- Looks for an item once: whoever finds nothing and had no permit stays in line. -/
def lookOnce (world : World) (actor : Actor) : World × WorkQueue.Answer × Bool :=
  let (wakeup, permitted) := (world.wakeup.consume actor).enroll actor
  let (queue, answer) := world.queue.take
  let looked := { world with wakeup }.setQueue queue
  match answer with
  | .nothing => (looked, .nothing, permitted)
  | answer =>
    ({ looked with wakeup := (looked.wakeup.leave actor).1 }, answer, false)

/-- Asks for an item. Whoever finds nothing stays in line; a permit that was lying around is worth a
second look. -/
def askItem (world : World) (actor : Actor) : World × WorkQueue.Answer :=
  let (world, answer, again) := world.lookOnce actor
  if again then
    let (world, answer, _) := world.lookOnce actor
    (world, answer)
  else
    (world, answer)

def leaveLine (world : World) (actor : Actor) : World :=
  let (wakeup, next) := world.wakeup.leave actor
  let left := { world with wakeup }
  match next with
  | none => left
  | some other => left.wake other

/-- How far the handling of a key got. -/
inductive Handling where
  | done
  | waiting
  | refused (error : HandlingError)
  | crashed
deriving DecidableEq, Repr

/-- Asks for a change to the routes as part of handling a key. -/
def handleBy (world : World) (actor : Actor) (mutation : Mutation) : World × Handling :=
  let (world, done) := world.request actor mutation
  (world, if done then .done else .waiting)

/-- Handles a key: makes the links that it calls for and asks for the change to the routes. -/
def handle (world : World) (actor : Actor) (kind : Kind) (key : ResourceKey) :
    World × Handling :=
  if key.hasNamespace then
    let (index, demand) :=
      Demand.ofKey world.watches.caches world.index world.config.tunnel kind key
    let world := { world with index }
    match demand with
    | .error _ => (world, .crashed)
    | .ok demand =>
      let (fleet, mutation) := demand.build world.fleet
      let world := { world with fleet }
      match mutation with
      | none => (world, .done)
      | some mutation => world.handleBy actor mutation
  else
    (world, .refused (.missingNamespace kind key))

def forget (world : World) (item : String) : World :=
  { world with limiter := world.limiter.forget item }

/-- Records that an item was handled. The time it took is not observed. -/
def succeed (world : World) (item : String) (kind : Kind) : World :=
  (world.forget item).record [.reconciliation kind.name "success" 0.0]

/-- Records that handling an item failed, and tries again later within the limit. -/
def retry (world : World) (item : String) (kind : Kind) : World :=
  let world := world.record [.reconciliation kind.name "error" 0.0]
  if world.limiter.failureCount item < world.config.requeueLimit.toNat then
    (world.addRateLimited item).1.record [.requeue "retried"]
  else
    (world.forget item).record [.requeue "dropped"]

def release (world : World) (actor : Actor) (item : String) : World :=
  { world with held := world.held.erase actor }.finishItem item

/-- A worker processes an item it took; false when it has to wait for the routes. A worker that
crashes keeps the item for ever. -/
def process (world : World) (actor : Actor) (item : String) : World × Handling :=
  let holding := { world with held := world.held.insert actor item }
  match WorkKey.read item with
  | .error _ =>
    (((holding.forget item).record [.requeue "dropped"]).release actor item, .done)
  | .ok work =>
    let (handled, handling) := holding.handle actor work.kind work.key
    match handling with
    | .done => ((handled.succeed item work.kind).release actor item, .done)
    | .refused error => ((handled.retry item work.kind).release actor item, .refused error)
    | other => (handled, other)

/-- The routes have been changed for the item in a worker's hands. -/
def concludeItem (world : World) (actor : Actor) : World :=
  match world.held.get? actor with
  | none => world
  | some item =>
    match WorkKey.read item with
    | .error _ => world.release actor item
    | .ok work => (world.succeed item work.kind).release actor item

def endWorker (world : World) (pool n : Nat) : World :=
  (world.modifyPool pool fun p => { p with workers := p.workers.filter (· ≠ n) }).wake (.pool pool)

/-- A worker of a pool takes and handles items until it has to wait or the queue is closed. -/
def workOn (world : World) (pool n : Nat) : Nat → World
  | 0 => world
  | fuel + 1 =>
    let actor := Actor.worker pool n
    let (world, answer) := world.askItem actor
    match answer with
    | .nothing => world
    | .closed => world.endWorker pool n
    | .item item =>
      let (world, handling) := world.process actor item
      match handling with
      | .waiting => world
      | .crashed => world.endWorker pool n
      | _ => world.workOn pool n fuel

/-- More items than a worker handles in one turn. -/
def itemsPerTurn : Nat :=
  100000

def workerTurn (world : World) (pool n : Nat) : World :=
  let actor := Actor.worker pool n
  if world.held.contains actor then
    let (world, done) := world.resume actor
    if done then (world.concludeItem actor).workOn pool n itemsPerTurn else world
  else
    world.workOn pool n itemsPerTurn

end TunnelIngress.World
