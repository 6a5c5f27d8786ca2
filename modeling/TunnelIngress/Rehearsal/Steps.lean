import TunnelIngress.Rehearsal.Clock

/-!
The steps of a rehearsal: what is done to a world from outside, one thing after the other.
-/

namespace TunnelIngress.World

/-! ### The queue -/

def takeNow (world : World) : World × WorkQueue.Answer :=
  let (asked, answer) := world.askItem .step
  match answer with
  | .nothing => (asked.leaveLine .step, .nothing)
  | answer => (asked, answer)

def awaitItemWithin (world : World) (deadline : Nat) : Nat → World × WorkQueue.Answer
  | 0 => (world, .nothing)
  | fuel + 1 =>
    let rested := world.runUntilWithin (·.stepWoken) deadline eventLimit
    if rested.stepWoken then
      let (asked, answer) := { rested with stepWoken := false }.askItem .step
      match answer with
      | .nothing => asked.awaitItemWithin deadline fuel
      | answer => (asked, answer)
    else
      let left := rested.leaveLine .step
      ({ left with agenda := left.agenda.passTo deadline }, .nothing)

/-- Asks for an item and waits for it so many milliseconds. What is due at the end of the wait comes
too late. -/
def takeWithin (world : World) (ms : Nat) : World × WorkQueue.Answer :=
  let (asked, answer) := { world with stepWoken := false }.askItem .step
  match answer with
  | .nothing => asked.awaitItemWithin (world.now + ms) eventLimit
  | answer => (asked, answer)

def startConsumer (world : World) : World :=
  { world with
    consumers := world.consumers + 1
    uncollected := world.uncollected ++ [world.consumers] }.wake (.consumer world.consumers)

/-- What each consumer got, in the order of their starts; those still waiting are asked again. -/
def collect (world : World) : World × List WorkQueue.Answer :=
  let results := world.uncollected.map fun n => (world.consumed.get? n).getD .nothing
  ({ world with
      uncollected := world.uncollected.filter fun n => !world.consumed.contains n },
    results)

def drainWithin (world : World) (taken : List String) : Nat → World × List String
  | 0 => (world, taken)
  | fuel + 1 =>
    let (asked, answer) := world.takeNow
    match answer with
    | .item item => (asked.finishItem item).drainWithin (taken ++ [item]) fuel
    | _ => (asked, taken)

/-- Takes and completes items until there are none. -/
def drain (world : World) : World × List String :=
  world.drainWithin [] eventLimit

/-! ### Links and routes -/

def inBackground (world : World) (job : Job) : World :=
  let actor := Actor.background world.backgrounds
  { world with
    jobs := world.jobs.insert actor job
    backgrounds := world.backgrounds + 1
    unjoined := world.unjoined ++ [world.backgrounds] }.wake actor

def backgroundDone (world : World) : Bool :=
  world.unjoined.all fun n => !world.jobs.contains (.background n)

/-- Waits for all jobs in the background; returns how many there were, unless they never end. -/
def join (world : World) : World × Option Nat :=
  let joined := world.runUntil (·.backgroundDone)
  if joined.backgroundDone then
    ({ joined with unjoined := [] }, some world.unjoined.length)
  else
    (joined, none)

def perform (world : World) (job : Job) : World × Bool :=
  finishStep ({ world with
    stepWoken := false
    jobs := world.jobs.insert .step job }.resume .step)

def addLink (world : World) (spec : LinkSpec) : World × LinkId :=
  let (fleet, id) := world.fleet.add spec
  ({ world with fleet }, id)

/-- Makes the links of a route; of two for one rule the later one wins. -/
def makeRoute (world : World) (key : ResourceKey) (options : TunnelOptions)
    (specs : List LinkSpec) : World × Route :=
  let (world, links) := specs.foldl
    (fun (made : World × Table Rule LinkId) spec =>
      let (world, id) := made.1.addLink spec
      (world, made.2.insert spec.rule id))
    (world, (∅ : Table Rule LinkId))
  (world, { key, options, links })

/-! ### Handling keys -/

/-- Waits for the routes on behalf of a key that the step at hand handles. -/
def finishHandling (begun : World × Handling) : World × Handling :=
  match begun.2 with
  | .waiting =>
    let (world, done) := finishStep (begun.1, false)
    (world, if done then .done else .waiting)
  | _ => begun

def handleKey (world : World) (kind : Kind) (key : ResourceKey) : World × Handling :=
  finishHandling ({ world with stepWoken := false }.handle .step kind key)

/-- How the processing of one item by the worker at hand ends. -/
inductive Processed where
  | item
  | closed
  | nothing
  | crashed
deriving DecidableEq, Repr

/-- Takes one item as a worker does and handles it to the end. -/
def processOne (world : World) : World × Processed :=
  if world.queue.isEmpty && !world.queue.shutDown then
    (world, .nothing)
  else
    let (asked, answer) := { world with stepWoken := false }.takeNow
    match answer with
    | .nothing => (asked, .nothing)
    | .closed => (asked, .closed)
    | .item item =>
      let (begun, handling) := asked.process .step item
      match handling with
      | .crashed => (begun, .crashed)
      | .waiting =>
        let (finished, _) := finishStep (begun, false)
        (finished.concludeItem .step, .item)
      | _ => (begun, .item)

def processAllWithin (world : World) (count : Nat) : Nat → World × Option Nat
  | 0 => (world, some count)
  | fuel + 1 =>
    if world.queue.isEmpty then
      (world, some count)
    else
      let (processed, result) := world.processOne
      match result with
      | .item => processed.processAllWithin (count + 1) fuel
      | .crashed => (processed, none)
      | _ => (processed, some count)

/-- Handles items until the queue is empty; returns how many, unless handling one crashed. -/
def processAll (world : World) : World × Option Nat :=
  world.processAllWithin 0 eventLimit

/-! ### Caches -/

/-- How a wait for the first list of every kind ends. -/
inductive Sync where
  | ready
  | cancelled
  | failed
  | pending
deriving DecidableEq, Repr

/-- Waits up to ten milliseconds for the first list of every kind. -/
def awaitSync (world : World) (cancelled : Bool) : World × Sync :=
  if cancelled then
    (world, .cancelled)
  else if Kind.all.any fun kind =>
      !world.watches.ready kind && !world.watching.contains kind then
    (world, .failed)
  else if world.watches.caches.allReady then
    (world, .ready)
  else
    (world.wait 10, .pending)

end TunnelIngress.World
