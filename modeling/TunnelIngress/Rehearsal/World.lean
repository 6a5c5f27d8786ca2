import TunnelIngress.Control.RateLimiter
import TunnelIngress.Control.Wakeup
import TunnelIngress.Control.WorkQueue
import TunnelIngress.Ingress.Demand
import TunnelIngress.Ingress.Watches
import TunnelIngress.Kubernetes.Decoding
import TunnelIngress.Rehearsal.Agenda
import TunnelIngress.Rehearsal.Script
import TunnelIngress.Tunnel.Network
import TunnelIngress.Tunnel.RepairDelay

/-!
The world of a rehearsal: the parts of a controller in virtual time, with scripted daemons in place of
real ones and with whoever is at work on them.
-/

namespace TunnelIngress

/-- Whoever works on the controller's parts and may have to wait: the step of the rehearsal at hand,
steps in the background, pools of workers, the workers of a pool and consumers of the queue. -/
inductive Actor where
  | step
  | background (n : Nat)
  | pool (n : Nat)
  | worker (pool n : Nat)
  | consumer (n : Nat)
deriving DecidableEq, Repr

inductive Event where
  | turn (actor : Actor)
  | supervise (link : LinkId) (index : Nat)
  /-- The stage of a run is over, unless the run has left it. -/
  | stageOver (link : LinkId) (index stage : Nat)
  /-- A late signal of a connection sets out, to arrive so many milliseconds later. -/
  | lateSignal (link : LinkId) (delay : Nat)
  | lateConnect (link : LinkId)
  /-- An item sets out, to be added so many milliseconds later. -/
  | delayAdd (item : String) (delay : Nat)
  | dueAdd (item : String)
  /-- A resync with a period in nanoseconds begins. -/
  | resyncBegin (period : Nat)
  /-- A tick of a resync with that period, due at an instant in nanoseconds. -/
  | resyncTick (period due : Nat)
  | list (kind : Kind)
deriving DecidableEq, Repr

/-- What a scripted daemon is doing, or that its supervisor waits to launch it again. -/
inductive RunStage where
  | connecting
  | serving
  | windingDown
  | awaitingRelaunch
deriving DecidableEq, Repr

/-- A run of a scripted daemon. Stages are counted, so that an end of a stage that was left is
recognised. -/
structure DaemonRun where
  script : DaemonScript
  number : Nat
  stage : RunStage
  stages : Nat
deriving DecidableEq, Repr

/-- What an actor at work on links is in the middle of. -/
inductive Job where
  | asking (mutation : Mutation)
  /-- Is about to stop a link by itself. -/
  | askingStop (link : LinkId)
  /-- Waits for the shutdown in order to halt the router. -/
  | awaitingShutdown
  | queued (mutation : Mutation)
  /-- Has changed the routes and waits for the supervisors of the stopped links to end. -/
  | applying (progress : Mutation.Progress)
  | stopping (link : LinkId) (index : Nat)

/-- How far a pool of workers is. -/
inductive PoolPhase where
  | syncing
  | running
  | closing
  | finished
  | failed (cause : String)
deriving DecidableEq, Repr

def PoolPhase.isOver : PoolPhase → Bool
  | finished | failed _ => true
  | _ => false

structure Pool where
  phase : PoolPhase
  workers : List Nat
deriving DecidableEq, Repr

/-- The objects that the cluster lists, and how many lists of each kind still fail. -/
structure Cluster where
  listed : Table Kind (List AnyObject)
  failing : Table Kind Nat
  /-- The lists that have failed in a row. -/
  failed : Table Kind Nat
  /-- The kinds whose list is complete, so that changes are watched. -/
  opened : List Kind

structure World where
  config : ControllerConfig
  scripts : Table String (List DaemonScript)
  /-- Where in the jitter of a repair delay the delays lie. -/
  sample : Float
  agenda : Agenda Event
  /-- Whether the step at hand may go on; it does so when nobody else may. -/
  stepWoken : Bool
  log : List (Nat × String)
  metrics : Metrics
  fleet : Fleet
  runs : Table (LinkId × Nat) DaemonRun
  launches : Table (String × String) Nat
  routes : Routes
  /-- Who changes the routes, and who waits to, in order. -/
  lockHolder : Option Actor
  lockLine : List Actor
  jobs : Table Actor Job
  queue : WorkQueue
  limiter : RateLimiter
  wakeup : Wakeup Actor
  held : Table Actor String
  consumed : Table Nat WorkQueue.Answer
  /-- How many consumers were started, and those whose results nobody has collected. -/
  consumers : Nat
  uncollected : List Nat
  /-- How many steps were put into the background, and those nobody has waited for. -/
  backgrounds : Nat
  unjoined : List Nat
  watches : Watches
  /-- The kinds whose watch is still there. -/
  watching : List Kind
  index : IngressIndex
  shutdown : Bool
  pools : List Pool
  /-- The pool whose end nobody has asked about, if any: the latest one. -/
  pool : Option Nat
  /-- Whether a failure of a pool shuts everything down. -/
  failsTogether : Bool
  /-- Whether all resyncs, also those still to begin, are stopped. -/
  resyncsStopped : Bool
  cluster : Cluster

namespace World

def new (config : ControllerConfig) (scripts : Table String (List DaemonScript))
    (resolver : SecretResolver) : World :=
  { config
    scripts
    sample := 0.5
    agenda := .start
    stepWoken := false
    log := []
    metrics := .zero
    fleet := .empty
    runs := ∅
    launches := ∅
    routes := (∅ : Table _ _)
    lockHolder := none
    lockLine := []
    jobs := ∅
    queue := .empty
    limiter := .standard 0
    wakeup := .quiet
    held := ∅
    consumed := ∅
    consumers := 0
    uncollected := []
    backgrounds := 0
    unjoined := []
    watches := .new
    watching := Kind.all
    index := .new config.ingressClass resolver
    shutdown := false
    pools := []
    pool := none
    failsTogether := false
    resyncsStopped := false
    cluster := { listed := ∅, failing := ∅, failed := ∅, opened := [] } }

def now (world : World) : Nat :=
  world.agenda.now

def nowNanos (world : World) : Nat :=
  world.agenda.now * 1000000

def record (world : World) (seen : List Observation) : World :=
  { world with metrics := seen.foldl Metrics.record world.metrics }

def writeLog (world : World) (text : String) : World :=
  { world with log := world.log ++ [(world.now, text)] }

def post (world : World) (event : Event) : World :=
  { world with agenda := world.agenda.post event }

def plan (world : World) (delay : Nat) (event : Event) : World :=
  { world with agenda := world.agenda.plan delay event }

/-- Gives someone a turn. The step at hand gets its turn when nobody else has one. -/
def wake (world : World) (actor : Actor) : World :=
  match actor with
  | .step => { world with stepWoken := true }
  | _ => world.post (.turn actor)

def wakePools (world : World) : World :=
  (List.range world.pools.length).foldl (fun world n => world.wake (.pool n)) world

def modifyPool (world : World) (n : Nat) (change : Pool → Pool) : World :=
  { world with pools := world.pools.modify n change }

def modifyLink (world : World) (id : LinkId) (change : Link → Link) : World :=
  { world with fleet := world.fleet.modify id change }

def changeLink (world : World) (id : LinkId) (change : Link → Link × List Observation) : World :=
  match world.fleet.get? id with
  | none => world
  | some link =>
    let (link, seen) := change link
    (world.modifyLink id fun _ => link).record seen

end World

end TunnelIngress
