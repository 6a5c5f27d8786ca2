import TunnelIngress.Control.Metrics
import TunnelIngress.Tunnel.Launch

/-!
A tunnel link and its supervisors. A started link has a supervisor in its slot, which launches the
daemon, and launches it again after a delay whenever it fails. Stopping takes the supervisor out of
the slot, asks it to quit and waits for its end, so for a while a link may have a supervisor on its
way out beside a new one.
-/

namespace TunnelIngress

inductive LinkState where
  | stopped
  | starting
  | running
  | repairing
deriving DecidableEq, Repr

def LinkState.text : LinkState → String
  | stopped => "stopped"
  | starting => "starting"
  | running => "running"
  | repairing => "repairing"

/-- Where a supervisor stands: before its first turn, with a daemon in flight, waiting to launch the
next one, or at its end. -/
inductive SupervisorPhase where
  | spawned
  | daemon
  | delay
  | ended
deriving DecidableEq, Repr

structure Supervisor where
  phase : SupervisorPhase
  /-- Whether it was asked to quit. -/
  quit : Bool
deriving DecidableEq, Repr

def Supervisor.alive (supervisor : Supervisor) : Bool :=
  supervisor.phase != .ended

/-- How a run of a daemon ends: by itself, or with a failure that calls for a repair. -/
inductive DaemonOutcome where
  | exited
  | failed
deriving DecidableEq, Repr

structure Link where
  spec : LinkSpec
  state : LinkState
  /-- How often the state was set, also to the state it had. -/
  writes : Nat
  /-- Every supervisor the link ever had, in the order of their starts. -/
  supervisors : List Supervisor
  /-- The supervisor that the next stop will end. -/
  slot : Option Nat
deriving DecidableEq

namespace Link

def new (spec : LinkSpec) : Link :=
  { spec, state := .stopped, writes := 0, supervisors := [], slot := none }

def text (link : Link) : String :=
  link.spec.rule.text ++ " (" ++ link.state.text ++ ")"

def setState (link : Link) (state : LinkState) : Link :=
  { link with state, writes := link.writes + 1 }

def supervisor? (link : Link) (index : Nat) : Option Supervisor :=
  link.supervisors[index]?

def setPhase (link : Link) (index : Nat) (phase : SupervisorPhase) : Link :=
  { link with
    supervisors := link.supervisors.modify index fun supervisor => { supervisor with phase } }

def alive (link : Link) (index : Nat) : Bool :=
  (link.supervisor? index).any (·.alive)

def quitting (link : Link) (index : Nat) : Bool :=
  (link.supervisor? index).any (·.quit)

/-- A supervisor is in the slot and has not ended. -/
def isStarted (link : Link) : Bool :=
  link.slot.any link.alive

/-- Puts a new supervisor into the slot and returns its index, unless a live one is there. One that
ended by itself is replaced. -/
def start (link : Link) : Link × Option Nat × List Observation :=
  if link.isStarted then
    (link, none, [])
  else
    let replaced := if link.slot.isSome then [Observation.linkStopped] else []
    let index := link.supervisors.length
    let started := link.setState .starting
    ({ started with
        supervisors := link.supervisors ++ [{ phase := .spawned, quit := false }]
        slot := some index },
      some index, replaced ++ [.linkStarted])

/-- Takes the supervisor out of the slot and asks it to quit; its end is what the stop waits for. -/
def beginStop (link : Link) : Link × Option Nat :=
  match link.slot with
  | none => (link, none)
  | some index =>
    ({ link with
        slot := none
        supervisors := link.supervisors.modify index fun supervisor =>
          { supervisor with quit := true } },
      some index)

/-- What a stop does once the supervisor it took has ended. -/
def endStop (link : Link) : Link × List Observation :=
  (link.setState .stopped, [.linkStopped])

def launched (link : Link) (index : Nat) : Link :=
  (link.setPhase index .daemon).setState .starting

/-- A daemon reports its connection; only a starting link takes note. -/
def connected (link : Link) : Link :=
  if link.state = .starting then link.setState .running else link

def supervisorEnded (link : Link) (index : Nat) : Link :=
  (link.setPhase index .ended).setState .stopped

/-- A run of the daemon is over. A supervisor that was asked to quit ends, and so does one whose
daemon exited by itself. After a failure it waits; if no duration is as long as the delay, it dies on
the spot and leaves the link in repair. -/
def daemonEnded (link : Link) (index : Nat) (outcome : DaemonOutcome) (delay : Option Duration) :
    Link × List Observation :=
  if link.quitting index then
    (link.supervisorEnded index, [])
  else
    match outcome with
    | .exited => (link.supervisorEnded index, [])
    | .failed =>
      let next := if delay.isSome then SupervisorPhase.delay else .ended
      ((link.setState .repairing).setPhase index next, [.repair link.spec.host])

end Link

end TunnelIngress
