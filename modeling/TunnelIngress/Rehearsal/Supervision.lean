import TunnelIngress.Rehearsal.World
import TunnelIngress.Text.Hex

/-!
Supervisors and their scripted daemons at work.
-/

namespace TunnelIngress.World

/-- Moves a run to a stage that lasts some milliseconds, or until something else ends it. A stage that
lasts no time is over before anything else happens. -/
def enterStage (world : World) (link : LinkId) (index : Nat) (stage : RunStage)
    (lasting : Option Nat) : World :=
  match world.runs.get? (link, index) with
  | none => world
  | some run =>
    let stages := run.stages + 1
    let entered := { world with
      runs := world.runs.insert (link, index) { run with stage, stages } }
    match lasting with
    | none => entered
    | some 0 =>
      { entered with agenda := entered.agenda.postFirst (.stageOver link index stages) }
    | some delay => entered.plan delay (.stageOver link index stages)

def wakeStoppers (world : World) (link : LinkId) (index : Nat) : World :=
  let waiting := world.jobs.entries.filter fun entry =>
    match entry.2 with
    | .applying progress => progress.stopping.contains (link, index)
    | .stopping l i => l == link && i == index
    | _ => false
  waiting.foldl (fun world entry => world.wake entry.1) world

def endSupervisor (world : World) (link : LinkId) (index : Nat) : World :=
  (world.modifyLink link (·.supervisorEnded index)).wakeStoppers link index

/-- The run is over, by an end of its own or because it was told to stop. -/
def daemonEnded (world : World) (link : LinkId) (index : Nat) (outcome : DaemonOutcome) : World :=
  let settings := world.config.tunnel
  let delay := (RepairDelay.new settings.repairDelay settings.repairJitter).delayFor? world.sample
  let ended := world.changeLink link (·.daemonEnded index outcome delay)
  if ended.fleet.alive link index then
    match delay with
    | some wait => ended.enterStage link index .awaitingRelaunch (some wait.startedMillis)
    | none => ended
  else
    ended.wakeStoppers link index

def runLine (world : World) (link : LinkId) (index : Nat) (what : String) : String :=
  match world.fleet.get? link, world.runs.get? (link, index) with
  | some l, some run => s!"{what} {l.spec.host} {l.spec.origin} #{run.number}"
  | _, _ => what

def daemonStopped (world : World) (link : LinkId) (index : Nat) : World :=
  (world.writeLog (world.runLine link index "stopped")).daemonEnded link index .exited

/-- A daemon comes to the end that its script gives it. -/
def daemonFinished (world : World) (link : LinkId) (index : Nat) (ending : ScriptedEnd) : World :=
  let line := world.runLine link index "ended" ++ " " ++ ending.text
  (world.writeLog line).daemonEnded link index ending.outcome

def windDown (world : World) (link : LinkId) (index : Nat) (script : DaemonScript) : World :=
  if script.stop = 0 then
    world.daemonStopped link index
  else
    world.enterStage link index .windingDown (some script.stop)

/-- A daemon serves after it connected, or without having. -/
def serve (world : World) (link : LinkId) (index : Nat) (script : DaemonScript) : World :=
  match script.ending with
  | .run => world.enterStage link index .serving none
  | ending =>
    if script.after = 0 then
      world.daemonFinished link index ending
    else
      world.enterStage link index .serving (some script.after)

def connectLink (world : World) (link : LinkId) : World :=
  world.modifyLink link (·.connected)

def launchLine (link : Link) (number : Nat) : String :=
  let spec := link.spec
  let tags := ",".intercalate (spec.tags.map (·.text))
  s!"launch {spec.host} {spec.origin} #{number} cert={Text.toHex spec.certificate} "
    ++ s!"ha={toString spec.options.haConnections.toInt} tags={tags}"

/-- A supervisor launches the daemon, for the first time or again. A daemon that is told to stop by
then does not connect any more. -/
def launch (world : World) (link : LinkId) (index : Nat) : World :=
  match world.fleet.get? link with
  | none => world
  | some l =>
    let address := (l.spec.host, l.spec.origin)
    let launches := world.launches.count address
    let number := launches.getD address 0
    let script := DaemonScript.forRun (world.scripts.getD l.spec.host []) number
    let stages := ((world.runs.get? (link, index)).map (·.stages)).getD 0
    let run : DaemonRun := { script, number, stage := .connecting, stages }
    let launched := { world with launches, runs := world.runs.insert (link, index) run }
    let launched := (launched.modifyLink link (·.launched index)).writeLog (launchLine l number)
    let launched := match script.late with
      | none => launched
      | some delay => launched.post (.lateSignal link delay)
    if l.quitting index then
      launched.windDown link index script
    else
      match script.connect with
      | none => launched.serve link index script
      | some 0 => (launched.connectLink link).serve link index script
      | some delay => launched.enterStage link index .connecting (some delay)

/-- A turn of a supervisor: its first one, or the one after it was asked to quit. -/
def supervise (world : World) (link : LinkId) (index : Nat) : World :=
  match (world.fleet.get? link).bind (·.supervisor? index) with
  | none => world
  | some supervisor =>
    match supervisor.phase with
    | .spawned => world.launch link index
    | .ended => world
    | .delay => if supervisor.quit then world.endSupervisor link index else world
    | .daemon =>
      match world.runs.get? (link, index) with
      | none => world
      | some run =>
        if supervisor.quit && run.stage != .windingDown then
          world.windDown link index run.script
        else
          world

def stageOver (world : World) (link : LinkId) (index stage : Nat) : World :=
  match world.runs.get? (link, index) with
  | none => world
  | some run =>
    if run.stages ≠ stage || !world.fleet.alive link index then
      world
    else
      match run.stage with
      | .connecting => (world.connectLink link).serve link index run.script
      | .serving => world.daemonFinished link index run.script.ending
      | .windingDown => world.daemonStopped link index
      | .awaitingRelaunch => world.launch link index

/-- Supervisors that were asked to quit, or are new, have a turn. -/
def rouse (world : World) (supervisors : List (LinkId × Nat)) : World :=
  supervisors.foldl (fun world supervisor => world.post (.supervise supervisor.1 supervisor.2)) world

def startLink (world : World) (link : LinkId) : World :=
  let (fleet, spawned, seen) := world.fleet.start link
  ({ world with fleet }.record seen).rouse (spawned.map (link, ·)).toList

/-- Begins to stop a link; returns the supervisor that has to end for it. -/
def beginStop (world : World) (link : LinkId) : World × Option Nat :=
  let (fleet, taken) := world.fleet.beginStop link
  ({ world with fleet }.rouse (taken.map (link, ·)).toList, taken)

def endStop (world : World) (link : LinkId) : World :=
  let (fleet, seen) := world.fleet.endStop link
  { world with fleet }.record seen

end TunnelIngress.World
