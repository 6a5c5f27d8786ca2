import TunnelIngress.Rehearsal.Watching

/-!
Letting a world run: event after event until it comes to rest, and through time. Each run is bounded
by a number of events that no rehearsal reaches.
-/

namespace TunnelIngress.World

def consumerTurn (world : World) (n : Nat) : World :=
  let (world, answer) := world.askItem (.consumer n)
  match answer with
  | .nothing => world
  | answer => { world with consumed := world.consumed.insert n answer }

def happen (world : World) : Event → World
  | .turn .step => { world with stepWoken := true }
  | .turn (.background n) => (world.resume (.background n)).1
  | .turn (.worker pool n) => world.workerTurn pool n
  | .turn (.pool n) => world.poolTurn n
  | .turn (.consumer n) => world.consumerTurn n
  | .supervise link index => world.supervise link index
  | .stageOver link index stage => world.stageOver link index stage
  | .lateSignal link 0 => world.connectLink link
  | .lateSignal link delay => world.plan delay (.lateConnect link)
  | .lateConnect link => world.connectLink link
  | .delayAdd item delay => world.plan delay (.dueAdd item)
  | .dueAdd item => world.addItem item
  | .resyncBegin period => world.beginResync period
  | .resyncTick period due => world.resyncTick period due
  | .list kind => world.list kind

def eventLimit : Nat :=
  1000000

/-- Lets events happen until nothing more happens now. -/
def settleWithin (world : World) : Nat → World
  | 0 => world
  | fuel + 1 =>
    match world.agenda.next? with
    | none => world
    | some (event, agenda) => ({ world with agenda }.happen event).settleWithin fuel

def settle (world : World) : World :=
  world.settleWithin eventLimit

/-- Lets time pass up to a moment, with all that is due on the way. -/
def passToWithin (world : World) (time : Nat) : Nat → World
  | 0 => world
  | fuel + 1 =>
    let rested := world.settle
    match rested.agenda.nextDue? with
    | some due =>
      if due ≤ time then
        { rested with agenda := rested.agenda.passTo due }.passToWithin time fuel
      else
        { rested with agenda := rested.agenda.passTo time }
    | none => { rested with agenda := rested.agenda.passTo time }

def wait (world : World) (ms : Nat) : World :=
  (world.passToWithin (world.now + ms) eventLimit).settle

/-- Lets the world run until a condition holds at rest, through time if need be, but not to the given
moment. -/
def runUntilWithin (world : World) (holds : World → Bool) (limit : Nat) : Nat → World
  | 0 => world
  | fuel + 1 =>
    let rested := world.settle
    if holds rested then
      rested
    else
      match rested.agenda.nextDue? with
      | some due =>
        if due < limit then
          { rested with agenda := rested.agenda.passTo due }.runUntilWithin holds limit fuel
        else
          rested
      | none => rested

/-- The longest that a step waits, in milliseconds. -/
def patience : Nat :=
  3600000

def runUntil (world : World) (holds : World → Bool) : World :=
  world.runUntilWithin holds (world.now + patience) eventLimit

/-- Lets the step at hand carry on with its job whenever the world is at rest; the flag says whether
the job got done. -/
def finishStepWithin (world : World) (limit : Nat) : Nat → World × Bool
  | 0 => (world, false)
  | fuel + 1 =>
    let rested := world.runUntilWithin (·.stepWoken) limit eventLimit
    if rested.stepWoken then
      let (resumed, done) := { rested with stepWoken := false }.resume .step
      if done then (resumed, true) else resumed.finishStepWithin limit fuel
    else
      (rested, false)

/-- Lets the step at hand finish a job it has begun; a job that is done already needs no time. -/
def finishStep (begun : World × Bool) : World × Bool :=
  if begun.2 then begun else begun.1.finishStepWithin (begun.1.now + patience) eventLimit

end TunnelIngress.World
