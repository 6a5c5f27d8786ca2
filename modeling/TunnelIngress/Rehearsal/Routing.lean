import TunnelIngress.Rehearsal.Supervision

/-!
Changes to the routes by several actors, one at a time in the order they asked. A change holds the
lock until its links have stopped and started. The functions that carry an actor's job on return
whether the job is done.
-/

namespace TunnelIngress.World

def releaseLock (world : World) : World :=
  match world.lockLine with
  | [] => { world with lockHolder := none }
  | actor :: rest => { world with lockHolder := some actor, lockLine := rest }.wake actor

def finishJob (world : World) (actor : Actor) : World :=
  { world with jobs := world.jobs.erase actor }

def network (world : World) : Network :=
  { fleet := world.fleet, routes := world.routes }

def setNetwork (world : World) (network : Network) : World :=
  { world with fleet := network.fleet, routes := network.routes }

/-- Carries a change on that was waiting for supervisors, and lets go of the lock when it is done. -/
def applyOn (world : World) (actor : Actor) (progress : Mutation.Progress) : World × Bool :=
  let (network, progress, effects) := world.network.advance progress
  let world := ((world.setNetwork network).record effects.seen).rouse effects.roused
  if progress.isDone then
    ((world.finishJob actor).releaseLock, true)
  else
    ({ world with jobs := world.jobs.insert actor (.applying progress) }, false)

def execute (world : World) (actor : Actor) (mutation : Mutation) : World × Bool :=
  let (network, progress) := world.network.begin mutation
  ((world.setNetwork network).rouse progress.stopping).applyOn actor progress

/-- Asks for the lock and goes ahead if it is free. -/
def request (world : World) (actor : Actor) (mutation : Mutation) : World × Bool :=
  match world.lockHolder with
  | none => { world with lockHolder := some actor }.execute actor mutation
  | some _ =>
    ({ world with
        lockLine := world.lockLine ++ [actor]
        jobs := world.jobs.insert actor (.queued mutation) },
      false)

/-- Stops a link by itself, without a change to the routes. -/
def stopLink (world : World) (actor : Actor) (link : LinkId) : World × Bool :=
  let (world, taken) := world.beginStop link
  match taken with
  | none => (world, true)
  | some index =>
    if world.fleet.alive link index then
      ({ world with jobs := world.jobs.insert actor (.stopping link index) }, false)
    else
      (world.endStop link, true)

/-- Carries on with whatever job an actor has; an actor without one is done. -/
def resume (world : World) (actor : Actor) : World × Bool :=
  match world.jobs.get? actor with
  | none => (world, true)
  | some (.asking mutation) => (world.finishJob actor).request actor mutation
  | some (.askingStop link) => (world.finishJob actor).stopLink actor link
  | some .awaitingShutdown =>
    if world.shutdown then (world.finishJob actor).request actor .halt else (world, false)
  | some (.queued mutation) =>
    if world.lockHolder = some actor then world.execute actor mutation else (world, false)
  | some (.applying progress) => world.applyOn actor progress
  | some (.stopping link index) =>
    if world.fleet.alive link index then
      (world, false)
    else
      ((world.endStop link).finishJob actor, true)

end TunnelIngress.World
