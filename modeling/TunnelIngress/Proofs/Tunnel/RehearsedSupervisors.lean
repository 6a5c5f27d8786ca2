import TunnelIngress.Proofs.Tunnel.LinkLifecycle
import TunnelIngress.Rehearsal.Supervision
import Mathlib.Logic.Function.Basic

/-!
# Rehearsed supervisors

What a rehearsal does when a supervisor has a turn, when a stage of a scripted daemon is over, and when a
link is started or stopped, comes to events of that link and leaves all other links alone.
-/

namespace TunnelIngress

/-- Where a supervisor stands while a run of its daemon is at a stage. -/
def RunStage.phase : RunStage → SupervisorPhase
  | .connecting | .serving | .windingDown => .daemon
  | .awaitingRelaunch => .delay

namespace World

/-- The supervisor of a run, as long as it is alive, stands where the stage of the run says. -/
def Agrees (sessions : LinkId → Option LinkSession) (id : LinkId) (index : Nat) (stage : RunStage) : Prop :=
  ∃ session supervisor, sessions id = some session ∧ session.link.supervisor? index = some supervisor ∧
    (supervisor.alive = true → supervisor.phase = stage.phase)

/-- The links of a rehearsal as sessions. In a rehearsal a supervisor sees at once that its delay is over. -/
structure Plays (world : World) (sessions : LinkId → Option LinkSession) : Prop where
  links : ∀ id, world.fleet.get? id = (sessions id).map (·.link)
  seen : ∀ id session, sessions id = some session → session.elapsed = []
  runs : ∀ place run, world.runs.get? place = some run → Agrees sessions place.1 place.2 run.stage

def repairDelay? (world : World) : Option Duration :=
  (RepairDelay.new world.config.tunnel.repairDelay world.config.tunnel.repairJitter).delayFor? world.sample

end World

namespace LinkSession

/-- What one supervisor goes through, with the delay that the settings give. -/
def Own (index : Nat) (delay : Option Duration) (_ : LinkSession) (event : LinkEvent) : Prop :=
  event = .elapsed index ∨
    ∃ act, event = .act index act ∧ ∀ outcome wait, act = .ended outcome wait → wait = delay

theorem Own.serial {index : Nat} {delay : Option Duration} {session : LinkSession} {event : LinkEvent}
    (own : Own index delay session event) (computed : delay ≠ none) : session.Serial event := by
  obtain rfl | ⟨act, rfl, delays⟩ := own
  · exact ⟨fun call => by simp at call, by simp⟩
  refine ⟨fun call => by simp at call, fun other same => ?_⟩
  simp only [LinkEvent.act.injEq] at same
  exact computed (delays .failed none same.2).symm

end LinkSession

namespace World

open LinkSession (Runs Own)

variable {world later : World} {sessions : LinkId → Option LinkSession} {id : LinkId} {index : Nat}
  {session next : LinkSession} {supervisor : Supervisor} {stage : RunStage} {delay : Option Duration}

/-- From a session, acts of one of its supervisors lead to what a later world plays. -/
def Continues (sessions : LinkId → Option LinkSession) (id : LinkId) (index : Nat)
    (delay : Option Duration) (session : LinkSession) (later : World) : Prop :=
  ∃ events next, Runs (Own index delay) session events next ∧
    later.Plays (Function.update sessions id (some next))

theorem Continues.rest (here : sessions id = some session) (plays : later.Plays sessions) :
    Continues sessions id index delay session later := by
  refine ⟨[], session, .nil, ?_⟩
  rwa [← here, Function.update_eq_self]

/-- An act comes first. -/
theorem Continues.first {act : SupervisorAct} (seen : session.elapsed = [])
    (own : Own index delay session (.act index act))
    (found : session.link.supervisor? index = some supervisor) (may : supervisor.may false act = true)
    (goes_on : Continues (Function.update sessions id
        (some { session with link := session.link.act index act })) id index delay
      { session with link := session.link.act index act } later) :
    Continues sessions id index delay session later := by
  obtain ⟨events, next, runs, plays⟩ := goes_on
  have first : Runs (Own index delay) session ([] ++ [.act index act])
      { session with link := session.link.act index act } := by
    refine .snoc .nil _ own ?_
    simp [LinkSession.step?, found, seen, may]
  rw [Function.update_idem] at plays
  exact ⟨_, next, first.trans runs, plays⟩

/-- The delay is over, and the next daemon is launched. -/
theorem Continues.relaunched (seen : session.elapsed = [])
    (found : session.link.supervisor? index = some supervisor) (waits : supervisor.phase = .delay)
    (goes_on : Continues (Function.update sessions id
        (some { session with link := session.link.act index .launch })) id index delay
      { session with link := session.link.act index .launch } later) :
    Continues sessions id index delay session later := by
  obtain ⟨events, next, runs, plays⟩ := goes_on
  have elapsed : Runs (Own index delay) session ([] ++ [.elapsed index])
      { session with elapsed := index :: session.elapsed } := by
    refine .snoc .nil _ (.inl rfl) ?_
    simp [LinkSession.step?, Link.phase?, found, waits]
  have launched : Runs (Own index delay) session ([] ++ [.elapsed index] ++ [.act index .launch])
      { session with link := session.link.act index .launch } := by
    refine elapsed.snoc _ (.inr ⟨.launch, rfl, by simp⟩) ?_
    simp [LinkSession.step?, Supervisor.may, found, waits, seen]
  rw [Function.update_idem] at plays
  exact ⟨_, next, launched.trans runs, plays⟩

/-! ### What a world plays -/

theorem Plays.found (plays : world.Plays sessions) (here : sessions id = some session) :
    world.fleet.get? id = some session.link := by
  rw [plays.links id, here]
  rfl

theorem Plays.of_same (plays : world.Plays sessions) (fleet : later.fleet = world.fleet)
    (runs : later.runs = world.runs) : later.Plays sessions where
  links id := fleet ▸ plays.links id
  seen := plays.seen
  runs place run hit := plays.runs place run (runs ▸ hit)

theorem wake_same (world : World) (actor : Actor) :
    (world.wake actor).fleet = world.fleet ∧ (world.wake actor).runs = world.runs := by
  cases actor <;> exact ⟨rfl, rfl⟩

theorem wakeStoppers_same (world : World) (id : LinkId) (index : Nat) :
    (world.wakeStoppers id index).fleet = world.fleet ∧
      (world.wakeStoppers id index).runs = world.runs := by
  unfold wakeStoppers
  dsimp only
  generalize List.filter _ _ = waiting
  induction waiting generalizing world with
  | nil => exact ⟨rfl, rfl⟩
  | cons entry rest ih =>
    obtain ⟨fleet, runs⟩ := world.wake_same entry.1
    obtain ⟨fleet', runs'⟩ := ih (world.wake entry.1)
    exact ⟨fleet'.trans fleet, runs'.trans runs⟩

/-- One link changes, and the runs of its supervisors. -/
theorem Plays.put (plays : world.Plays sessions) (seen : next.elapsed = [])
    (fleet : ∀ other, later.fleet.get? other =
      if other = id then some next.link else world.fleet.get? other)
    (runs : ∀ place run, place.1 ≠ id → later.runs.get? place = some run →
      world.runs.get? place = some run)
    (own : ∀ index run, later.runs.get? (id, index) = some run →
      ∃ supervisor, next.link.supervisor? index = some supervisor ∧
        (supervisor.alive = true → supervisor.phase = run.stage.phase)) :
    later.Plays (Function.update sessions id (some next)) := by
  refine ⟨fun other => ?_, fun other session there => ?_, fun place run hit => ?_⟩
  · rw [fleet other, Function.update_apply]
    split
    · rfl
    · exact plays.links other
  · rw [Function.update_apply] at there
    split at there
    · cases there
      exact seen
    · exact plays.seen other session there
  · by_cases here : place.1 = id
    · obtain ⟨supervisor, found, stands⟩ := own place.2 run (by rwa [← here])
      exact ⟨next, supervisor, by rw [here, Function.update_self], found, stands⟩
    · obtain ⟨session, supervisor, there, rest⟩ := plays.runs place run (runs place run here hit)
      exact ⟨session, supervisor, (Function.update_of_ne here _ _).trans there, rest⟩

theorem Plays.own (plays : world.Plays sessions) (here : sessions id = some session) {run : DaemonRun}
    (hit : world.runs.get? (id, index) = some run) :
    ∃ supervisor, session.link.supervisor? index = some supervisor ∧
      (supervisor.alive = true → supervisor.phase = run.stage.phase) := by
  obtain ⟨same, supervisor, there, found, stands⟩ := plays.runs _ run hit
  obtain rfl : same = session := Option.some.inj (there.symm.trans here)
  exact ⟨supervisor, found, stands⟩

/-- A supervisor has acted, and its run is at a stage of what it has come to. -/
theorem Plays.acted (plays : world.Plays sessions) (here : sessions id = some session)
    (found : session.link.supervisor? index = some supervisor) {act : SupervisorAct}
    (fleet : ∀ other, later.fleet.get? other =
      if other = id then some (session.link.act index act) else world.fleet.get? other)
    (runs : ∀ place run, place ≠ (id, index) → later.runs.get? place = some run →
      world.runs.get? place = some run)
    (stands : ∀ run, later.runs.get? (id, index) = some run →
      (supervisor.after act).alive = true → (supervisor.after act).phase = run.stage.phase) :
    later.Plays (Function.update sessions id
      (some { session with link := session.link.act index act })) := by
  obtain ⟨_, _, supervisors⟩ := Link.act_spec found act
  refine plays.put (plays.seen id session here) fleet (fun place run ne => ?_) fun other run hit => ?_
  · exact runs place run fun same => ne (congrArg Prod.fst same)
  · by_cases same : other = index
    · subst same
      exact ⟨_, (supervisors other).trans (if_pos rfl), stands run hit⟩
    · have ne : (id, other) ≠ (id, index) := fun both => same (congrArg Prod.snd both)
      obtain ⟨old, there, agrees⟩ := plays.own here (runs (id, other) run ne hit)
      exact ⟨old, (supervisors other).trans ((if_neg same).trans there), agrees⟩

/-- An act that leaves the supervisor where it stands, or ends it, needs no new stage. -/
theorem Plays.acted_still (plays : world.Plays sessions) (here : sessions id = some session)
    (found : session.link.supervisor? index = some supervisor) {act : SupervisorAct}
    (fleet : ∀ other, later.fleet.get? other =
      if other = id then some (session.link.act index act) else world.fleet.get? other)
    (runs : later.runs = world.runs)
    (still : (supervisor.after act).alive = true → supervisor.after act = supervisor) :
    later.Plays (Function.update sessions id
      (some { session with link := session.link.act index act })) := by
  refine plays.acted here found fleet (fun place run _ hit => runs ▸ hit) fun run hit goes_on => ?_
  obtain ⟨same, there, agrees⟩ := plays.own here (runs ▸ hit)
  obtain rfl : same = supervisor := Option.some.inj (there.symm.trans found)
  have stays := still goes_on
  rw [stays] at goes_on ⊢
  exact agrees goes_on

theorem get?_modifyLink (plays : world.Plays sessions) (here : sessions id = some session)
    (change : Link → Link) (other : LinkId) : (world.modifyLink id change).fleet.get? other =
      if other = id then some (change session.link) else world.fleet.get? other := by
  refine (Fleet.get?_modify change).trans ?_
  rw [plays.found here]
  rfl

theorem enterStage_spec (world : World) (id : LinkId) (index : Nat) (stage : RunStage)
    (lasting : Option Nat) : (world.enterStage id index stage lasting).fleet = world.fleet ∧
      (∀ place, place ≠ (id, index) →
        (world.enterStage id index stage lasting).runs.get? place = world.runs.get? place) ∧
      ∀ run, (world.enterStage id index stage lasting).runs.get? (id, index) = some run →
        run.stage = stage := by
  unfold enterStage
  cases hit : world.runs.get? (id, index) with
  | none => exact ⟨rfl, fun _ _ => rfl, fun run found => nomatch hit.symm.trans found⟩
  | some run =>
    have inserted (place : LinkId × Nat) : (world.runs.insert (id, index)
        { run with stage, stages := run.stages + 1 }).get? place = if place = (id, index) then
          some { run with stage, stages := run.stages + 1 } else world.runs.get? place :=
      Table.get?_insert ..
    have entered (found : DaemonRun) (here : (world.runs.insert (id, index)
        { run with stage, stages := run.stages + 1 }).get? (id, index) = some found) :
        found.stage = stage := by
      rw [inserted, if_pos rfl, Option.some.injEq] at here
      rw [← here]
    cases lasting with
    | none => exact ⟨rfl, fun place ne => (inserted place).trans (if_neg ne), entered⟩
    | some time =>
      cases time with
      | zero => exact ⟨rfl, fun place ne => (inserted place).trans (if_neg ne), entered⟩
      | succ _ => exact ⟨rfl, fun place ne => (inserted place).trans (if_neg ne), entered⟩

theorem Plays.enterStage (plays : world.Plays sessions) (here : sessions id = some session)
    (found : session.link.supervisor? index = some supervisor) (stage : RunStage)
    (stands : supervisor.phase = stage.phase) (lasting : Option Nat) :
    (world.enterStage id index stage lasting).Plays sessions := by
  obtain ⟨fleet, others, entered⟩ := world.enterStage_spec id index stage lasting
  refine ⟨fun other => fleet ▸ plays.links other, plays.seen, fun place run hit => ?_⟩
  by_cases same : place = (id, index)
  · subst same
    exact ⟨session, supervisor, here, found, fun _ => stands.trans (by rw [entered run hit])⟩
  · exact plays.runs place run ((others place same).symm.trans hit)

/-! ### What becomes of a daemon -/

theorem Plays.daemonEnded (plays : world.Plays sessions) (here : sessions id = some session)
    (found : session.link.supervisor? index = some supervisor) (serves : supervisor.phase = .daemon)
    (outcome : DaemonOutcome) :
    Continues sessions id index world.repairDelay? session (world.daemonEnded id index outcome) := by
  let act := SupervisorAct.ended outcome world.repairDelay?
  have may : supervisor.may false act = true := by simp [act, Supervisor.may, serves]
  have own : Own index world.repairDelay? session (.act index act) :=
    .inr ⟨act, rfl, fun _ _ same => (SupervisorAct.ended.inj same).2.symm⟩
  have later := (Link.act_spec found act).2.2 index
  rw [if_pos rfl] at later
  have seen := plays.seen id session here
  refine Continues.first seen own found may (.rest (Function.update_self _ _ _) ?_)
  let ended := world.changeLink id (·.daemonEnded index outcome world.repairDelay?)
  have fleet (other : LinkId) : ended.fleet.get? other =
      if other = id then some (session.link.act index act) else world.fleet.get? other := by
    simp only [ended, changeLink, plays.found here]
    exact get?_modifyLink plays here _ other
  have runs : ended.runs = world.runs := by
    simp only [ended, changeLink, plays.found here]
    rfl
  have alive : ended.fleet.alive id index = (supervisor.after act).alive := by
    simp [Fleet.alive, fleet, Link.alive, later]
  unfold World.daemonEnded
  dsimp only
  split
  · rename_i alive'
    obtain ⟨_, _, ⟨_, computed⟩, waits⟩ := Supervisor.goes_on_after (alive.symm.trans alive')
    split
    · rename_i time _
      obtain ⟨same, others, entered⟩ :=
        ended.enterStage_spec id index .awaitingRelaunch (some time.startedMillis)
      refine plays.acted here found (fun other => same ▸ fleet other) (fun place run ne hit => ?_) ?_
      · rw [← runs]
        exact (others place ne).symm.trans hit
      · intro run hit _
        rw [entered run hit]
        exact waits
    · rename_i none
      cases computed.symm.trans none
  · rename_i gone
    obtain ⟨same, same'⟩ := ended.wakeStoppers_same id index
    exact plays.acted_still here found (fun other => same ▸ fleet other) (same'.trans runs)
      fun goes_on => absurd (alive.trans goes_on) gone

theorem Plays.writeLog (plays : world.Plays sessions) (line : String) :
    (world.writeLog line).Plays sessions :=
  plays.of_same rfl rfl

theorem Plays.windDown (plays : world.Plays sessions) (here : sessions id = some session)
    (found : session.link.supervisor? index = some supervisor) (serves : supervisor.phase = .daemon)
    (script : DaemonScript) :
    Continues sessions id index world.repairDelay? session (world.windDown id index script) := by
  unfold World.windDown
  split
  · exact (plays.writeLog _).daemonEnded here found serves .exited
  · exact .rest here (plays.enterStage here found .windingDown serves _)

theorem Plays.serve (plays : world.Plays sessions) (here : sessions id = some session)
    (found : session.link.supervisor? index = some supervisor) (serves : supervisor.phase = .daemon)
    (script : DaemonScript) :
    Continues sessions id index world.repairDelay? session (world.serve id index script) := by
  unfold World.serve
  split
  · exact .rest here (plays.enterStage here found .serving serves _)
  · split
    · exact (plays.writeLog _).daemonEnded here found serves _
    · exact .rest here (plays.enterStage here found .serving serves _)

/-- A daemon that connects serves from then on. -/
theorem Plays.connect (plays : world.Plays sessions) (here : sessions id = some session)
    (found : session.link.supervisor? index = some supervisor) (serves : supervisor.phase = .daemon)
    (script : DaemonScript) :
    Continues sessions id index world.repairDelay? session
      ((world.connectLink id).serve id index script) := by
  have may : supervisor.may false .connect = true := by simp [Supervisor.may, serves]
  refine .first (plays.seen id session here) (.inr ⟨.connect, rfl, by simp⟩) found may ?_
  have connected : (world.connectLink id).Plays (Function.update sessions id
      (some { session with link := session.link.act index .connect })) :=
    plays.acted_still here found (get?_modifyLink plays here (·.connected)) rfl fun _ => rfl
  have still := ((Link.act_spec found .connect).2.2 index).trans (if_pos rfl)
  exact connected.serve (Function.update_self _ _ _) still serves script

/-- A daemon that was launched winds down if its supervisor is to quit, and connects and serves if not. -/
theorem Plays.launched (plays : world.Plays sessions) (here : sessions id = some session)
    (found : session.link.supervisor? index = some supervisor) (serves : supervisor.phase = .daemon)
    (script : DaemonScript) (delays : world.repairDelay? = delay) :
    Continues sessions id index delay session
      (if session.link.quitting index then
        world.windDown id index script
      else
        match script.connect with
        | none => world.serve id index script
        | some 0 => (world.connectLink id).serve id index script
        | some delay => world.enterStage id index .connecting (some delay)) := by
  subst delays
  split
  · exact plays.windDown here found serves script
  · split
    · exact plays.serve here found serves script
    · exact plays.connect here found serves script
    · exact .rest here (plays.enterStage here found .connecting serves _)

theorem Plays.launch (plays : world.Plays sessions) (here : sessions id = some session)
    (found : session.link.supervisor? index = some supervisor)
    (waits : supervisor.phase = .spawned ∨ supervisor.phase = .delay) :
    Continues sessions id index world.repairDelay? session (world.launch id index) := by
  have seen := plays.seen id session here
  suffices goes_on : Continues (Function.update sessions id
      (some { session with link := session.link.act index .launch })) id index world.repairDelay?
      { session with link := session.link.act index .launch } (world.launch id index) by
    rcases waits with new | waits
    · have may : supervisor.may false .launch = true := by simp [Supervisor.may, new]
      exact .first seen (.inr ⟨.launch, rfl, by simp⟩) found may goes_on
    · exact .relaunched seen found waits goes_on
  have launched := (Link.act_spec found .launch).2.2 index
  rw [if_pos rfl] at launched
  have asked : (session.link.act index .launch).quitting index = session.link.quitting index := by
    simp [Link.quitting, launched, found, Supervisor.after]
  -- The line in the log and the late signal do not matter to the links.
  have begun (begun : World)
      (fleet : begun.fleet = (world.modifyLink id (·.launched index)).fleet)
      (runs : ∃ run, begun.runs = world.runs.insert (id, index) run ∧ run.stage = .connecting) :
      begun.Plays (Function.update sessions id
        (some { session with link := session.link.act index .launch })) := by
    obtain ⟨run, runs, connecting⟩ := runs
    refine plays.acted here found (fun other => fleet ▸ get?_modifyLink plays here _ other) ?_ ?_
    · intro place run ne hit
      rwa [runs, Table.get?_insert, if_neg ne] at hit
    · intro run hit _
      rw [runs, Table.get?_insert, if_pos rfl, Option.some.injEq] at hit
      rw [← hit, connecting]
      rfl
  unfold World.launch
  rw [plays.found here]
  dsimp only
  rw [← asked]
  generalize late : DaemonScript.late _ = signal
  cases signal with
  | none =>
    refine Plays.launched (begun _ ?_ ?_) (Function.update_self _ _ _) launched rfl _ rfl
    · rfl
    · exact ⟨_, rfl, rfl⟩
  | some delay =>
    refine Plays.launched (begun _ ?_ ?_) (Function.update_self _ _ _) launched rfl _ rfl
    · rfl
    · exact ⟨_, rfl, rfl⟩

/-! ### Turns -/

/-- **A turn of a supervisor consists of acts of its.** -/
theorem Plays.supervise (plays : world.Plays sessions) (here : sessions id = some session) (index : Nat) :
    Continues sessions id index world.repairDelay? session (world.supervise id index) := by
  unfold World.supervise
  rw [plays.found here, Option.bind_some]
  cases found : session.link.supervisor? index with
  | none => exact .rest here plays
  | some supervisor =>
    dsimp only
    cases phase : supervisor.phase with
    | spawned => exact plays.launch here found (.inl phase)
    | ended => exact .rest here plays
    | delay =>
      dsimp only
      split
      · rename_i asked
        have may : supervisor.may false .quit = true := by simp [Supervisor.may, phase, asked]
        refine .first (plays.seen id session here) (.inr ⟨.quit, rfl, by simp⟩) found may
          (.rest (Function.update_self _ _ _) ?_)
        obtain ⟨fleet, runs⟩ := (world.modifyLink id (·.supervisorEnded index)).wakeStoppers_same id index
        refine plays.acted_still here found (fun other => ?_) runs fun goes_on => by cases goes_on
        exact (congrArg (Fleet.get? · other) fleet).trans (get?_modifyLink plays here _ other)
      · exact .rest here plays
    | daemon =>
      dsimp only
      cases world.runs.get? (id, index) with
      | none => exact .rest here plays
      | some run =>
        dsimp only
        split
        · exact plays.windDown here found phase run.script
        · exact .rest here plays

/-- **The end of a stage comes to acts of the supervisor of the run.** -/
theorem Plays.stageOver (plays : world.Plays sessions) (here : sessions id = some session)
    (index stages : Nat) :
    Continues sessions id index world.repairDelay? session (world.stageOver id index stages) := by
  unfold World.stageOver
  cases hit : world.runs.get? (id, index) with
  | none => exact .rest here plays
  | some run =>
    dsimp only
    split
    · exact .rest here plays
    · rename_i current
      simp only [ne_eq, Bool.or_eq_true, decide_eq_true_eq, Bool.not_eq_eq_eq_not, Bool.not_true,
        not_or, Decidable.not_not, Bool.not_eq_false] at current
      obtain ⟨supervisor, found, stands⟩ := plays.own here hit
      have alive : session.link.alive index = true := by
        simpa [Fleet.alive, plays.found here] using current.2
      obtain ⟨same, there, goes_on⟩ := Link.alive_iff.1 alive
      obtain rfl : same = supervisor := Option.some.inj (there.symm.trans found)
      have phase := stands goes_on
      cases stage : run.stage with
      | connecting => exact plays.connect here found (by rw [phase, stage]; rfl) run.script
      | serving =>
        exact (plays.writeLog _).daemonEnded here found (by rw [phase, stage]; rfl) _
      | windingDown =>
        exact (plays.writeLog _).daemonEnded here found (by rw [phase, stage]; rfl) .exited
      | awaitingRelaunch => exact plays.launch here found (.inr (by rw [phase, stage]; rfl))

/-! ### Calls -/

/-- What a call leaves of the supervisors. -/
theorem Plays.called (plays : world.Plays sessions) (here : sessions id = some session)
    (fleet : ∀ other, later.fleet.get? other =
      if other = id then some next.link else world.fleet.get? other)
    (runs : later.runs = world.runs) (same : next.elapsed = session.elapsed)
    (kept : ∀ index supervisor, session.link.supervisor? index = some supervisor →
      ∃ same, next.link.supervisor? index = some same ∧ same.phase = supervisor.phase) :
    later.Plays (Function.update sessions id (some next)) := by
  refine plays.put (same.trans (plays.seen id session here)) fleet (fun place run _ hit => runs ▸ hit)
    fun index run hit => ?_
  obtain ⟨supervisor, found, stands⟩ := plays.own here (runs ▸ hit)
  obtain ⟨same, found', phase⟩ := kept index supervisor found
  refine ⟨same, found', fun goes_on => phase.trans (stands ?_)⟩
  simpa [Supervisor.alive, phase] using goes_on

theorem Plays.start (plays : world.Plays sessions) (here : sessions id = some session)
    (fleet : later.fleet = (world.fleet.start id).1) (runs : later.runs = world.runs) :
    ∃ next, session.step? .start = some next ∧
      later.Plays (Function.update sessions id (some next)) := by
  refine ⟨_, rfl, plays.called here (fun other => ?_) runs rfl fun index supervisor found => ?_⟩
  · rw [fleet, Fleet.start, plays.found here]
    exact Fleet.get?_put (plays.found here) _
  · refine ⟨supervisor, ?_, rfl⟩
    cases started : session.link.isStarted with
    | true => rw [Link.start_of_started started, found]
    | false =>
      have old := Nat.ne_of_lt (Link.lt_of_found found)
      exact ((Link.start_spec started).2.2 index).trans ((if_neg old).trans found)

theorem Plays.beginStop (plays : world.Plays sessions) (here : sessions id = some session)
    (fleet : later.fleet = (world.fleet.beginStop id).1) (runs : later.runs = world.runs) :
    ∃ next, session.step? .stop = some next ∧
      later.Plays (Function.update sessions id (some next)) ∧
      next.stopping = session.stopping ++ (world.fleet.beginStop id).2.toList := by
  have stop : world.fleet.beginStop id =
      (world.fleet.modify id fun _ => session.link.beginStop.1, session.link.beginStop.2) := by
    rw [Fleet.beginStop, plays.found here]
  rw [stop] at fleet ⊢
  refine ⟨_, rfl, plays.called here (fun other => ?_) runs rfl fun index supervisor found => ?_, rfl⟩
  · rw [fleet]
    exact Fleet.get?_put (plays.found here) _
  · have asked := session.link.stop_spec.2 index
    rw [found] at asked
    split at asked
    · exact ⟨_, asked, rfl⟩
    · exact ⟨supervisor, asked, rfl⟩

theorem Plays.endStop (plays : world.Plays sessions) (here : sessions id = some session)
    (waited : index ∈ session.stopping) (ended : world.fleet.alive id index = false)
    (fleet : later.fleet = (world.fleet.endStop id).1) (runs : later.runs = world.runs) :
    ∃ next, session.step? (.stopped index) = some next ∧
      later.Plays (Function.update sessions id (some next)) := by
  have gone : session.link.alive index = false := by
    simpa [Fleet.alive, plays.found here] using ended
  refine ⟨_, if_pos ⟨waited, gone⟩, plays.called here (fun other => ?_) runs rfl
    fun index supervisor found => ⟨supervisor, found, rfl⟩⟩
  rw [fleet, Fleet.endStop, plays.found here]
  exact Fleet.get?_put (plays.found here) _

end World

end TunnelIngress
