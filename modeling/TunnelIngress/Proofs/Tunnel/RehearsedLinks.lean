import TunnelIngress.Proofs.Tunnel.RehearsedSupervisors

/-!
# Rehearsed links

In a rehearsal links are made, started and stopped while supervisors have their turns. If no signal of a
connection comes late, each link has lived event by event, so that all that holds of a link under every
order of its events holds of rehearsed links.
-/

namespace TunnelIngress

namespace World

open LinkSession (Runs Own)

variable {world later : World} {sessions : LinkId → Option LinkSession} {id : LinkId} {index : Nat}
  {session next : LinkSession} {delay : Option Duration}

/-- What happens to the links of a rehearsal, with what the stops of each link wait for beside it. All
else that happens leaves the links and the runs of their daemons alone. -/
inductive Happens (allowed : LinkSession → LinkEvent → Prop) (world : World)
    (stopping : LinkId → List Nat) : World → (LinkId → List Nat) → Prop where
  | aside (later : World) (fleet : later.fleet = world.fleet) (runs : later.runs = world.runs) :
      Happens allowed world stopping later stopping
  | made (later : World) (spec : LinkSpec) (fleet : later.fleet = (world.fleet.add spec).1)
      (runs : later.runs = world.runs) :
      Happens allowed world stopping later (Function.update stopping world.fleet.links.length [])
  | supervised (id : LinkId) (link : Link) (known : world.fleet.get? id = some link) (index : Nat)
      (may : ∀ session event, Own index world.repairDelay? session event → allowed session event) :
      Happens allowed world stopping (world.supervise id index) stopping
  | stageOver (id : LinkId) (link : Link) (known : world.fleet.get? id = some link) (index stages : Nat)
      (may : ∀ session event, Own index world.repairDelay? session event → allowed session event) :
      Happens allowed world stopping (world.stageOver id index stages) stopping
  | started (later : World) (id : LinkId) (link : Link) (known : world.fleet.get? id = some link)
      (fleet : later.fleet = (world.fleet.start id).1) (runs : later.runs = world.runs)
      (may : allowed ⟨link, stopping id, []⟩ .start) :
      Happens allowed world stopping later stopping
  | stops (later : World) (id : LinkId) (link : Link) (known : world.fleet.get? id = some link)
      (fleet : later.fleet = (world.fleet.beginStop id).1) (runs : later.runs = world.runs)
      (may : allowed ⟨link, stopping id, []⟩ .stop) :
      Happens allowed world stopping later
        (Function.update stopping id (stopping id ++ (world.fleet.beginStop id).2.toList))
  | stopped (later : World) (id : LinkId) (link : Link) (known : world.fleet.get? id = some link)
      (index : Nat) (waited : index ∈ stopping id) (ended : world.fleet.alive id index = false)
      (fleet : later.fleet = (world.fleet.endStop id).1) (runs : later.runs = world.runs)
      (may : allowed ⟨link, stopping id, []⟩ (.stopped index)) :
      Happens allowed world stopping later (Function.update stopping id ((stopping id).erase index))

variable {allowed : LinkSession → LinkEvent → Prop} {stopping stopping' : LinkId → List Nat}
  {link : Link}

/-- Where the delay after a failure can be computed, turns may come even if calls follow one another. -/
theorem happens_supervise (known : world.fleet.get? id = some link)
    (computed : world.repairDelay? ≠ none) (index : Nat) :
    Happens LinkSession.Serial world stopping (world.supervise id index) stopping :=
  .supervised id link known index fun _ _ own => own.serial computed

theorem happens_stageOver (known : world.fleet.get? id = some link)
    (computed : world.repairDelay? ≠ none) (index stages : Nat) :
    Happens LinkSession.Serial world stopping (world.stageOver id index stages) stopping :=
  .stageOver id link known index stages fun _ _ own => own.serial computed

theorem rouse_same (world : World) (supervisors : List (LinkId × Nat)) :
    (world.rouse supervisors).fleet = world.fleet ∧ (world.rouse supervisors).runs = world.runs := by
  unfold rouse
  induction supervisors generalizing world with
  | nil => exact ⟨rfl, rfl⟩
  | cons first rest ih => exact ih (world.post (.supervise first.1 first.2))

theorem happens_startLink (known : world.fleet.get? id = some link)
    (may : allowed ⟨link, stopping id, []⟩ .start) :
    Happens allowed world stopping (world.startLink id) stopping := by
  obtain ⟨fleet, runs⟩ := rouse_same
    (({ world with fleet := (world.fleet.start id).1 }).record (world.fleet.start id).2.2)
    ((world.fleet.start id).2.1.map (id, ·)).toList
  exact .started _ id link known fleet runs may

theorem happens_beginStop (known : world.fleet.get? id = some link)
    (may : allowed ⟨link, stopping id, []⟩ .stop) :
    Happens allowed world stopping (world.beginStop id).1
      (Function.update stopping id (stopping id ++ (world.beginStop id).2.toList)) := by
  obtain ⟨fleet, runs⟩ := rouse_same { world with fleet := (world.fleet.beginStop id).1 }
    ((world.fleet.beginStop id).2.map (id, ·)).toList
  exact .stops _ id link known fleet runs may

theorem happens_endStop (known : world.fleet.get? id = some link) (waited : index ∈ stopping id)
    (ended : world.fleet.alive id index = false) (may : allowed ⟨link, stopping id, []⟩ (.stopped index)) :
    Happens allowed world stopping (world.endStop id)
      (Function.update stopping id ((stopping id).erase index)) :=
  .stopped _ id link known index waited ended rfl rfl may

inductive Rehearses (config : ControllerConfig) (scripts : Table String (List DaemonScript))
    (resolver : SecretResolver) (allowed : LinkSession → LinkEvent → Prop) :
    World → (LinkId → List Nat) → Prop where
  | start : Rehearses config scripts resolver allowed (World.new config scripts resolver) fun _ => []
  | step {world later : World} {stopping stopping' : LinkId → List Nat}
      (before : Rehearses config scripts resolver allowed world stopping)
      (happens : Happens allowed world stopping later stopping') :
      Rehearses config scripts resolver allowed later stopping'

theorem stopping_of_own (runs : Runs (Own index delay) session events next) :
    next.stopping = session.stopping := by
  induction runs with
  | nil => rfl
  | snoc _ event own step ih =>
    obtain rfl | ⟨act, rfl, _⟩ := own
    · obtain ⟨_, rfl⟩ := LinkSession.step?_elapsed step
      exact ih
    · obtain ⟨_, _, _, rfl⟩ := LinkSession.step?_act step
      exact ih

/-- The links of a rehearsal are sessions that have come about event by event. -/
structure Lives (allowed : LinkSession → LinkEvent → Prop) (world : World) (stopping : LinkId → List Nat)
    (sessions : LinkId → Option LinkSession) : Prop where
  plays : world.Plays sessions
  lived : ∀ id session, sessions id = some session →
    session.stopping = stopping id ∧ ∃ spec events, Runs allowed (.new spec) events session

theorem Lives.found (lives : Lives allowed world stopping sessions)
    (known : world.fleet.get? id = some link) : ∃ spec events,
      sessions id = some ⟨link, stopping id, []⟩ ∧
        Runs allowed (.new spec) events ⟨link, stopping id, []⟩ := by
  rw [lives.plays.links id] at known
  obtain ⟨session, here, rfl⟩ := Option.map_eq_some_iff.1 known
  obtain ⟨waits, spec, events, runs⟩ := lives.lived id session here
  have same : session = ⟨session.link, stopping id, []⟩ := by
    rw [← waits, ← lives.plays.seen id session here]
  exact ⟨spec, events, here.trans (congrArg some same), same ▸ runs⟩

/-- One session goes on and the others stay. -/
theorem Lives.goes_on (lives : Lives allowed world stopping sessions)
    (plays : later.Plays (Function.update sessions id (some next))) {spec : LinkSpec}
    (runs : Runs allowed (.new spec) events next) (waits : next.stopping = stopping' id)
    (others : ∀ other, other ≠ id → stopping' other = stopping other) :
    Lives allowed later stopping' (Function.update sessions id (some next)) := by
  refine ⟨plays, fun other session there => ?_⟩
  by_cases same : other = id
  · subst same
    rw [Function.update_self, Option.some.injEq] at there
    subst there
    exact ⟨waits, spec, events, runs⟩
  · rw [Function.update_of_ne same] at there
    rw [others other same]
    exact lives.lived other session there

theorem Lives.acted (lives : Lives allowed world stopping sessions)
    (known : world.fleet.get? id = some link)
    (may : ∀ session event, Own index delay session event → allowed session event)
    (continues : sessions id = some ⟨link, stopping id, []⟩ →
      Continues sessions id index delay ⟨link, stopping id, []⟩ later) :
    ∃ sessions, Lives allowed later stopping sessions := by
  obtain ⟨spec, events, here, runs⟩ := lives.found known
  obtain ⟨more, next, acts, plays⟩ := continues here
  exact ⟨_, lives.goes_on plays (runs.trans (acts.mono may)) (stopping_of_own acts) fun _ _ => rfl⟩

theorem Lives.happens (lives : Lives allowed world stopping sessions)
    (happens : Happens allowed world stopping later stopping') :
    ∃ sessions, Lives allowed later stopping' sessions := by
  cases happens with
  | aside _ fleet runs => exact ⟨sessions, lives.plays.of_same fleet runs, lives.lived⟩
  | made _ spec fleet runs =>
    refine ⟨_, lives.goes_on (lives.plays.put rfl (fun other => ?_) (fun _ run _ hit => runs ▸ hit) ?_)
      (Runs.nil : Runs allowed (.new spec) [] _) ?_ fun other ne => Function.update_of_ne ne _ _⟩
    · exact fleet ▸ world.fleet.get?_add spec other
    · intro index run hit
      obtain ⟨session, _, here, _⟩ := lives.plays.runs _ run (runs ▸ hit)
      have absent := world.fleet.get?_fresh
      rw [lives.plays.found here] at absent
      cases absent
    · rw [Function.update_self]
      rfl
  | supervised id link known index may =>
    exact lives.acted known may fun here => lives.plays.supervise here index
  | stageOver id link known index stages may =>
    exact lives.acted known may fun here => lives.plays.stageOver here index stages
  | started _ id link known fleet same may =>
    obtain ⟨spec, events, here, runs⟩ := lives.found known
    obtain ⟨next, step, plays⟩ := lives.plays.start here fleet same
    cases step
    exact ⟨_, lives.goes_on plays (runs.snoc .start may rfl) rfl fun _ _ => rfl⟩
  | stops _ id link known fleet same may =>
    obtain ⟨spec, events, here, runs⟩ := lives.found known
    obtain ⟨next, step, plays, waits⟩ := lives.plays.beginStop here fleet same
    refine ⟨_, lives.goes_on plays (runs.snoc .stop may step) ?_ fun other ne => ?_⟩
    · rw [waits, Function.update_self]
    · exact Function.update_of_ne ne _ _
  | stopped _ id link known index waited ended fleet same may =>
    obtain ⟨spec, events, here, runs⟩ := lives.found known
    obtain ⟨next, step, plays⟩ := lives.plays.endStop here waited ended fleet same
    refine ⟨_, lives.goes_on plays (runs.snoc (.stopped index) may step) ?_ fun other ne => ?_⟩
    · obtain ⟨_, _, rfl⟩ := LinkSession.step?_stopped step
      rw [Function.update_self]
    · exact Function.update_of_ne ne _ _

variable {config : ControllerConfig} {scripts : Table String (List DaemonScript)}
  {resolver : SecretResolver}

/-- **A rehearsed link has lived event by event.** -/
theorem Rehearses.lived (rehearses : Rehearses config scripts resolver allowed world stopping)
    (known : world.fleet.get? id = some link) :
    ∃ spec events, Runs allowed (.new spec) events ⟨link, stopping id, []⟩ := by
  have lives : ∃ sessions, Lives allowed world stopping sessions := by
    clear known
    induction rehearses with
    | start =>
      refine ⟨fun _ => none, ⟨fun _ => rfl, ?_, ?_⟩, ?_⟩ <;> exact fun _ _ none => nomatch none
    | step _ happens ih =>
      obtain ⟨sessions, lives⟩ := ih
      exact lives.happens happens
  obtain ⟨sessions, lives⟩ := lives
  obtain ⟨spec, events, _, runs⟩ := lives.found known
  exact ⟨spec, events, runs⟩

/-- If calls follow one another, a rehearsed link has one live supervisor at most, and its state tells
where that one stands. -/
theorem Rehearses.lone
    (rehearses : Rehearses config scripts resolver LinkSession.Serial world stopping)
    (known : world.fleet.get? id = some link) : LinkSession.Lone ⟨link, stopping id, []⟩ := by
  obtain ⟨spec, events, runs⟩ := rehearses.lived known
  exact (LinkSession.lone_new spec).runs runs.apart

end World

end TunnelIngress
