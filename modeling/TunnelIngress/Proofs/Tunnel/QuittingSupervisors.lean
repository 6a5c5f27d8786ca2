import TunnelIngress.Proofs.Tunnel.LinkLifecycle

/-!
# A supervisor that was asked to quit

A supervisor looks whether it was asked to quit when a daemon is over and while it waits to launch the
next, not when it launches one. So one that has not had its first turn still launches its daemon, one
whose delay runs does not, and none launches two. A link comes to running only from starting and with a
daemon in flight, so the launches and starts that are left bound how often it still does.
-/

namespace TunnelIngress

/-- The launches that a supervisor has ahead of it once it is asked to quit. -/
def Supervisor.ahead (supervisor : Supervisor) : Nat :=
  if supervisor.phase = .spawned ∨ supervisor.phase = .delay then 1 else 0

theorem Supervisor.ahead_le_one (supervisor : Supervisor) : supervisor.ahead ≤ 1 := by
  unfold ahead
  split <;> decide

def LinkEvent.launches : LinkEvent → Bool
  | .act _ .launch => true
  | _ => false

namespace Link

variable {link other : Link} {index : Nat}

/-- Whether the link comes to running if a daemon in flight reports its connection now. -/
def awaiting (link : Link) : Nat :=
  if link.state = .starting ∧ ∃ supervisor ∈ link.supervisors, supervisor.phase = .daemon then 1 else 0

theorem serves_iff :
    (∃ supervisor ∈ link.supervisors, supervisor.phase = .daemon) ↔
      ∃ index, link.phase? index = some .daemon := by
  simp only [phase?, supervisor?, Option.map_eq_some_iff, List.mem_iff_getElem?]
  constructor
  · rintro ⟨supervisor, ⟨index, found⟩, serves⟩
    exact ⟨index, supervisor, found, serves⟩
  · rintro ⟨index, supervisor, found, serves⟩
    exact ⟨supervisor, ⟨index, found⟩, serves⟩

theorem awaiting_le_one (link : Link) : link.awaiting ≤ 1 := by
  unfold awaiting
  split <;> decide

theorem awaiting_of_ne (state : link.state ≠ .starting) : link.awaiting = 0 :=
  if_neg fun awaits => state awaits.1

theorem awaiting_of_idle (idle : ∀ index, link.phase? index ≠ some .daemon) : link.awaiting = 0 :=
  if_neg fun awaits => (serves_iff.1 awaits.2).elim idle

theorem awaiting_of_serves (state : link.state = .starting) (serves : link.phase? index = some .daemon) :
    link.awaiting = 1 :=
  if_pos ⟨state, serves_iff.2 ⟨index, serves⟩⟩

theorem awaiting_congr (state : other.state = link.state)
    (phases : ∀ index, other.phase? index = link.phase? index) : other.awaiting = link.awaiting := by
  refine if_congr (and_congr (by rw [state]) ?_) rfl rfl
  simp only [serves_iff, phases]

theorem phase?_beginStop (link : Link) (index : Nat) :
    link.beginStop.1.phase? index = link.phase? index := by
  rw [phase?, link.stop_spec.2 index]
  split
  · rw [Option.map_map]
    rfl
  · rfl

end Link

namespace LinkSession

variable {allowed : LinkSession → LinkEvent → Prop} {first session middle later : LinkSession}
  {before events : List LinkEvent} {event : LinkEvent} {index : Nat} {act : SupervisorAct}
  {spec : LinkSpec} {supervisor : Supervisor}

theorem ahead_after {elapsed : Bool} (asked : supervisor.quit = true)
    (may : supervisor.may elapsed act = true) :
    [act].count .launch + (supervisor.after act).ahead ≤ supervisor.ahead := by
  cases act with
  | launch =>
    have one : supervisor.ahead = 1 := if_pos (Supervisor.waits_of_may may)
    rw [one]
    exact Nat.le_refl 1
  | connect => exact Nat.le_of_eq (Nat.zero_add _)
  | quit => exact Nat.zero_le _
  | ended outcome delay =>
    have last : (supervisor.after (.ended outcome delay)).ahead = 0 := by
      rw [Supervisor.after_ended_of_quit asked]
      rfl
    rw [last]
    exact Nat.zero_le _

/-- Nothing but an act of its own changes where a supervisor stands that was asked to quit. -/
theorem quit_step (step : session.step? event = some later)
    (found : session.link.supervisor? index = some supervisor) (asked : supervisor.quit = true) :
    ∃ next, later.link.supervisor? index = some next ∧ next.quit = true ∧
      ((∃ act, event = .act index act ∧ supervisor.may (session.elapsed.contains index) act = true ∧
          next = supervisor.after act) ∨
        (∀ act, event ≠ .act index act) ∧ next.phase = supervisor.phase) := by
  cases event with
  | start =>
    cases step
    refine ⟨supervisor, ?_, asked, .inr ⟨nofun, rfl⟩⟩
    cases started : session.link.isStarted with
    | true => rw [Link.start_of_started started, found]
    | false =>
      have old := Nat.ne_of_lt (Link.lt_of_found found)
      exact ((Link.start_spec started).2.2 index).trans (by rw [if_neg old, found])
  | stop =>
    cases step
    have here := session.link.stop_spec.2 index
    rw [found] at here
    split at here
    · exact ⟨_, here, rfl, .inr ⟨nofun, rfl⟩⟩
    · exact ⟨supervisor, here, asked, .inr ⟨nofun, rfl⟩⟩
  | stopped other =>
    obtain ⟨_, _, rfl⟩ := step?_stopped step
    exact ⟨supervisor, found, asked, .inr ⟨nofun, rfl⟩⟩
  | elapsed other =>
    obtain ⟨_, rfl⟩ := step?_elapsed step
    exact ⟨supervisor, found, asked, .inr ⟨nofun, rfl⟩⟩
  | act other act =>
    obtain ⟨actor, there, may, rfl⟩ := step?_act step
    have here := (Link.act_spec there act).2.2 index
    split at here
    · rename_i same
      subst same
      obtain rfl : actor = supervisor := Option.some.inj (there.symm.trans found)
      exact ⟨_, here, (actor.quit_after act).trans asked, .inl ⟨act, rfl, may, rfl⟩⟩
    · rename_i ne
      refine ⟨supervisor, here.trans found, asked, .inr ⟨fun act same => ne ?_, rfl⟩⟩
      exact (LinkEvent.act.inj same).1.symm

/-- Once a supervisor was asked to quit, each launch uses up one that it had ahead of it. -/
theorem ahead_step (step : session.step? event = some later)
    (found : session.link.supervisor? index = some supervisor) (asked : supervisor.quit = true) :
    ∃ next, later.link.supervisor? index = some next ∧ next.quit = true ∧
      [event].count (.act index .launch) + next.ahead ≤ supervisor.ahead := by
  obtain ⟨next, here, asks, ⟨act, rfl, may, rfl⟩ | ⟨other, phase⟩⟩ := quit_step step found asked
  · refine ⟨_, here, asks, ?_⟩
    have used := ahead_after asked may
    have counted : [LinkEvent.act index act].count (.act index .launch) = [act].count .launch := by
      simp [List.count_singleton]
    omega
  · refine ⟨next, here, asks, ?_⟩
    have same : next.ahead = supervisor.ahead := by rw [Supervisor.ahead, Supervisor.ahead, phase]
    simp [other .launch, same]

theorem ahead_runs (runs : Runs allowed first events later)
    (found : first.link.supervisor? index = some supervisor) (asked : supervisor.quit = true) :
    ∃ next, later.link.supervisor? index = some next ∧ next.quit = true ∧
      events.count (.act index .launch) + next.ahead ≤ supervisor.ahead := by
  induction runs with
  | nil => exact ⟨supervisor, found, asked, by simp⟩
  | snoc _ event _ step ih =>
    obtain ⟨between, found, asked, spent⟩ := ih
    obtain ⟨next, found, asked, spent'⟩ := ahead_step step found asked
    refine ⟨next, found, asked, ?_⟩
    rw [List.count_append]
    omega

/-- A supervisor was asked to quit, and it waits for a delay that still runs, or has ended. -/
def Abandons (session : LinkSession) (index : Nat) : Prop :=
  index ∉ session.elapsed ∧ ∃ supervisor, session.link.supervisor? index = some supervisor ∧
    supervisor.quit = true ∧ (supervisor.phase = .delay ∨ supervisor.phase = .ended)

theorem elapsed_step (step : session.step? event = some later) (early : index ∉ session.elapsed)
    (runs_on : event ≠ .elapsed index) : index ∉ later.elapsed := by
  cases event with
  | start | stop =>
    cases step
    exact early
  | stopped other =>
    obtain ⟨_, _, rfl⟩ := step?_stopped step
    exact early
  | elapsed other =>
    obtain ⟨_, rfl⟩ := step?_elapsed step
    rw [List.mem_cons, not_or]
    exact ⟨fun same => runs_on (congrArg LinkEvent.elapsed same.symm), early⟩
  | act other act =>
    obtain ⟨_, _, _, rfl⟩ := step?_act step
    exact fun mem => early (List.mem_filter.1 mem).1

theorem Abandons.step (abandons : session.Abandons index) (step : session.step? event = some later)
    (runs_on : event ≠ .elapsed index) : event ≠ .act index .launch ∧ later.Abandons index := by
  obtain ⟨early, supervisor, found, asked, waits⟩ := abandons
  have early' := elapsed_step step early runs_on
  obtain ⟨next, here, asks, ⟨act, rfl, may, rfl⟩ | ⟨other, phase⟩⟩ := quit_step step found asked
  · cases act with
    | launch => rcases waits with waits | waits <;> simp [Supervisor.may, waits, early] at may
    | connect => rcases waits with waits | waits <;> simp [Supervisor.may, waits] at may
    | ended outcome delay => rcases waits with waits | waits <;> simp [Supervisor.may, waits] at may
    | quit => exact ⟨by simp, early', _, here, asks, .inr rfl⟩
  · exact ⟨other .launch, early', next, here, asks, phase ▸ waits⟩

theorem Abandons.runs (abandons : first.Abandons index) (runs : Runs allowed first events later)
    (runs_on : .elapsed index ∉ events) : .act index .launch ∉ events ∧ later.Abandons index := by
  induction runs with
  | nil => exact ⟨List.not_mem_nil, abandons⟩
  | snoc _ event _ step ih =>
    rw [List.mem_append, not_or, List.mem_singleton] at runs_on
    obtain ⟨none, abandons⟩ := ih runs_on.1
    obtain ⟨other, abandons⟩ := abandons.step step (Ne.symm runs_on.2)
    refine ⟨?_, abandons⟩
    rw [List.mem_append, not_or, List.mem_singleton]
    exact ⟨none, Ne.symm other⟩

/-- A supervisor that was asked to quit gets over its first turn only by a launch. -/
theorem spawned_runs (runs : Runs allowed first events later)
    (found : first.link.supervisor? index = some supervisor) (asked : supervisor.quit = true)
    (new : supervisor.phase = .spawned) : ∃ next, later.link.supervisor? index = some next ∧
      next.quit = true ∧ (next.phase = .spawned ∨ .act index .launch ∈ events) := by
  induction runs with
  | nil => exact ⟨supervisor, found, asked, .inl new⟩
  | snoc _ event _ step ih =>
    obtain ⟨between, found, asked, waits | launched⟩ := ih
    · obtain ⟨next, here, asks, ⟨act, rfl, may, rfl⟩ | ⟨_, phase⟩⟩ := quit_step step found asked
      · cases act with
        | launch => exact ⟨_, here, asks, .inr (List.mem_append_right _ (List.mem_singleton_self _))⟩
        | connect | ended | quit => simp [Supervisor.may, waits] at may
      · exact ⟨next, here, asks, .inl (phase.trans waits)⟩
    · obtain ⟨next, here, asks, _⟩ := quit_step step found asked
      exact ⟨next, here, asks, .inr (List.mem_append_left _ launched)⟩

/-- Where a supervisor stands when it was asked to quit says how often it still launches. -/
theorem launches_asked (runs : Runs allowed first events later)
    (found : first.link.supervisor? index = some supervisor) (asked : supervisor.quit = true) :
    events.count (.act index .launch) ≤ 1 ∧
    (supervisor.phase = .daemon ∨ supervisor.phase = .ended → events.count (.act index .launch) = 0) ∧
    (supervisor.phase = .spawned → events.count (.act index .launch) =
      if later.link.phase? index = some .spawned then 0 else 1) := by
  obtain ⟨next, here, _, spent⟩ := ahead_runs runs found asked
  have most := supervisor.ahead_le_one
  refine ⟨by omega, fun phase => ?_, fun phase => ?_⟩
  · have none : supervisor.ahead = 0 := by rcases phase with same | same <;> simp [Supervisor.ahead, same]
    omega
  · obtain ⟨last, there, _, new⟩ := spawned_runs runs found asked phase
    obtain rfl : last = next := Option.some.inj (there.symm.trans here)
    rw [Link.phase?, here, Option.map_some]
    split
    · rename_i waits
      have one : last.ahead = 1 := if_pos (.inl (Option.some.inj waits))
      omega
    · rename_i gone
      have launched := List.count_pos_iff.2 (new.resolve_left fun waits => gone (congrArg some waits))
      omega

theorem ends_asked {outcome : DaemonOutcome} {delay : Option Duration}
    (found : session.link.supervisor? index = some supervisor) (asked : supervisor.quit = true)
    (step : session.step? (.act index (.ended outcome delay)) = some later) :
    later.link.alive index = false := by
  obtain ⟨actor, there, _, rfl⟩ := step?_act step
  obtain rfl : actor = supervisor := Option.some.inj (there.symm.trans found)
  have ended := (Link.act_spec there (.ended outcome delay)).2.2 index
  rw [if_pos rfl, Supervisor.after_ended_of_quit asked] at ended
  simp only [Link.alive, ended]
  rfl

/-! ### How often the link comes to running -/

/-- What an event does to the state. It comes to starting by a start or a launch, and to running from
there, while a daemon is in flight. -/
inductive StateStep (session : LinkSession) (event : LinkEvent) (later : LinkSession) : Prop
  | kept (state : later.link.state = session.link.state)
      (phases : ∀ index, later.link.phase? index = session.link.phase? index)
  | begun (begins : event = .start ∨ event.launches = true) (state : later.link.state = .starting)
  | up (index : Nat) (state : session.link.state = .starting)
      (serves : session.link.phase? index = some .daemon) (state' : later.link.state = .running)
      (serves' : later.link.phase? index = some .daemon)
  | down (state : later.link.state = .repairing ∨ later.link.state = .stopped)

theorem state_step (step : session.step? event = some later) : StateStep session event later := by
  cases event with
  | start =>
    cases step
    cases started : session.link.isStarted with
    | true =>
      have same := Link.start_of_started started
      exact .kept (congrArg Link.state same) fun index => congrArg (Link.phase? · index) same
    | false => exact .begun (.inl rfl) (Link.start_spec started).2.1
  | stop =>
    cases step
    exact .kept session.link.stop_spec.1 session.link.phase?_beginStop
  | stopped index =>
    obtain ⟨_, _, rfl⟩ := step?_stopped step
    exact .down (.inr rfl)
  | elapsed index =>
    obtain ⟨_, rfl⟩ := step?_elapsed step
    exact .kept rfl fun _ => rfl
  | act index act =>
    obtain ⟨supervisor, found, may, rfl⟩ := step?_act step
    obtain ⟨_, state, supervisors⟩ := Link.act_spec found act
    cases act with
    | launch => exact .begun (.inr rfl) state
    | quit => exact .down (.inr state)
    | ended outcome delay =>
      refine .down ?_
      rw [show Link.state _ = _ from state]
      cases outcome with
      | exited => exact .inr rfl
      | failed =>
        cases quits : supervisor.quit with
        | true => exact .inr rfl
        | false => exact .inl rfl
    | connect =>
      have serves : session.link.phase? index = some .daemon := by
        simpa [Supervisor.may, Link.phase?, found] using may
      have phases (other : Nat) : (session.link.act index .connect).phase? other =
          session.link.phase? other := by
        rw [Link.phase?, supervisors]
        split
        · rename_i same
          rw [same, Link.phase?, found]
          rfl
        · rfl
      by_cases starts : session.link.state = .starting
      · exact .up index starts serves (state.trans (if_pos starts)) ((phases index).trans serves)
      · exact .kept (state.trans (if_neg starts)) phases

/-- How often the state of the link becomes running while events take place. -/
def comesUp (session : LinkSession) : List LinkEvent → Nat
  | [] => 0
  | event :: rest =>
    match session.step? event with
    | none => 0
    | some later =>
      (if session.link.state ≠ .running ∧ later.link.state = .running then 1 else 0) + later.comesUp rest

theorem comesUp_singleton (step : session.step? event = some later) : session.comesUp [event] =
    if session.link.state ≠ .running ∧ later.link.state = .running then 1 else 0 := by
  simp [comesUp, step]

theorem Runs.comesUp_append (runs : Runs allowed first events middle) (more : List LinkEvent) :
    first.comesUp (events ++ more) = first.comesUp events + middle.comesUp more := by
  induction runs generalizing more with
  | nil => simp [comesUp]
  | @snoc events session later _ event _ step ih =>
    have split (rest : List LinkEvent) :
        session.comesUp (event :: rest) = session.comesUp [event] + later.comesUp rest := by
      rw [comesUp_singleton step, comesUp, step]
    rw [List.append_assoc, List.singleton_append, ih, split, ih, Nat.add_assoc]

/-- Coming to running uses up what the link awaits, and only a start or a launch makes up for it. -/
theorem comesUp_step (step : session.step? event = some later) :
    session.comesUp [event] + later.link.awaiting ≤
      session.link.awaiting + [event].countP LinkEvent.launches + [event].count .start := by
  rw [comesUp_singleton step]
  cases state_step step with
  | kept state phases =>
    rw [if_neg fun up => up.1 (state ▸ up.2), Link.awaiting_congr state phases]
    omega
  | begun begins state =>
    have still : later.link.state ≠ .running := by simp [state]
    have one : 1 ≤ [event].countP LinkEvent.launches + [event].count .start := by
      rcases begins with rfl | launches
      · simp
      · simp [launches]
    have most := later.link.awaiting_le_one
    rw [if_neg fun up => still up.2]
    omega
  | up index state serves state' _ =>
    have uses : session.link.awaiting = 1 := Link.awaiting_of_serves state serves
    have used : later.link.awaiting = 0 := Link.awaiting_of_ne (by simp [state'])
    rw [uses, used]
    split <;> omega
  | down state =>
    have still : later.link.state ≠ .running := by rcases state with same | same <;> simp [same]
    have none : later.link.awaiting = 0 :=
      Link.awaiting_of_ne (by rcases state with same | same <;> simp [same])
    rw [if_neg fun up => still up.2, none]
    omega

theorem comesUp_runs (runs : Runs allowed first events later) :
    first.comesUp events + later.link.awaiting ≤
      first.link.awaiting + events.countP LinkEvent.launches + events.count .start := by
  induction runs with
  | nil => simp [comesUp]
  | snoc before event _ step ih =>
    have used := comesUp_step step
    rw [before.comesUp_append, List.countP_append, List.count_append]
    omega

/-- A link is running only while a daemon is in flight. -/
theorem serves_of_running (runs : Runs allowed (new spec) events session)
    (state : session.link.state = .running) : ∃ index, session.link.phase? index = some .daemon := by
  induction runs with
  | nil => cases state
  | snoc _ _ _ step ih =>
    cases state_step step with
    | kept same phases =>
      obtain ⟨index, serves⟩ := ih (same.symm.trans state)
      exact ⟨index, (phases index).trans serves⟩
    | begun _ starts => cases starts.symm.trans state
    | up index _ _ _ serves => exact ⟨index, serves⟩
    | down down => rcases down with same | same <;> cases same.symm.trans state

/-! ### A supervisor without others -/

theorem alive_step (step : session.step? event = some later) (unstarted : event ≠ .start)
    (alive : later.link.alive index = true) : session.link.alive index = true := by
  cases event with
  | start => exact absurd rfl unstarted
  | stop =>
    cases step
    exact (session.link.beginStop_spec.2.2.2.2 index).symm.trans alive
  | stopped other =>
    obtain ⟨_, _, rfl⟩ := step?_stopped step
    exact alive
  | elapsed other =>
    obtain ⟨_, rfl⟩ := step?_elapsed step
    exact alive
  | act other act =>
    obtain ⟨supervisor, found, may, rfl⟩ := step?_act step
    exact Link.alive_of_act found may alive

/-- Without a start, a supervisor that is the only one alive is the only one to launch a daemon. -/
theorem launches_alone (runs : Runs allowed first events later)
    (alone : ∀ other, first.link.alive other = true → other = index) (unstarted : .start ∉ events) :
    (∀ other, later.link.alive other = true → other = index) ∧
      events.countP LinkEvent.launches = events.count (.act index .launch) := by
  induction runs with
  | nil => exact ⟨alone, rfl⟩
  | snoc _ event _ step ih =>
    rw [List.mem_append, not_or, List.mem_singleton] at unstarted
    obtain ⟨alone, same⟩ := ih unstarted.1
    refine ⟨fun other alive => alone other (alive_step step (Ne.symm unstarted.2) alive), ?_⟩
    rw [List.countP_append, List.count_append, same]
    congr 1
    cases event with
    | act other act =>
      obtain ⟨supervisor, found, may, _⟩ := step?_act step
      obtain rfl := alone other (Link.alive_iff.2 ⟨supervisor, found, Supervisor.alive_of_may may⟩)
      cases act <;> simp [LinkEvent.launches]
    | _ => simp [LinkEvent.launches]

/-- A daemon that is in flight is that of the only supervisor, which launches no other then. -/
theorem comesUp_alone (runs : Runs allowed first events later)
    (found : first.link.supervisor? index = some supervisor) (asked : supervisor.quit = true)
    (alone : ∀ other, first.link.alive other = true → other = index) (unstarted : .start ∉ events) :
    first.comesUp events ≤ 1 ∧ ((∃ other, first.link.phase? other = some .daemon) →
      first.link.state ≠ .starting → first.comesUp events = 0) := by
  have up := comesUp_runs runs
  have own := (launches_alone runs alone unstarted).2
  have none_started := List.count_eq_zero.2 unstarted
  obtain ⟨once, none_launched, _⟩ := launches_asked runs found asked
  have serving (serves : ∃ other, first.link.phase? other = some .daemon) :
      events.count (.act index .launch) = 0 := by
    obtain ⟨other, serves⟩ := serves
    obtain rfl := alone other (alive_of_phase? serves (by simp))
    rw [Link.phase?, found] at serves
    exact none_launched (.inl (Option.some.inj serves))
  constructor
  · by_cases serves : ∃ other, first.link.phase? other = some .daemon
    · have none := serving serves
      have one := first.link.awaiting_le_one
      omega
    · have none := Link.awaiting_of_idle (not_exists.1 serves)
      omega
  · intro serves state
    have none := serving serves
    have still := Link.awaiting_of_ne state
    omega

/-- **What a supervisor still does once it was asked to quit.** It launches one daemon at most. It launches
none if a daemon of its was in flight, or it had ended, or its delay ran and does not elapse before it
sees that it is to quit, and exactly one if it had not had its first turn and gets it. It stays asked to
quit, and ends with the next daemon that does. The link comes to running no more often than what is
launched and started from then on allows, besides a daemon that is in flight already. So if the link has
no other supervisor, it comes to running at most once before the next start, and not if it was running. -/
theorem quitting_launches (runs : Runs Free (new spec) before session)
    (slot : session.link.slot = some index) (stop : session.step? .stop = some first)
    (after : Runs Free first events later) :
    events.count (.act index .launch) ≤ 1 ∧
    (session.link.phase? index = some .daemon ∨ session.link.phase? index = some .ended →
      .act index .launch ∉ events) ∧
    (session.link.phase? index = some .delay → index ∉ session.elapsed → .elapsed index ∉ events →
      .act index .launch ∉ events) ∧
    (session.link.phase? index = some .spawned → events.count (.act index .launch) =
      if later.link.phase? index = some .spawned then 0 else 1) ∧
    later.link.quitting index = true ∧
    (∀ outcome delay ended, later.step? (.act index (.ended outcome delay)) = some ended →
      ended.link.alive index = false) ∧
    first.comesUp events ≤
      session.link.awaiting + events.countP LinkEvent.launches + events.count .start ∧
    ((∀ other, session.link.alive other = true → other = index) → .start ∉ events →
      first.comesUp events ≤ 1 ∧ (session.link.state = .running → first.comesUp events = 0)) := by
  obtain ⟨supervisor, found, _⟩ := ((sound_new spec).runs runs).slot index slot
  cases stop
  have taken : session.link.beginStop.1.supervisor? index = some { supervisor with quit := true } := by
    rw [session.link.stop_spec.2 index, if_pos slot, found]
    rfl
  have stands {phase : SupervisorPhase} (there : session.link.phase? index = some phase) :
      supervisor.phase = phase := by
    simpa [Link.phase?, found] using there
  obtain ⟨once, none_launched, first_turn⟩ := launches_asked after taken rfl
  obtain ⟨next, here, asked, _⟩ := ahead_runs after taken rfl
  refine ⟨once, fun phase => ?_, fun phase early runs_on => ?_, fun phase => first_turn (stands phase),
    by simp [Link.quitting, here, asked], fun _ _ _ step => ends_asked here asked step, ?_,
    fun alone unstarted => ?_⟩
  · exact List.count_eq_zero.1 (none_launched (phase.imp stands stands))
  · refine (Abandons.runs ?_ after runs_on).1
    exact ⟨early, _, taken, rfl, .inl (stands phase)⟩
  · have same : session.link.beginStop.1.awaiting = session.link.awaiting :=
      Link.awaiting_congr session.link.stop_spec.1 session.link.phase?_beginStop
    rw [← same]
    exact Nat.le_of_add_right_le (comesUp_runs after)
  · have alive := session.link.beginStop_spec.2.2.2.2
    obtain ⟨at_most_once, never⟩ := comesUp_alone after taken rfl
      (fun other now => alone other ((alive other).symm.trans now)) unstarted
    refine ⟨at_most_once, fun running => never ?_ ?_⟩
    · obtain ⟨other, serves⟩ := serves_of_running runs running
      exact ⟨other, (session.link.phase?_beginStop other).trans serves⟩
    · change session.link.beginStop.1.state ≠ .starting
      rw [session.link.stop_spec.1, running]
      decide

/-- A link that was stopped during the delay after a failure. -/
def stoppedInRepair : LinkSession :=
  { link :=
      { spec := RouterSession.siteSpec
        state := .repairing
        writes := 3
        supervisors := [⟨.delay, true⟩]
        slot := none }
    stopping := [0]
    elapsed := [] }

def relaunch : List LinkEvent :=
  [.elapsed 0, .act 0 .launch, .act 0 .connect]

/-- A link is stopped during a delay, which elapses before the supervisor sees it: the daemon is launched
once more, and the link comes to running once. A link that is stopped while it is running does neither. -/
theorem quitting_launches_tied :
    (∃ repairing serving, Runs Free (new RouterSession.siteSpec)
        [.start, .act 0 .launch, .act 0 (.ended .failed (some .zero))] repairing ∧
      repairing.step? .stop = some stoppedInRepair ∧ Runs Free stoppedInRepair relaunch serving ∧
      relaunch.count (.act 0 .launch) = 1 ∧ stoppedInRepair.comesUp relaunch = 1 ∧
      serving.link.quitting 0 = true) ∧
    ∃ serving first, Runs Free (new RouterSession.siteSpec)
        [.start, .act 0 .launch, .act 0 .connect] serving ∧
      serving.step? .stop = some first ∧
      ∀ events later, Runs Free first events later → .start ∉ events →
        .act 0 .launch ∉ events ∧ first.comesUp events = 0 := by
  have launched := (Runs.nil : Runs Free (new RouterSession.siteSpec) [] _)
    |>.snoc .start trivial rfl
    |>.snoc (.act 0 .launch) trivial rfl
  have repairing := launched.snoc (.act 0 (.ended .failed (some .zero))) trivial rfl
  have serving := launched.snoc (.act 0 .connect) trivial rfl
  have tied := (Runs.nil : Runs Free stoppedInRepair [] _)
    |>.snoc (.elapsed 0) trivial rfl
    |>.snoc (.act 0 .launch) trivial rfl
    |>.snoc (.act 0 .connect) trivial rfl
  constructor
  · have quits := quitting_launches repairing rfl rfl tied
    have once := (quits.2.2.2.2.2.2.2 (((sound_new _).runs repairing).alone rfl rfl) (by decide)).1
    exact ⟨_, _, repairing, rfl, tied, Nat.le_antisymm quits.1 (by decide),
      Nat.le_antisymm once (by decide), quits.2.2.2.2.1⟩
  · refine ⟨_, _, serving, rfl, fun events later after unstarted => ?_⟩
    have quits := quitting_launches serving rfl rfl after
    have never := quits.2.2.2.2.2.2.2 (((sound_new _).runs serving).alone rfl rfl) unstarted
    exact ⟨quits.2.1 (.inl rfl), never.2 rfl⟩

/-- The link is stopped before its supervisor has had a turn: the daemon is launched nevertheless, and
connects while the stop waits. -/
theorem launched_after_quit : ∃ quitting later,
    Runs Serial (new RouterSession.siteSpec) [.start, .stop] quitting ∧
    quitting.stopping = [0] ∧ quitting.link.quitting 0 = true ∧ quitting.link.state = .starting ∧
    Runs Serial (new RouterSession.siteSpec)
      [.start, .stop, .act 0 .launch, .act 0 .connect] later ∧
    later.stopping = [0] ∧ later.link.state = .running := by
  have quitting := (Runs.nil : Runs Serial (new RouterSession.siteSpec) [] _)
    |>.snoc .start ⟨fun _ => rfl, nofun⟩ rfl
    |>.snoc .stop ⟨fun _ => rfl, nofun⟩ rfl
  have later := quitting
    |>.snoc (.act 0 .launch) (serial_act _ 0 nofun) rfl
    |>.snoc (.act 0 .connect) (serial_act _ 0 nofun) rfl
  exact ⟨_, _, quitting, rfl, rfl, rfl, later, rfl, rfl⟩

end LinkSession

end TunnelIngress
