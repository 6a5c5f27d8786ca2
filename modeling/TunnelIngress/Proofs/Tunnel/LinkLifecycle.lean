import TunnelIngress.Proofs.Tunnel.LinkSession
import TunnelIngress.Proofs.Tunnel.LinkUse

/-!
# The life of a link whose calls follow one another

As long as no start comes while a stop waits, a link has one live supervisor at most, and its state tells
where that one stands. If besides every delay can be computed, a link without a live supervisor is
stopped.
-/

namespace TunnelIngress

/-- The states that a link can have while its live supervisor is at a phase. -/
def SupervisorPhase.shows : SupervisorPhase → LinkState → Bool
  | .spawned, .starting => true
  | .daemon, .starting => true
  | .daemon, .running => true
  | .delay, .repairing => true
  | _, _ => false

inductive LinkState.Changes : LinkState → LinkState → Prop where
  | start : Changes .stopped .starting
  | connect : Changes .starting .running
  | fail (state : LinkState) (up : state = .starting ∨ state = .running) : Changes state .repairing
  | relaunch : Changes .repairing .starting
  | stop (state : LinkState) : Changes state .stopped

section

variable {supervisor : Supervisor} {state : LinkState} {elapsed : Bool} {act : SupervisorAct}

theorem Supervisor.shows_after (may : supervisor.may elapsed act = true)
    (shows : supervisor.phase.shows state = true) (goes_on : (supervisor.after act).alive = true) :
    (supervisor.after act).phase.shows (state.after supervisor.quit act) = true := by
  cases act with
  | launch => rfl
  | quit => cases goes_on
  | connect =>
    have serves : supervisor.phase = .daemon := by simpa [Supervisor.may] using may
    rw [serves] at shows
    change supervisor.phase.shows (if state = .starting then .running else state) = true
    rw [serves]
    split
    · rfl
    · exact shows
  | ended outcome delay =>
    obtain ⟨rfl, quits, _, waits⟩ := Supervisor.goes_on_after goes_on
    rw [waits, quits]
    rfl

theorem Supervisor.changes_after (may : supervisor.may elapsed act = true)
    (shows : supervisor.phase.shows state = true) :
    state.after supervisor.quit act = state ∨ state.Changes (state.after supervisor.quit act) := by
  have up (serves : supervisor.phase = .daemon) : state = .starting ∨ state = .running := by
    rw [serves] at shows
    cases state <;> simp_all [SupervisorPhase.shows]
  cases act with
  | launch =>
    cases state with
    | starting => exact .inl rfl
    | repairing => exact .inr .relaunch
    | running =>
      rcases waits_of_may may with phase | phase <;> simp [phase, SupervisorPhase.shows] at shows
    | stopped => cases phase : supervisor.phase <;> simp [phase, SupervisorPhase.shows] at shows
  | quit => exact .inr (.stop state)
  | connect =>
    rcases up (by simpa [Supervisor.may] using may) with rfl | rfl
    · exact .inr .connect
    · exact .inl rfl
  | ended outcome delay =>
    have up := up (by simpa [Supervisor.may] using may)
    right
    cases outcome with
    | exited => exact .stop state
    | failed =>
      cases quits : supervisor.quit with
      | true => exact .stop state
      | false => exact .fail state up

end

namespace LinkSession

/-- No start comes while a stop waits. -/
def Apart (session : LinkSession) (event : LinkEvent) : Prop :=
  event = .start → session.stopping = []

/-- Calls follow one another, and no delay is beyond the range of durations. -/
def Serial (session : LinkSession) (event : LinkEvent) : Prop :=
  (event = .start ∨ event = .stop → session.stopping = []) ∧
    ∀ index, event ≠ .act index (.ended .failed none)

variable {allowed : LinkSession → LinkEvent → Prop} {first session later : LinkSession}
  {events more : List LinkEvent} {event : LinkEvent} {index other : Nat} {act : SupervisorAct}

theorem Serial.apart (serial : session.Serial event) : session.Apart event :=
  fun start => serial.1 (.inl start)

theorem Runs.apart (runs : Runs Serial first events session) : Runs Apart first events session :=
  runs.mono fun _ _ => Serial.apart

/-- At most one supervisor is in the slot or waited for, and the state is one of those that show it. -/
structure Lone (session : LinkSession) : Prop where
  sound : session.Sound
  one : (session.link.slot.toList ++ session.stopping).length ≤ 1
  shows : ∀ index supervisor, session.link.supervisor? index = some supervisor →
    supervisor.alive = true → supervisor.phase.shows session.link.state = true

theorem lone_new (spec : LinkSpec) : (new spec).Lone where
  sound := sound_new spec
  one := by simp [new, Link.new]
  shows index supervisor found := by simp [new, Link.new, Link.supervisor?] at found

theorem Lone.unique (lone : session.Lone) (alive : session.link.alive index = true)
    (alive' : session.link.alive other = true) : index = other := by
  have mem (index : Nat) (alive : session.link.alive index = true) :
      index ∈ session.link.slot.toList ++ session.stopping := by
    rw [List.mem_append, Option.mem_toList]
    exact lone.sound.alive index alive
  have here := mem index alive
  have there := mem other alive'
  have one := lone.one
  match places : session.link.slot.toList ++ session.stopping with
  | [] => simp [places] at here
  | [place] =>
    rw [places, List.mem_singleton] at here there
    exact here.trans there.symm
  | _ :: _ :: _ => simp [places] at one

theorem Lone.waited (lone : session.Lone) (mem : index ∈ session.stopping) :
    session.link.slot = none ∧ session.stopping = [index] := by
  have one := lone.one
  cases slot : session.link.slot with
  | some held =>
    have some_waited := List.length_pos_of_mem mem
    simp only [slot, Option.toList_some, List.length_append, List.length_singleton] at one
    omega
  | none =>
    simp only [slot, Option.toList_none, List.nil_append] at one
    match waited : session.stopping with
    | [] => simp [waited] at mem
    | [place] =>
      rw [waited, List.mem_singleton] at mem
      exact ⟨rfl, by rw [mem]⟩
    | _ :: _ :: _ => simp [waited] at one

/-! ### What each event keeps -/

theorem Lone.start (lone : session.Lone) (calm : session.stopping = []) :
    { session with link := session.link.start.1 }.Lone := by
  cases started : session.link.isStarted with
  | true =>
    rw [Link.start_of_started started]
    exact lone
  | false =>
    obtain ⟨slot, state, supervisors⟩ := Link.start_spec started
    refine ⟨lone.sound.start, ?_, fun index supervisor found goes_on => ?_⟩
    · simp [slot, calm]
    · rw [show Link.supervisor? _ index = _ from supervisors index] at found
      rw [show Link.state _ = _ from state]
      split at found
      · cases found
        rfl
      · have mem := lone.sound.waited started (Link.alive_iff.2 ⟨supervisor, found, goes_on⟩)
        simp [calm] at mem

theorem Lone.stop (lone : session.Lone) :
    { session with
      link := session.link.beginStop.1,
      stopping := session.stopping ++ session.link.beginStop.2.toList }.Lone := by
  obtain ⟨taken, _, emptied, _⟩ := session.link.beginStop_spec
  obtain ⟨state, supervisors⟩ := session.link.stop_spec
  refine ⟨lone.sound.stop, ?_, fun index supervisor found goes_on => ?_⟩
  · have one := lone.one
    simp only [emptied, taken, Option.toList_none, List.nil_append, List.length_append] at one ⊢
    omega
  · rw [show Link.state _ = _ from state]
    rw [show Link.supervisor? _ index = _ from supervisors index] at found
    split at found
    · obtain ⟨old, here, rfl⟩ := Option.map_eq_some_iff.1 found
      exact lone.shows index old here goes_on
    · exact lone.shows index supervisor found goes_on

theorem Lone.stopped (lone : session.Lone) (mem : index ∈ session.stopping)
    (ended : session.link.alive index = false) :
    { session with
      link := session.link.endStop.1, stopping := session.stopping.erase index }.Lone := by
  obtain ⟨slot, waited⟩ := lone.waited mem
  refine ⟨lone.sound.stopped ended, ?_, fun other supervisor found goes_on => ?_⟩
  · simp [Link.endStop, Link.setState, slot, waited]
  · have was : session.link.alive other = true := Link.alive_iff.2 ⟨supervisor, found, goes_on⟩
    rcases lone.sound.alive other was with here | here
    · cases slot.symm.trans here
    · rw [waited, List.mem_singleton] at here
      rw [here, ended] at was
      cases was

theorem Lone.acted (lone : session.Lone) {supervisor : Supervisor}
    (found : session.link.supervisor? index = some supervisor) {due : Bool}
    (may : supervisor.may due act = true) (elapsed : List Nat) :
    { session with link := session.link.act index act, elapsed }.Lone := by
  obtain ⟨slot, state, supervisors⟩ := Link.act_spec found act
  have alive := Supervisor.alive_of_may may
  refine ⟨lone.sound.acted found may elapsed, ?_, fun other later here goes_on => ?_⟩
  · simpa [slot] using lone.one
  · rw [show Link.state _ = _ from state]
    rw [show Link.supervisor? _ other = _ from supervisors other] at here
    split at here
    · cases here
      exact Supervisor.shows_after may (lone.shows index supervisor found alive) goes_on
    · -- The act changes the state for all, but nobody else is alive to be misled by it.
      rename_i ne
      have same := lone.unique (Link.alive_iff.2 ⟨later, here, goes_on⟩)
        (Link.alive_iff.2 ⟨supervisor, found, alive⟩)
      exact absurd same ne

theorem Lone.step (lone : session.Lone) (apart : session.Apart event)
    (step : session.step? event = some later) : later.Lone := by
  cases event with
  | start =>
    cases step
    exact lone.start (apart rfl)
  | stop =>
    cases step
    exact lone.stop
  | stopped index =>
    obtain ⟨mem, ended, rfl⟩ := step?_stopped step
    exact lone.stopped mem ended
  | elapsed index =>
    obtain ⟨_, rfl⟩ := step?_elapsed step
    exact ⟨⟨lone.sound.slot, lone.sound.asked, lone.sound.alive⟩, lone.one, lone.shows⟩
  | act index act =>
    obtain ⟨supervisor, found, may, rfl⟩ := step?_act step
    exact lone.acted found may _

theorem Lone.runs (lone : first.Lone) (runs : Runs Apart first events session) : session.Lone := by
  induction runs with
  | nil => exact lone
  | snoc _ _ apart step ih => exact ih.step apart step

/-! ### A link without a live supervisor -/

theorem alive_of_phase? {phase : SupervisorPhase} (stands : session.link.phase? index = some phase)
    (goes_on : phase ≠ .ended) : session.link.alive index = true := by
  obtain ⟨supervisor, found, rfl⟩ := Option.map_eq_some_iff.1 stands
  exact Link.alive_iff.2 ⟨supervisor, found, by simpa [Supervisor.alive] using goes_on⟩

def Quiet (link : Link) : Prop :=
  ∀ index, link.alive index = false

theorem Sound.quiet (sound : session.Sound) (slot : session.link.slot = none)
    (calm : session.stopping = []) : Quiet session.link := by
  intro index
  rw [Bool.eq_false_iff]
  intro alive
  rcases sound.alive index alive with here | here
  · cases slot.symm.trans here
  · simp [calm] at here

theorem Lone.quiet_of_stopped (lone : session.Lone) (state : session.link.state = .stopped) :
    Quiet session.link := by
  intro index
  rw [Bool.eq_false_iff]
  intro alive
  obtain ⟨supervisor, found, goes_on⟩ := Link.alive_iff.1 alive
  have shows := lone.shows index supervisor found goes_on
  rw [state] at shows
  cases phase : supervisor.phase <;> simp [phase, SupervisorPhase.shows] at shows

/-- A link whose supervisors have all ended is stopped, also after another event. -/
theorem stopped_of_quiet (rests : Quiet session.link → session.link.state = .stopped)
    (serial : session.Serial event) (step : session.step? event = some later) (quiet : Quiet later.link) :
    later.link.state = .stopped := by
  cases event with
  | start =>
    cases step
    cases started : session.link.isStarted with
    | true =>
      rw [show session.link.start.1 = _ from Link.start_of_started started] at quiet ⊢
      exact rests quiet
    | false =>
      obtain ⟨_, _, supervisors⟩ := Link.start_spec started
      have new := Link.alive_iff.2 ⟨_, (supervisors _).trans (if_pos rfl), rfl⟩
      cases (quiet _).symm.trans new
  | stop =>
    cases step
    obtain ⟨_, _, _, _, alive⟩ := session.link.beginStop_spec
    exact session.link.stop_spec.1.trans (rests fun index => (alive index).symm.trans (quiet index))
  | stopped index =>
    obtain ⟨_, _, rfl⟩ := step?_stopped step
    rfl
  | elapsed index =>
    obtain ⟨_, rfl⟩ := step?_elapsed step
    exact rests quiet
  | act index act =>
    obtain ⟨supervisor, found, may, rfl⟩ := step?_act step
    obtain ⟨_, state, supervisors⟩ := Link.act_spec found act
    have ended : (supervisor.after act).alive = false := by
      rw [Bool.eq_false_iff]
      intro goes_on
      have alive := Link.alive_iff.2 ⟨_, (supervisors index).trans (if_pos rfl), goes_on⟩
      cases (quiet index).symm.trans alive
    refine state.trans ?_
    cases act with
    | launch => cases ended
    | connect => cases (Supervisor.alive_of_may may).symm.trans ended
    | quit => rfl
    | ended outcome delay =>
      cases outcome with
      | exited => rfl
      | failed =>
        cases delay with
        | none => exact absurd rfl (serial.2 index)
        | some wait =>
          cases quits : supervisor.quit with
          | true => rfl
          | false => simp [Supervisor.after, Supervisor.alive, quits] at ended

theorem Runs.stopped_of_quiet (rests : Quiet first.link → first.link.state = .stopped)
    (runs : Runs Serial first events session) (quiet : Quiet session.link) :
    session.link.state = .stopped := by
  induction runs with
  | nil => exact rests quiet
  | snoc _ _ serial step ih => exact LinkSession.stopped_of_quiet ih serial step quiet

/-- When no supervisor is in the slot and none is waited for, only another start brings one. -/
theorem Sound.rests (sound : session.Sound) (slot : session.link.slot = none)
    (calm : session.stopping = []) (runs : Runs allowed session events later)
    (unstarted : .start ∉ events) :
    (later.link.slot = none ∧ later.stopping = []) ∧ ∀ event ∈ events, event = .stop := by
  induction runs with
  | nil => exact ⟨⟨slot, calm⟩, fun _ mem => nomatch mem⟩
  | @snoc events middle later before event _ step ih =>
    rw [List.mem_append, not_or] at unstarted
    obtain ⟨⟨slot, calm⟩, stops⟩ := ih unstarted.1
    cases event with
    | start => simp at unstarted
    | stop =>
      cases step
      obtain ⟨taken, _, emptied, _⟩ := middle.link.beginStop_spec
      refine ⟨⟨emptied, by simp [taken, slot, calm]⟩, fun event mem => ?_⟩
      rcases List.mem_append.1 mem with mem | mem
      · exact stops event mem
      · exact List.mem_singleton.1 mem
    | stopped index =>
      obtain ⟨mem, _, _⟩ := step?_stopped step
      simp [calm] at mem
    | elapsed index =>
      obtain ⟨waits, _⟩ := step?_elapsed step
      have alive := alive_of_phase? waits (by simp)
      cases ((sound.runs before).quiet slot calm index).symm.trans alive
    | act index act =>
      obtain ⟨supervisor, found, may, _⟩ := step?_act step
      have alive := Link.alive_iff.2 ⟨supervisor, found, Supervisor.alive_of_may may⟩
      cases ((sound.runs before).quiet slot calm index).symm.trans alive

/-- The state changes in one step only as a link may. -/
theorem Lone.changes (lone : session.Lone) (rests : Quiet session.link → session.link.state = .stopped)
    (apart : session.Apart event) (step : session.step? event = some later) :
    later.link.state = session.link.state ∨ session.link.state.Changes later.link.state := by
  cases event with
  | start =>
    cases step
    cases started : session.link.isStarted with
    | true =>
      rw [show session.link.start.1 = _ from Link.start_of_started started]
      exact .inl rfl
    | false =>
      have quiet : Quiet session.link := by
        intro index
        rw [Bool.eq_false_iff]
        intro alive
        have mem := lone.sound.waited started alive
        simp [apart rfl] at mem
      right
      rw [rests quiet, show Link.state _ = _ from (Link.start_spec started).2.1]
      exact .start
  | stop =>
    cases step
    exact .inl session.link.stop_spec.1
  | stopped index =>
    obtain ⟨_, _, rfl⟩ := step?_stopped step
    exact .inr (.stop _)
  | elapsed index =>
    obtain ⟨_, rfl⟩ := step?_elapsed step
    exact .inl rfl
  | act index act =>
    obtain ⟨supervisor, found, may, rfl⟩ := step?_act step
    rw [show Link.state _ = _ from (Link.act_spec found act).2.1]
    exact Supervisor.changes_after may (lone.shows index supervisor found (Supervisor.alive_of_may may))

/-- **The life of a link.** At every moment the link is stopped exactly if it has no live supervisor, and
no two daemons are in flight. The state changes from stopped to starting, from there to running, from
both to repairing, from there to starting, from any to stopped, and not otherwise. When a stop has
returned, no daemon is launched until there is another start. -/
theorem lifecycle {spec : LinkSpec} (runs : Runs Serial (new spec) events session) :
    (session.link.state = .stopped ↔ ∀ index, session.link.alive index = false) ∧
    (∀ event later, session.Serial event → session.step? event = some later →
      later.link.state = session.link.state ∨ session.link.state.Changes later.link.state) ∧
    (∀ index other, session.link.phase? index = some .daemon →
      session.link.phase? other = some .daemon → index = other) ∧
    ∀ event stopped, (event = .stop ∨ ∃ index, event = .stopped index) → session.Serial event →
      session.step? event = some stopped → stopped.stopping = [] →
        ∀ more later, Runs Serial stopped more later → .start ∉ more →
          ∀ index, .act index .launch ∉ more := by
  have lone := (lone_new spec).runs runs.apart
  have rests : Quiet session.link → session.link.state = .stopped :=
    fun quiet => Runs.stopped_of_quiet (fun _ => rfl) runs quiet
  refine ⟨⟨lone.quiet_of_stopped, rests⟩, ?_, ?_, ?_⟩
  · intro event later serial step
    exact lone.changes rests serial.apart step
  · intro index other serves serves'
    exact lone.unique (alive_of_phase? serves (by simp)) (alive_of_phase? serves' (by simp))
  · intro event stopped stops serial step calm more later rest unstarted index launch
    have emptied : stopped.link.slot = none := by
      rcases stops with rfl | ⟨index, rfl⟩
      · cases step
        exact session.link.beginStop_spec.2.2.1
      · obtain ⟨mem, _, rfl⟩ := step?_stopped step
        exact (lone.waited mem).1
    obtain ⟨_, only⟩ := (lone.sound.step step).rests emptied calm rest unstarted
    cases only _ launch

theorem serial_act (session : LinkSession) (index : Nat) (possible : act ≠ .ended .failed none) :
    session.Serial (.act index act) :=
  ⟨by simp, by simp [possible]⟩

/-- A daemon fails and is launched again before the link is stopped. -/
theorem lifecycle_repaired : ∃ events session,
    Runs Serial (new RouterSession.siteSpec) events session ∧ events.count (.act 0 .launch) = 2 ∧
    session.stopping = [] ∧ (∀ index, session.link.alive index = false) ∧
    ∀ more later, Runs Serial session more later → .start ∉ more → ∀ index, .act index .launch ∉ more := by
  have stopping := (Runs.nil : Runs Serial (new RouterSession.siteSpec) [] _)
    |>.snoc .start ⟨fun _ => rfl, nofun⟩ rfl
    |>.snoc (.act 0 .launch) (serial_act _ 0 nofun) rfl
    |>.snoc (.act 0 .connect) (serial_act _ 0 nofun) rfl
    |>.snoc (.act 0 (.ended .failed (some .zero))) (serial_act _ 0 nofun) rfl
    |>.snoc (.elapsed 0) ⟨nofun, nofun⟩ rfl
    |>.snoc (.act 0 .launch) (serial_act _ 0 nofun) rfl
    |>.snoc .stop ⟨fun _ => rfl, nofun⟩ rfl
    |>.snoc (.act 0 (.ended .exited none)) (serial_act _ 0 nofun) rfl
  have returned := stopping.snoc (.stopped 0) ⟨by simp, nofun⟩ rfl
  refine ⟨_, _, returned, rfl, rfl, (lifecycle returned).1.1 rfl, ?_⟩
  exact (lifecycle stopping).2.2.2 (.stopped 0) _ (.inr ⟨0, rfl⟩) ⟨by simp, nofun⟩ rfl rfl

end LinkSession

end TunnelIngress
