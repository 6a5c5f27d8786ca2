import TunnelIngress.Proofs.Tunnel.Supervision

/-!
# One link, event after event

A link is started and stopped while its supervisors launch daemons, and daemons connect, fail and exit. A
stop asks the supervisor in the slot to quit and returns once that one has ended, so other calls may come
while it waits. The invariant says where a live supervisor can be, whatever comes in which order: in the
slot, or among those that stops wait for, and only the latter are asked to quit.
-/

namespace TunnelIngress

/-- What a supervisor comes to. The delay after a failure is missing where none can be computed. -/
inductive SupervisorAct where
  | launch
  | connect
  | ended (outcome : DaemonOutcome) (delay : Option Duration)
  | quit
deriving DecidableEq

inductive LinkEvent where
  | start
  | stop
  /-- A stop that waited for a supervisor returns. -/
  | stopped (index : Nat)
  /-- The delay of a supervisor is over, which it has yet to see. -/
  | elapsed (index : Nat)
  | act (index : Nat) (act : SupervisorAct)
deriving DecidableEq

namespace Supervisor

/-- A supervisor that is asked to quit sees it when a daemon is over or during the delay, and nowhere
else. If the delay has elapsed by then it may go on as well. -/
def may (supervisor : Supervisor) (elapsed : Bool) : SupervisorAct → Bool
  | .launch => supervisor.phase = .spawned || supervisor.phase = .delay && elapsed
  | .connect | .ended _ _ => supervisor.phase = .daemon
  | .quit => supervisor.phase = .delay && supervisor.quit

def after (supervisor : Supervisor) : SupervisorAct → Supervisor
  | .launch => { supervisor with phase := .daemon }
  | .connect => supervisor
  | .ended .failed (some _) => { supervisor with phase := if supervisor.quit then .ended else .delay }
  | .ended _ _ | .quit => { supervisor with phase := .ended }

theorem alive_of_may {supervisor : Supervisor} {elapsed : Bool} {act : SupervisorAct}
    (may : supervisor.may elapsed act = true) : supervisor.alive = true := by
  unfold alive
  cases phase : supervisor.phase with
  | ended => cases act <;> simp [Supervisor.may, phase] at may
  | _ => rfl

variable {supervisor : Supervisor} {outcome : DaemonOutcome} {delay : Option Duration}

theorem waits_of_may {elapsed : Bool} (may : supervisor.may elapsed .launch = true) :
    supervisor.phase = .spawned ∨ supervisor.phase = .delay := by
  simp only [Supervisor.may, Bool.or_eq_true, Bool.and_eq_true, decide_eq_true_eq] at may
  exact may.imp_right And.left

theorem after_ended_of_quit (asked : supervisor.quit = true) :
    supervisor.after (.ended outcome delay) = { supervisor with phase := .ended } := by
  cases outcome <;> cases delay <;> simp [after, asked]

/-- A supervisor that goes on when a daemon is over waits for a delay. -/
theorem goes_on_after (goes_on : (supervisor.after (.ended outcome delay)).alive = true) :
    outcome = .failed ∧ supervisor.quit = false ∧ (∃ wait, delay = some wait) ∧
      (supervisor.after (.ended outcome delay)).phase = .delay := by
  cases quits : supervisor.quit with
  | true =>
    rw [after_ended_of_quit quits] at goes_on
    cases goes_on
  | false =>
    cases outcome with
    | exited => cases goes_on
    | failed =>
      cases delay with
      | none => cases goes_on
      | some wait => exact ⟨rfl, rfl, ⟨wait, rfl⟩, by simp [after, quits]⟩

@[simp]
theorem quit_after (supervisor : Supervisor) (act : SupervisorAct) :
    (supervisor.after act).quit = supervisor.quit := by
  unfold after
  split <;> rfl

end Supervisor

def LinkState.after (state : LinkState) (quitting : Bool) : SupervisorAct → LinkState
  | .launch => .starting
  | .connect => if state = .starting then .running else state
  | .ended .failed _ => if quitting then .stopped else .repairing
  | .ended .exited _ | .quit => .stopped

theorem LinkState.after_ended_of_quit (state : LinkState) (outcome : DaemonOutcome)
    (delay : Option Duration) : state.after true (.ended outcome delay) = .stopped := by
  cases outcome <;> rfl

namespace Link

def act (link : Link) (index : Nat) : SupervisorAct → Link
  | .launch => link.launched index
  | .connect => link.connected
  | .ended outcome delay => (link.daemonEnded index outcome delay).1
  | .quit => link.supervisorEnded index

def phase? (link : Link) (index : Nat) : Option SupervisorPhase :=
  (link.supervisor? index).map (·.phase)

variable {link : Link} {index other : Nat} {supervisor : Supervisor}

theorem supervisor?_modify (change : Supervisor → Supervisor) :
    ({ link with supervisors := link.supervisors.modify index change }).supervisor? other =
      if other = index then (link.supervisor? other).map change else link.supervisor? other := by
  simp only [supervisor?, List.getElem?_modify]
  by_cases same : other = index
  · simp [same]
  · simp [same, Ne.symm same]

theorem alive_iff : link.alive index = true ↔
    ∃ supervisor, link.supervisor? index = some supervisor ∧ supervisor.alive = true := by
  simp [Link.alive, Option.any_eq_true]

theorem lt_of_found (found : link.supervisor? index = some supervisor) :
    index < link.supervisors.length :=
  (List.getElem?_eq_some_iff.1 found).1

/-! ### What an event does to the supervisors and to the state -/

/-- An act concerns one supervisor and the state. -/
theorem act_spec (found : link.supervisor? index = some supervisor) (act : SupervisorAct) :
    (link.act index act).slot = link.slot ∧
    (link.act index act).state = link.state.after supervisor.quit act ∧
    ∀ other, (link.act index act).supervisor? other =
      if other = index then some (supervisor.after act) else link.supervisor? other := by
  have phases (phase : SupervisorPhase) (other : Nat) : (link.setPhase index phase).supervisor? other =
      if other = index then some { supervisor with phase } else link.supervisor? other := by
    refine (supervisor?_modify _).trans ?_
    by_cases same : other = index <;> simp [same, found]
  have asked : link.quitting index = supervisor.quit := by simp [quitting, found]
  cases act with
  | launch => exact ⟨rfl, rfl, phases .daemon⟩
  | quit => exact ⟨rfl, rfl, phases .ended⟩
  | connect =>
    have same (other : Nat) : link.supervisor? other =
        if other = index then some supervisor else link.supervisor? other := by
      by_cases here : other = index <;> simp [here, found]
    simp only [Link.act, connected, LinkState.after, Supervisor.after]
    split
    · exact ⟨rfl, rfl, same⟩
    · exact ⟨rfl, rfl, same⟩
  | ended outcome delay =>
    simp only [Link.act, daemonEnded, asked]
    cases quits : supervisor.quit with
    | true =>
      rw [if_pos rfl, Supervisor.after_ended_of_quit quits, LinkState.after_ended_of_quit]
      exact ⟨rfl, rfl, phases .ended⟩
    | false =>
      rw [if_neg Bool.false_ne_true]
      cases outcome with
      | exited => exact ⟨rfl, rfl, phases .ended⟩
      | failed =>
        cases delay with
        | none => exact ⟨rfl, rfl, phases .ended⟩
        | some wait =>
          refine ⟨rfl, rfl, fun other => (phases .delay other).trans ?_⟩
          simp [Supervisor.after, quits]

/-- Nobody comes to life by an act. -/
theorem alive_of_act {act : SupervisorAct} {elapsed : Bool}
    (found : link.supervisor? index = some supervisor) (may : supervisor.may elapsed act = true)
    (alive : (link.act index act).alive other = true) : link.alive other = true := by
  obtain ⟨later, here, goes_on⟩ := alive_iff.1 alive
  rw [(act_spec found act).2.2 other] at here
  split at here
  · rename_i same
    exact alive_iff.2 ⟨supervisor, same ▸ found, Supervisor.alive_of_may may⟩
  · exact alive_iff.2 ⟨later, here, goes_on⟩

theorem start_spec (stopped : link.isStarted = false) :
    link.start.1.slot = some link.supervisors.length ∧ link.start.1.state = .starting ∧
    ∀ other, link.start.1.supervisor? other =
      if other = link.supervisors.length then some ⟨.spawned, false⟩ else link.supervisor? other := by
  unfold start
  rw [if_neg (by simp [stopped])]
  refine ⟨rfl, rfl, fun other => ?_⟩
  simp only [supervisor?]
  rcases Nat.lt_trichotomy other link.supervisors.length with before | here | beyond
  · rw [if_neg (Nat.ne_of_lt before), List.getElem?_append_left before]
  · simp [here]
  · rw [if_neg (Nat.ne_of_gt beyond), List.getElem?_eq_none (Nat.le_of_lt beyond)]
    apply List.getElem?_eq_none
    simp only [List.length_append, List.length_singleton]
    omega

theorem stop_spec (link : Link) :
    link.beginStop.1.state = link.state ∧
    ∀ other, link.beginStop.1.supervisor? other =
      if link.slot = some other then (link.supervisor? other).map ({ · with quit := true })
      else link.supervisor? other := by
  unfold beginStop
  cases slot : link.slot with
  | none => exact ⟨rfl, fun other => by simp⟩
  | some taken =>
    refine ⟨rfl, fun other => ?_⟩
    refine (supervisor?_modify _).trans ?_
    by_cases same : other = taken
    · simp [same]
    · simp [same, Ne.symm same]

end Link

structure LinkSession where
  link : Link
  /-- The supervisors that stops wait for. -/
  stopping : List Nat
  /-- The supervisors whose delay has elapsed. -/
  elapsed : List Nat
deriving DecidableEq

namespace LinkSession

def new (spec : LinkSpec) : LinkSession :=
  { link := .new spec, stopping := [], elapsed := [] }

/-- A stop returns only when the supervisor it waits for has ended, and a supervisor comes only to what
is possible where it stands. -/
def step? (session : LinkSession) : LinkEvent → Option LinkSession
  | .start => some { session with link := session.link.start.1 }
  | .stop =>
    some
      { session with
        link := session.link.beginStop.1
        stopping := session.stopping ++ session.link.beginStop.2.toList }
  | .stopped index =>
    if index ∈ session.stopping ∧ session.link.alive index = false then
      some { session with link := session.link.endStop.1, stopping := session.stopping.erase index }
    else
      none
  | .elapsed index =>
    if session.link.phase? index = some .delay then
      some { session with elapsed := index :: session.elapsed }
    else
      none
  | .act index act =>
    if (session.link.supervisor? index).any (·.may (session.elapsed.contains index) act) then
      some
        { session with
          link := session.link.act index act
          elapsed := session.elapsed.filter (· ≠ index) }
    else
      none

/-- Events one after the other, each of them allowed where it comes. -/
inductive Runs (allowed : LinkSession → LinkEvent → Prop) (first : LinkSession) :
    List LinkEvent → LinkSession → Prop where
  | nil : Runs allowed first [] first
  | snoc {events : List LinkEvent} {session later : LinkSession}
      (runs : Runs allowed first events session) (event : LinkEvent) (may : allowed session event)
      (step : session.step? event = some later) : Runs allowed first (events ++ [event]) later

/-- Calls come at any time. -/
def Free (_ : LinkSession) (_ : LinkEvent) : Prop :=
  True

variable {allowed : LinkSession → LinkEvent → Prop} {first session middle later : LinkSession}
  {events more : List LinkEvent} {event : LinkEvent} {index : Nat} {act : SupervisorAct}

theorem Runs.mono {allowed' : LinkSession → LinkEvent → Prop} (runs : Runs allowed first events session)
    (weaker : ∀ session event, allowed session event → allowed' session event) :
    Runs allowed' first events session := by
  induction runs with
  | nil => exact .nil
  | snoc _ event may step ih => exact ih.snoc event (weaker _ _ may) step

theorem Runs.trans (runs : Runs allowed first events middle) (rest : Runs allowed middle more later) :
    Runs allowed first (events ++ more) later := by
  induction rest with
  | nil => simpa using runs
  | snoc _ event may step ih =>
    rw [← List.append_assoc]
    exact ih.snoc event may step

/-! ### What a step needs -/

theorem step?_stopped (step : session.step? (.stopped index) = some later) :
    index ∈ session.stopping ∧ session.link.alive index = false ∧
      later = { session with
        link := session.link.endStop.1, stopping := session.stopping.erase index } := by
  simp only [step?] at step
  split at step
  · rename_i ended
    cases step
    exact ⟨ended.1, ended.2, rfl⟩
  · cases step

theorem step?_elapsed (step : session.step? (.elapsed index) = some later) :
    session.link.phase? index = some .delay ∧
      later = { session with elapsed := index :: session.elapsed } := by
  simp only [step?] at step
  split at step
  · rename_i waits
    cases step
    exact ⟨waits, rfl⟩
  · cases step

theorem step?_act (step : session.step? (.act index act) = some later) :
    ∃ supervisor, session.link.supervisor? index = some supervisor ∧
      supervisor.may (session.elapsed.contains index) act = true ∧
      later = { session with
        link := session.link.act index act, elapsed := session.elapsed.filter (· ≠ index) } := by
  simp only [step?] at step
  split at step
  · rename_i able
    obtain ⟨supervisor, found, may⟩ := (Option.any_eq_true _ _).1 able
    cases step
    exact ⟨supervisor, found, may, rfl⟩
  · cases step

/-! ### Where supervisors are -/

/-- What holds at every moment, whatever the order of the events. -/
structure Sound (session : LinkSession) : Prop where
  slot : ∀ index, session.link.slot = some index →
    ∃ supervisor, session.link.supervisor? index = some supervisor ∧ supervisor.quit = false
  asked : ∀ index ∈ session.stopping,
    ∃ supervisor, session.link.supervisor? index = some supervisor ∧ supervisor.quit = true
  alive : ∀ index, session.link.alive index = true →
    session.link.slot = some index ∨ index ∈ session.stopping

theorem sound_new (spec : LinkSpec) : (new spec).Sound where
  slot index slot := nomatch slot
  asked index mem := nomatch mem
  alive index alive := by simp [new, Link.new, Link.alive, Link.supervisor?] at alive

/-- Where a start does something, whoever is alive is waited for by a stop. -/
theorem Sound.waited (sound : session.Sound) (stopped : session.link.isStarted = false)
    (alive : session.link.alive index = true) : index ∈ session.stopping := by
  apply (sound.alive index alive).resolve_left
  intro here
  simp [Link.isStarted, here, alive] at stopped

/-- When no stop waits, nobody is alive but the supervisor in the slot. -/
theorem Sound.alone (sound : session.Sound) (slot : session.link.slot = some index)
    (calm : session.stopping = []) (other : Nat) (alive : session.link.alive other = true) :
    other = index := by
  have here := (sound.alive other alive).resolve_right (by simp [calm])
  exact Option.some.inj (here.symm.trans slot)

theorem Sound.start (sound : session.Sound) :
    { session with link := session.link.start.1 }.Sound := by
  cases started : session.link.isStarted with
  | true =>
    rw [Link.start_of_started started]
    exact sound
  | false =>
    obtain ⟨slot, _, supervisors⟩ := Link.start_spec started
    refine ⟨fun index here => ?_, fun index mem => ?_, fun index now => ?_⟩
    · obtain rfl : session.link.supervisors.length = index := by simpa [slot] using here
      exact ⟨_, (supervisors _).trans (if_pos rfl), rfl⟩
    · obtain ⟨supervisor, found, asked⟩ := sound.asked index mem
      have old := Nat.ne_of_lt (Link.lt_of_found found)
      exact ⟨supervisor, (supervisors index).trans (by rw [if_neg old, found]), asked⟩
    · obtain ⟨supervisor, found, goes_on⟩ := Link.alive_iff.1 now
      rw [show Link.supervisor? _ index = _ from supervisors index] at found
      split at found
      · rename_i new
        exact .inl (by rw [new, slot])
      · exact .inr (sound.waited started (Link.alive_iff.2 ⟨supervisor, found, goes_on⟩))

theorem Sound.stop (sound : session.Sound) :
    { session with
      link := session.link.beginStop.1,
      stopping := session.stopping ++ session.link.beginStop.2.toList }.Sound := by
  obtain ⟨taken, _, emptied, _, alive⟩ := session.link.beginStop_spec
  obtain ⟨_, supervisors⟩ := session.link.stop_spec
  refine ⟨fun index here => ?_, fun index mem => ?_, fun index now => ?_⟩
  · cases emptied.symm.trans here
  · rw [show Link.supervisor? _ index = _ from supervisors index]
    rcases List.mem_append.1 mem with mem | mem
    · obtain ⟨supervisor, found, asked⟩ := sound.asked index mem
      split
      · exact ⟨_, by rw [found]; rfl, rfl⟩
      · exact ⟨supervisor, found, asked⟩
    · rw [taken, Option.mem_toList] at mem
      obtain ⟨supervisor, found, _⟩ := sound.slot index mem
      exact ⟨_, by rw [if_pos mem, found]; rfl, rfl⟩
  · right
    rw [List.mem_append, taken, Option.mem_toList]
    exact (sound.alive index ((alive index).symm.trans now)).symm

theorem Sound.stopped (sound : session.Sound) (ended : session.link.alive index = false) :
    { session with
      link := session.link.endStop.1, stopping := session.stopping.erase index }.Sound := by
  refine ⟨sound.slot, fun other mem => sound.asked other (List.mem_of_mem_erase mem), ?_⟩
  intro other now
  have ne : other ≠ index := by
    rintro rfl
    cases ended.symm.trans now
  exact (sound.alive other now).imp_right (List.mem_erase_of_ne ne).2

theorem Sound.acted (sound : session.Sound) {supervisor : Supervisor}
    (found : session.link.supervisor? index = some supervisor) {due : Bool}
    (may : supervisor.may due act = true) (elapsed : List Nat) :
    { session with link := session.link.act index act, elapsed }.Sound := by
  obtain ⟨slot, _, supervisors⟩ := Link.act_spec found act
  have kept (other : Nat) (quit : Bool) (was : ∃ supervisor,
      session.link.supervisor? other = some supervisor ∧ supervisor.quit = quit) : ∃ supervisor,
        (session.link.act index act).supervisor? other = some supervisor ∧ supervisor.quit = quit := by
    obtain ⟨old, here, asked⟩ := was
    rw [supervisors]
    split
    · rename_i same
      obtain rfl : old = supervisor := by
        rw [same, found] at here
        exact (Option.some.inj here).symm
      exact ⟨_, rfl, (old.quit_after act).trans asked⟩
    · exact ⟨old, here, asked⟩
  refine ⟨fun other here => ?_, fun other mem => ?_, fun other now => ?_⟩
  · exact kept other false (sound.slot other (slot ▸ here))
  · exact kept other true (sound.asked other mem)
  · rw [show Link.slot _ = _ from slot]
    exact sound.alive other (Link.alive_of_act found may now)

theorem Sound.step (sound : session.Sound) (step : session.step? event = some later) : later.Sound := by
  cases event with
  | start =>
    cases step
    exact sound.start
  | stop =>
    cases step
    exact sound.stop
  | stopped index =>
    obtain ⟨_, ended, rfl⟩ := step?_stopped step
    exact sound.stopped ended
  | elapsed index =>
    obtain ⟨_, rfl⟩ := step?_elapsed step
    exact ⟨sound.slot, sound.asked, sound.alive⟩
  | act index act =>
    obtain ⟨supervisor, found, may, rfl⟩ := step?_act step
    exact sound.acted found may _

theorem Sound.runs (sound : first.Sound) (runs : Runs allowed first events session) : session.Sound := by
  induction runs with
  | nil => exact sound
  | snoc _ _ _ step ih => exact ih.step step

end LinkSession

end TunnelIngress
