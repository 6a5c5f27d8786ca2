import TunnelIngress.Control.Error
import TunnelIngress.Proofs.Tunnel.ActiveLinks
import TunnelIngress.Tunnel.RepairDelay
import Mathlib.Algebra.Ring.Nat

/-!
# The accounts of repairs

A supervisor launches the daemon of its link, and launches it again whenever a delay after a failure has
elapsed. A panic of the daemon is a failure like any other. A log has each launch, each end of a run and
each delay that has elapsed, with the time. While the supervisor gets on, time passes, client ids are made
for other links, and other supervisors of the link act. The one thing that is asked of the timer is that
no delay elapses before its time.
-/

namespace TunnelIngress

/-- How a run of the daemon ends. A panic has a message if it carries a text. -/
inductive DaemonEnd where
  | exits
  | fails (error : DaemonError)
  | panics (message : Option String)
deriving DecidableEq

namespace DaemonEnd

/-- What a supervisor sees of it, which is an error also for a panic. -/
def result : DaemonEnd → Except DaemonError Unit
  | exits => .ok ()
  | fails error => .error error
  | panics message => .error (.panicked (message.getD "unknown panic"))

def outcome (ending : DaemonEnd) : DaemonOutcome :=
  match ending.result with
  | .ok _ => .exited
  | .error _ => .failed

theorem outcome_of_ne {ending : DaemonEnd} (failed : ending ≠ exits) : ending.outcome = .failed := by
  cases ending with
  | exits => exact absurd rfl failed
  | fails error => rfl
  | panics message => rfl

end DaemonEnd

/-- A delay is no shorter than its base. -/
theorem RepairDelay.base_le {base delay : Duration} {jitter sample : Float}
    (computed : (RepairDelay.new base jitter).delayFor? sample = some delay) : base.nanos ≤ delay.nanos := by
  obtain ⟨extra, _, sum⟩ := Option.bind_eq_some_iff.1 computed
  unfold Duration.add? Duration.ofNanos? at sum
  split at sum
  · cases sum
    exact Nat.le_add_right _ _
  · cases sum

/-! ### What is counted -/

/-- What an observation adds to the repairs of a host. -/
def Observation.repairs (host : String) : Observation → Nat
  | repair other => if host = other then 1 else 0
  | reconciliation .. | depth _ | requeue _ | linkStarted | linkStopped => 0

theorem Metrics.repairs_record (metrics : Metrics) (host : String) (seen : Observation) :
    (metrics.record seen).repairs.getD host 0 = metrics.repairs.getD host 0 + seen.repairs host := by
  cases seen with
  | repair other =>
    simp only [record, Table.count, Table.getD, Table.get?_insert, Observation.repairs]
    split
    · rename_i same
      rw [same, Option.getD_some]
    · rfl
  | reconciliation kind result seconds => rfl
  | depth depth => rfl
  | requeue outcome => rfl
  | linkStarted => rfl
  | linkStopped => rfl

theorem Metrics.repairs_foldl (metrics : Metrics) (host : String) (seen : List Observation) :
    (seen.foldl record metrics).repairs.getD host 0 =
      metrics.repairs.getD host 0 + (seen.map (·.repairs host)).sum := by
  induction seen generalizing metrics with
  | nil => rfl
  | cons first rest ih =>
    rw [List.foldl_cons, ih, repairs_record, List.map_cons, List.sum_cons, Nat.add_assoc]

/-! ### What goes on beside a supervisor -/

/-- An event of the link that is no stop and does not concern the supervisor. -/
def LinkEvent.Beside (index : Nat) : LinkEvent → Prop
  | start | stopped _ => True
  | stop => False
  | elapsed other | act other _ => other ≠ index

namespace LinkSession

variable {session later : LinkSession} {event : LinkEvent} {index : Nat} {act : SupervisorAct}
  {supervisor : Supervisor}

theorem spec_act (link : Link) (index : Nat) (act : SupervisorAct) :
    (link.act index act).spec = link.spec := by
  cases act with
  | launch => rfl
  | quit => rfl
  | connect =>
    simp only [Link.act, Link.connected]
    split <;> rfl
  | ended outcome delay =>
    simp only [Link.act, Link.daemonEnded]
    split
    · rfl
    · cases outcome <;> rfl

/-- An act of its own takes a supervisor on, and a delay that had elapsed is used up. -/
theorem step?_own (found : session.link.supervisor? index = some supervisor)
    (step : session.step? (.act index act) = some later) :
    supervisor.may (session.elapsed.contains index) act = true ∧
      later.link.supervisor? index = some (supervisor.after act) ∧
      later.link.state = session.link.state.after supervisor.quit act ∧
      later.link.spec = session.link.spec ∧ later.elapsed.contains index = false := by
  obtain ⟨actor, found', may, rfl⟩ := step?_act step
  obtain rfl : actor = supervisor := Option.some.inj (found'.symm.trans found)
  obtain ⟨_, state, supervisors⟩ := Link.act_spec found act
  exact ⟨may, (supervisors index).trans (if_pos rfl), state, spec_act .., by simp⟩

theorem step?_beside (found : session.link.supervisor? index = some supervisor)
    (beside : event.Beside index) (step : session.step? event = some later) :
    later.link.supervisor? index = some supervisor ∧ later.link.spec = session.link.spec ∧
      later.elapsed.contains index = session.elapsed.contains index := by
  cases event with
  | start =>
    cases step
    cases started : session.link.isStarted with
    | true =>
      rw [Link.start_of_started started]
      exact ⟨found, rfl, rfl⟩
    | false =>
      have old := Nat.ne_of_lt (Link.lt_of_found found)
      exact ⟨((Link.start_spec started).2.2 index).trans (by rw [if_neg old, found]),
        (Link.start_of_stopped started).1, rfl⟩
  | stop => exact beside.elim
  | stopped other =>
    obtain ⟨_, _, rfl⟩ := step?_stopped step
    exact ⟨found, rfl, rfl⟩
  | elapsed other =>
    obtain ⟨_, rfl⟩ := step?_elapsed step
    have ne : index ≠ other := Ne.symm beside
    exact ⟨found, rfl, by simp [ne]⟩
  | act other act =>
    obtain ⟨actor, found', _, rfl⟩ := step?_act step
    have ne : index ≠ other := Ne.symm beside
    refine ⟨((Link.act_spec found' act).2.2 index).trans (by rw [if_neg ne, found]), spec_act .., ?_⟩
    simp [List.contains_eq_mem, ne]

end LinkSession

/-! ### The log of a supervisor -/

/-- What one supervisor has done so far, each entry with its time in nanoseconds. -/
structure RepairLog where
  launches : List (Nat × Launch)
  ends : List (Nat × DaemonEnd)
  /-- When its delays had elapsed. -/
  elapsed : List Nat

namespace RepairLog

def empty : RepairLog :=
  { launches := [], ends := [], elapsed := [] }

/-- Where a supervisor stands, with the time when its delay will have elapsed. The flag tells that it has,
which the supervisor has yet to see. -/
inductive Stands (base : Nat) (log : RepairLog) : SupervisorPhase → Bool → Option Nat → Prop where
  | spawned (flag : Bool) (due : Option Nat) (new : log = empty) : Stands base log .spawned flag due
  | daemon (due : Option Nat) (launched : log.launches.length = log.ends.length + 1)
      (waited : log.elapsed.length = log.ends.length) (failed : ∀ one ∈ log.ends, one.2 ≠ .exits) :
      Stands base log .daemon false due
  | delayed (due : Nat) (before : List (Nat × DaemonEnd)) (last : Nat × DaemonEnd)
      (latest : log.ends = before ++ [last]) (waits : last.1 + base ≤ due)
      (launched : log.launches.length = log.ends.length)
      (waited : log.elapsed.length = before.length) (failed : ∀ one ∈ log.ends, one.2 ≠ .exits) :
      Stands base log .delay false (some due)
  | elapsed (launched : log.launches.length = log.ends.length)
      (waited : log.elapsed.length = log.ends.length) (failed : ∀ one ∈ log.ends, one.2 ≠ .exits) :
      Stands base log .delay true none
  | ended (flag : Bool) (due : Option Nat) (launched : log.launches.length = log.elapsed.length + 1) :
      Stands base log .ended flag due

/-- A delay began with a failure, and it had elapsed no earlier than a base delay after that. -/
def Waited (base : Nat) (log : RepairLog) (k moment : Nat) : Prop :=
  ∃ failed ending, log.ends[k]? = some (failed, ending) ∧ ending ≠ .exits ∧
    log.elapsed[k]? = some moment ∧ failed + base ≤ moment

/-- Each delay began with a failure, and each launch but the first comes after a delay. -/
structure Ordered (base : Nat) (log : RepairLog) (now : Nat) : Prop where
  waited : ∀ k moment, log.elapsed[k]? = some moment → log.Waited base k moment ∧ moment ≤ now
  relaunched : ∀ k time launch, log.launches[k + 1]? = some (time, launch) →
    ∃ moment, log.Waited base k moment ∧ moment ≤ time

variable {base now later : Nat} {log : RepairLog} {phase : SupervisorPhase} {flag : Bool} {due : Option Nat}

theorem getElem?_of_prefix {α : Type} {list longer : List α} {found : α} {k : Nat}
    (start : list <+: longer) (hit : list[k]? = some found) : longer[k]? = some found := by
  obtain ⟨inside, rfl⟩ := List.getElem?_eq_some_iff.1 hit
  exact List.prefix_iff_getElem?.1 start k inside

theorem getElem?_snoc {α : Type} {list : List α} {last found : α} {k : Nat}
    (hit : (list ++ [last])[k]? = some found) : list[k]? = some found ∨ k = list.length ∧ found = last := by
  rcases Nat.lt_trichotomy k list.length with inside | rfl | beyond
  · exact .inl ((List.getElem?_append_left inside).symm.trans hit)
  · exact .inr ⟨rfl, by simpa using hit.symm⟩
  · have outside : (list ++ [last]).length ≤ k := by rwa [List.length_append]
    rw [List.getElem?_eq_none outside] at hit
    cases hit

theorem Waited.mono {longer : RepairLog} {k moment : Nat} (waited : log.Waited base k moment)
    (ends : log.ends <+: longer.ends) (elapsed : log.elapsed <+: longer.elapsed) :
    longer.Waited base k moment := by
  obtain ⟨failed, ending, ended, failure, passed, enough⟩ := waited
  exact ⟨failed, ending, getElem?_of_prefix ends ended, failure, getElem?_of_prefix elapsed passed,
    enough⟩

theorem Ordered.mono (ordered : log.Ordered base now) (passed : now ≤ later) : log.Ordered base later where
  waited k moment hit := ⟨(ordered.waited k moment hit).1, (ordered.waited k moment hit).2.trans passed⟩
  relaunched := ordered.relaunched

/-! ### What is added to a log -/

def launched (log : RepairLog) (now : Nat) (launch : Launch) : RepairLog :=
  { log with launches := log.launches ++ [(now, launch)] }

def finished (log : RepairLog) (now : Nat) (ending : DaemonEnd) : RepairLog :=
  { log with ends := log.ends ++ [(now, ending)] }

def lapsed (log : RepairLog) (now : Nat) : RepairLog :=
  { log with elapsed := log.elapsed ++ [now] }

theorem Ordered.finish (ordered : log.Ordered base now) (ending : DaemonEnd) :
    (log.finished now ending).Ordered base now where
  waited k moment hit := (ordered.waited k moment hit).imp_left
    (·.mono (List.prefix_append _ _) List.prefix_rfl)
  relaunched k time launch hit := (ordered.relaunched k time launch hit).imp fun _ =>
    And.imp_left (·.mono (List.prefix_append _ _) List.prefix_rfl)

/-- The first launch needs nothing, and each later one a delay that has elapsed. -/
theorem Stands.launch (stands : log.Stands base phase flag due) (ordered : log.Ordered base now)
    (may : phase = .spawned ∨ phase = .delay ∧ flag = true) (launch : Launch) :
    (log.launched now launch).Stands base .daemon false due ∧ (log.launched now launch).Ordered base now := by
  have one_more : (log.launched now launch).launches.length = log.launches.length + 1 :=
    List.length_append
  have still {k moment : Nat} (waited : log.Waited base k moment) :
      (log.launched now launch).Waited base k moment := waited.mono List.prefix_rfl List.prefix_rfl
  cases stands with
  | spawned flag due new =>
    subst new
    refine ⟨.daemon _ rfl rfl (fun _ mem => nomatch mem), fun k moment hit => ?_, fun k time later hit => ?_⟩
    · cases hit
    · cases hit
  | elapsed equally waited failed =>
    refine ⟨.daemon _ (one_more.trans (congrArg (· + 1) equally)) waited failed,
      fun k moment hit => (ordered.waited k moment hit).imp_left still, fun k time later hit => ?_⟩
    rcases getElem?_snoc hit with before | ⟨last, same⟩
    · exact (ordered.relaunched k time later before).imp fun _ => And.imp_left still
    · -- The delay before this launch is the latest one.
      cases same
      have inside : k < log.elapsed.length := by omega
      exact ⟨_, (ordered.waited k _ (List.getElem?_eq_getElem inside)).imp_left still⟩
  | daemon | delayed | ended => simp at may

theorem Stands.unflagged (stands : log.Stands base .daemon flag due) : log.Stands base .daemon false due := by
  cases stands with
  | daemon due launched waited failed => exact .daemon due launched waited failed

theorem Stands.fail (stands : log.Stands base .daemon flag due) {ending : DaemonEnd}
    (failure : ending ≠ .exits) {wait : Nat} (enough : base ≤ wait) :
    (log.finished now ending).Stands base .delay false (some (now + wait)) := by
  cases stands with
  | daemon due launched waited failed =>
    refine .delayed _ log.ends (now, ending) rfl (Nat.add_le_add_left enough now) ?_ waited ?_
    · simp [finished, launched]
    · simpa [finished, or_imp, forall_and, failure] using failed

theorem Stands.exit (stands : log.Stands base .daemon flag due) :
    (log.finished now .exits).Stands base .ended false due := by
  cases stands with
  | daemon due launched waited failed => exact .ended _ _ (by simp [finished, launched, waited])

theorem Stands.elapse {time : Nat} (stands : log.Stands base .delay flag (some time))
    (ordered : log.Ordered base now) (reached : time ≤ now) :
    (log.lapsed now).Stands base .delay true none ∧ (log.lapsed now).Ordered base now := by
  cases stands with
  | delayed due before last latest waits launched waited failed =>
    have still {k moment : Nat} (waited : log.Waited base k moment) :
        (log.lapsed now).Waited base k moment := waited.mono List.prefix_rfl (List.prefix_append _ _)
    have long : last.1 + base ≤ now := waits.trans reached
    refine ⟨.elapsed launched ?_ failed, fun k moment hit => ?_, fun k time launch hit => ?_⟩
    · simp [lapsed, latest, waited]
    · rcases getElem?_snoc hit with hit | ⟨rfl, rfl⟩
      · exact (ordered.waited k moment hit).imp_left still
      · refine ⟨⟨last.1, last.2, ?_, failed last (by simp [latest]), ?_, long⟩, Nat.le_refl _⟩
        · simp [lapsed, latest, waited]
        · simp [lapsed]
    · exact (ordered.relaunched k time launch hit).imp fun _ => And.imp_left still

/-- Every run that was launched has its account. -/
theorem Stands.launches (stands : log.Stands base phase flag due) {supervisor : Supervisor}
    (here : supervisor.phase = phase) :
    log.launches.length + (if supervisor.may flag .launch then 1 else 0) = log.elapsed.length + 1 := by
  subst here
  unfold Supervisor.may
  generalize supervisor.phase = phase at stands
  cases stands with
  | spawned flag due new => simp [new, empty]
  | daemon due launched waited failed => simp [launched, waited]
  | delayed due before last latest waits launched waited failed => simp [launched, waited, latest]
  | elapsed launched waited failed => simp [launched, waited]
  | ended flag due launched => simp [launched]

end RepairLog

/-! ### What a supervisor goes through -/

/-- A link and one of its supervisors in time, in nanoseconds. -/
structure RepairHistory where
  session : LinkSession
  metrics : Metrics
  now : Nat
  /-- When the latest delay has elapsed, until it has. -/
  due : Option Nat
  /-- All client ids that were ever made. -/
  ids : List String
  log : RepairLog
  /-- The repairs of the same host that others have counted. -/
  elsewhere : Nat

namespace RepairHistory

/-- A link is started that was not, so it has a new supervisor. -/
def start (session : LinkSession) (metrics : Metrics) (now : Nat) (ids : List String) : RepairHistory :=
  { session := { session with link := session.link.start.1 }
    metrics, now, due := none, ids, log := .empty, elsewhere := 0 }

def host (history : RepairHistory) : String :=
  history.session.link.spec.host

/-- Something comes to the link, and is counted. -/
def came (history : RepairHistory) (event : LinkEvent) (session : LinkSession) : RepairHistory :=
  { history with session, metrics := (history.session.seen event).foldl .record history.metrics }

/-- A supervisor gets on, or something else goes on. No client id is made twice, no delay elapses before
its time, and after a failure there is a delay that can be computed. -/
inductive Step (settings : TunnelSettings) (index : Nat) (history : RepairHistory) :
    RepairHistory → Prop where
  | passed (nanos : Nat) : Step settings index history { history with now := history.now + nanos }
  | made (id : String) (fresh : id ∉ history.ids) :
      Step settings index history { history with ids := history.ids ++ [id] }
  | counted (seen : Observation) :
      Step settings index history
        { history with
          metrics := history.metrics.record seen
          elsewhere := history.elsewhere + seen.repairs history.host }
  | beside (event : LinkEvent) (other : event.Beside index) (session : LinkSession)
      (step : history.session.step? event = some session) :
      Step settings index history
        { history.came event session with
          elsewhere := history.elsewhere +
            ((history.session.seen event).map (·.repairs history.host)).sum }
  | launched (id : String) (fresh : id ∉ history.ids) (session : LinkSession)
      (step : history.session.step? (.act index .launch) = some session) :
      Step settings index history
        { history.came (.act index .launch) session with
          ids := history.ids ++ [id]
          log := history.log.launched history.now (history.session.link.spec.launch settings id) }
  | connected (session : LinkSession)
      (step : history.session.step? (.act index .connect) = some session) :
      Step settings index history (history.came (.act index .connect) session)
  | exited (session : LinkSession)
      (step : history.session.step? (.act index (.ended DaemonEnd.exits.outcome none)) = some session) :
      Step settings index history
        { history.came (.act index (.ended DaemonEnd.exits.outcome none)) session with
          log := history.log.finished history.now .exits }
  | failed (ending : DaemonEnd) (failure : ending ≠ .exits) (sample : Float) (delay : Duration)
      (computed : (RepairDelay.new settings.repairDelay settings.repairJitter).delayFor? sample = some delay)
      (session : LinkSession)
      (step : history.session.step? (.act index (.ended ending.outcome (some delay))) = some session) :
      Step settings index history
        { history.came (.act index (.ended ending.outcome (some delay))) session with
          due := some (history.now + delay.nanos)
          log := history.log.finished history.now ending }
  | elapsed (due : Nat) (planned : history.due = some due) (reached : due ≤ history.now)
      (session : LinkSession) (step : history.session.step? (.elapsed index) = some session) :
      Step settings index history
        { history.came (.elapsed index) session with
          due := none
          log := history.log.lapsed history.now }

abbrev Leads (settings : TunnelSettings) (index : Nat) : RepairHistory → RepairHistory → Prop :=
  Relation.ReflTransGen (Step settings index)

/-- A client id that was made for a launch was not there before, and all else is as the link has it. -/
structure Fresh (settings : TunnelSettings) (history first : RepairHistory) : Prop where
  spec : history.session.link.spec = first.session.link.spec
  known : ∀ id ∈ first.ids, id ∈ history.ids
  made : ∀ entry ∈ history.log.launches, entry.2.clientId ∈ history.ids ∧ entry.2.clientId ∉ first.ids ∧
    entry.2 = first.session.link.spec.launch settings entry.2.clientId
  once : (history.log.launches.map (·.2.clientId)).Nodup

/-- What holds of a supervisor that is not asked to quit. -/
structure Sound (settings : TunnelSettings) (index : Nat) (history first : RepairHistory) : Prop where
  fresh : history.Fresh settings first
  stands : ∃ supervisor, history.session.link.supervisor? index = some supervisor ∧
    supervisor.quit = false ∧ history.log.Stands settings.repairDelay.nanos supervisor.phase
      (history.session.elapsed.contains index) history.due
  ordered : history.log.Ordered settings.repairDelay.nanos history.now
  counted : history.metrics.repairs.getD first.host 0 = first.metrics.repairs.getD first.host 0 +
    history.log.ends.countP (·.2 ≠ .exits) + history.elsewhere

variable {settings : TunnelSettings} {index : Nat} {first history later : RepairHistory}
  {session : LinkSession} {event : LinkEvent}

theorem came_repairs (history : RepairHistory) (event : LinkEvent) (session : LinkSession) (host : String) :
    (history.came event session).metrics.repairs.getD host 0 = history.metrics.repairs.getD host 0 +
      ((history.session.seen event).map (·.repairs host)).sum :=
  history.metrics.repairs_foldl host _

theorem Fresh.keep (fresh : history.Fresh settings first)
    (spec : later.session.link.spec = history.session.link.spec) (ids : history.ids <+: later.ids)
    (launches : later.log.launches = history.log.launches) :
    later.Fresh settings first where
  spec := spec.trans fresh.spec
  known id mem := ids.subset (fresh.known id mem)
  made entry mem := (fresh.made entry (launches ▸ mem)).imp_left fun known => ids.subset known
  once := launches ▸ fresh.once

theorem Fresh.launch (fresh : history.Fresh settings first) {id : String} (new : id ∉ history.ids)
    (spec : later.session.link.spec = history.session.link.spec) (ids : later.ids = history.ids ++ [id])
    (log : later.log = history.log.launched history.now (history.session.link.spec.launch settings id)) :
    later.Fresh settings first where
  spec := spec.trans fresh.spec
  known other mem := ids ▸ List.mem_append_left _ (fresh.known other mem)
  made entry mem := by
    rw [log] at mem
    rcases List.mem_append.1 mem with mem | mem
    · exact (fresh.made entry mem).imp_left fun known => ids ▸ List.mem_append_left _ known
    · obtain rfl := List.mem_singleton.1 mem
      refine ⟨?_, fun known => new (fresh.known id known), by rw [fresh.spec]; rfl⟩
      simp [ids, LinkSpec.launch]
  once := by
    rw [log, RepairLog.launched, List.map_append, List.nodup_append]
    refine ⟨fresh.once, List.nodup_singleton _, fun other mem last here => ?_⟩
    obtain ⟨entry, mem', rfl⟩ := List.mem_map.1 mem
    obtain rfl : last = id := by simpa [LinkSpec.launch] using here
    intro same
    exact new (same ▸ (fresh.made entry mem').1)

/-- A clean exit is not counted, and a failure is one repair. -/
theorem seen_ended {supervisor : Supervisor} (found : session.link.supervisor? index = some supervisor)
    (awake : supervisor.quit = false) (ending : DaemonEnd) (delay : Option Duration) :
    session.seen (.act index (.ended ending.outcome delay)) =
      if ending = .exits then [] else [.repair session.link.spec.host] := by
  have asked : session.link.quitting index = false := by simp [Link.quitting, found, awake]
  simp only [LinkSession.seen, Link.daemonEnded, asked, Bool.false_eq_true, if_false]
  cases ending <;> rfl

theorem Sound.count_ended (sound : history.Sound settings index first) {supervisor : Supervisor}
    (found : history.session.link.supervisor? index = some supervisor) (awake : supervisor.quit = false)
    (ending : DaemonEnd) (delay : Option Duration) (session : LinkSession) :
    (history.came (.act index (.ended ending.outcome delay)) session).metrics.repairs.getD first.host 0 =
      first.metrics.repairs.getD first.host 0 +
        (history.log.finished history.now ending).ends.countP (·.2 ≠ .exits) + history.elsewhere := by
  have host : history.session.link.spec.host = first.host := congrArg LinkSpec.host sound.fresh.spec
  rw [came_repairs, seen_ended found awake, sound.counted, RepairLog.finished, List.countP_append]
  by_cases clean : ending = .exits
  · simp [clean]
  · have one : [(history.now, ending)].countP (·.2 ≠ .exits) = 1 := by simp [clean]
    rw [if_neg clean, one, List.map_singleton, List.sum_singleton, Observation.repairs, if_pos host.symm]
    omega

theorem Sound.step (sound : history.Sound settings index first) (step : history.Step settings index later) :
    later.Sound settings index first := by
  obtain ⟨supervisor, found, awake, stands⟩ := sound.stands
  have fresh := sound.fresh
  have host : history.host = first.host := congrArg LinkSpec.host fresh.spec
  cases step with
  | passed nanos =>
    exact ⟨fresh.keep rfl List.prefix_rfl rfl, ⟨supervisor, found, awake, stands⟩,
      sound.ordered.mono (Nat.le_add_right _ _), sound.counted⟩
  | made id new =>
    exact ⟨fresh.keep rfl (List.prefix_append _ _) rfl, ⟨supervisor, found, awake, stands⟩, sound.ordered,
      sound.counted⟩
  | counted seen =>
    refine ⟨fresh.keep rfl List.prefix_rfl rfl, ⟨supervisor, found, awake, stands⟩, sound.ordered, ?_⟩
    rw [Metrics.repairs_record, sound.counted, host, Nat.add_assoc]
  | beside event other session step =>
    obtain ⟨still, spec, flag⟩ := LinkSession.step?_beside found other step
    refine ⟨fresh.keep spec List.prefix_rfl rfl, ⟨supervisor, still, awake, flag ▸ stands⟩, sound.ordered,
      ?_⟩
    have counted := history.came_repairs event session first.host
    rw [sound.counted, Nat.add_assoc] at counted
    rw [host]
    exact counted
  | launched id new session step =>
    obtain ⟨may, next, _, spec, flag⟩ := LinkSession.step?_own found step
    have waits : supervisor.phase = .spawned ∨ supervisor.phase = .delay ∧
        history.session.elapsed.contains index = true := by
      simpa [Supervisor.may] using may
    obtain ⟨stands, ordered⟩ :=
      stands.launch sound.ordered waits (history.session.link.spec.launch settings id)
    exact ⟨fresh.launch new spec rfl rfl, ⟨_, next, awake, flag ▸ stands⟩, ordered, sound.counted⟩
  | connected session step =>
    obtain ⟨may, next, _, spec, flag⟩ := LinkSession.step?_own found step
    have running : supervisor.phase = .daemon := by simpa [Supervisor.may] using may
    have stands : history.log.Stands settings.repairDelay.nanos supervisor.phase
        (session.elapsed.contains index) history.due := by
      rw [running] at stands ⊢
      exact flag ▸ stands.unflagged
    exact ⟨fresh.keep spec List.prefix_rfl rfl, ⟨_, next, awake, stands⟩, sound.ordered, sound.counted⟩
  | exited session step =>
    obtain ⟨may, next, _, spec, flag⟩ := LinkSession.step?_own found step
    have running : supervisor.phase = .daemon := by simpa [Supervisor.may] using may
    rw [running] at stands
    exact ⟨fresh.keep spec List.prefix_rfl rfl,
      ⟨_, next, (supervisor.quit_after _).trans awake, flag ▸ stands.exit⟩, sound.ordered.finish .exits,
      sound.count_ended found awake .exits none session⟩
  | failed ending failure sample delay computed session step =>
    obtain ⟨may, next, _, spec, flag⟩ := LinkSession.step?_own found step
    have running : supervisor.phase = .daemon := by simpa [Supervisor.may] using may
    rw [running] at stands
    have waits : supervisor.after (.ended ending.outcome (some delay)) =
        { supervisor with phase := .delay } := by
      simp [DaemonEnd.outcome_of_ne failure, Supervisor.after, awake]
    rw [waits] at next
    exact ⟨fresh.keep spec List.prefix_rfl rfl,
      ⟨_, next, awake, flag ▸ stands.fail failure (RepairDelay.base_le computed)⟩,
      sound.ordered.finish ending, sound.count_ended found awake ending (some delay) session⟩
  | elapsed due planned reached session step =>
    obtain ⟨waits, rfl⟩ := LinkSession.step?_elapsed step
    have waits : supervisor.phase = .delay := by simpa [Link.phase?, found] using waits
    rw [waits, planned] at stands
    obtain ⟨stands, ordered⟩ := stands.elapse sound.ordered reached
    have flag : (index :: history.session.elapsed).contains index = true := by simp
    exact ⟨fresh.keep rfl List.prefix_rfl rfl, ⟨supervisor, found, awake, waits ▸ flag ▸ stands⟩, ordered,
      sound.counted⟩

theorem Sound.leads (sound : history.Sound settings index first) (leads : history.Leads settings index later) :
    later.Sound settings index first := by
  induction leads with
  | refl => exact sound
  | tail _ step ih => exact ih.step step

theorem sound_start (settings : TunnelSettings) {ids : List String} {metrics : Metrics} {now : Nat}
    (stopped : session.link.isStarted = false) :
    (start session metrics now ids).Sound settings session.link.supervisors.length
      (start session metrics now ids) where
  fresh := ⟨rfl, fun _ mem => mem, fun _ mem => (nomatch mem), List.nodup_nil⟩
  stands := ⟨⟨.spawned, false⟩, ((Link.start_spec stopped).2.2 _).trans (if_pos rfl), rfl, .spawned _ _ rfl⟩
  ordered := ⟨fun k moment hit => by simp [start, RepairLog.empty] at hit,
    fun k time launch hit => by simp [start, RepairLog.empty] at hit⟩
  counted := rfl

/-- A supervisor that has ended stays as it is. -/
def Over (index : Nat) (history : RepairHistory) : Prop :=
  ∃ supervisor, history.session.link.supervisor? index = some supervisor ∧ supervisor.phase = .ended

theorem Over.step (ended : history.Over index) (step : history.Step settings index later) :
    later.Over index ∧ later.log = history.log := by
  obtain ⟨supervisor, found, phase⟩ := ended
  have idle {act : SupervisorAct} {next : LinkSession}
      (step : history.session.step? (.act index act) = some next) : False := by
    have alive := Supervisor.alive_of_may (LinkSession.step?_own found step).1
    simp [Supervisor.alive, phase] at alive
  cases step with
  | passed nanos => exact ⟨⟨supervisor, found, phase⟩, rfl⟩
  | made id new => exact ⟨⟨supervisor, found, phase⟩, rfl⟩
  | counted seen => exact ⟨⟨supervisor, found, phase⟩, rfl⟩
  | beside event other session step =>
    exact ⟨⟨supervisor, (LinkSession.step?_beside found other step).1, phase⟩, rfl⟩
  | launched id new session step => exact (idle step).elim
  | connected session step => exact (idle step).elim
  | exited session step => exact (idle step).elim
  | failed ending failure sample delay computed session step => exact (idle step).elim
  | elapsed due planned reached session step =>
    obtain ⟨waits, _⟩ := LinkSession.step?_elapsed step
    simp [Link.phase?, found, phase] at waits

theorem Over.leads (ended : history.Over index) (leads : history.Leads settings index later) :
    later.Over index ∧ later.log = history.log := by
  induction leads with
  | refl => exact ⟨ended, rfl⟩
  | tail _ step ih =>
    obtain ⟨still, same⟩ := ih.1.step step
    exact ⟨still, same.trans ih.2⟩

/-- The only step that writes down a clean exit. -/
theorem Step.exit (step : history.Step settings index later)
    (clean : later.log = history.log.finished history.now .exits)
    {supervisor : Supervisor} (found : history.session.link.supervisor? index = some supervisor) :
    later.session.link.state = .stopped ∧ later.Over index := by
  have longer : later.log.ends.length = history.log.ends.length + 1 := by
    simp [clean, RepairLog.finished]
  cases step with
  | exited session step =>
    obtain ⟨_, next, state, _⟩ := LinkSession.step?_own found step
    exact ⟨state, _, next, rfl⟩
  | failed ending failure sample delay computed session step =>
    have last : (history.now, ending) = (history.now, .exits) := by
      simpa [RepairLog.finished] using clean
    exact absurd (congrArg Prod.snd last) failure
  | passed | made | counted | beside | launched | connected | elapsed =>
    exact absurd longer (Nat.ne_of_lt (Nat.lt_succ_self _))

/-- A supervisor is about to launch the daemon. -/
def launching (history : RepairHistory) (index : Nat) : Bool :=
  (history.session.link.supervisor? index).any
    (·.may (history.session.elapsed.contains index) .launch)

/-- Nothing else is needed for the launch. -/
theorem can_launch (launching : history.launching index = true) {id : String} (fresh : id ∉ history.ids) :
    ∃ later, history.Step settings index later ∧
      later.log = history.log.launched history.now (history.session.link.spec.launch settings id) :=
  ⟨_, .launched id fresh _ (if_pos launching), rfl⟩

/-- **Every repair is accounted for.** A supervisor that nobody stops launches its daemon once, and once
more for each delay that has elapsed; a launch that is due is the next thing it can do. The counter of the
host has one repair more for each run that failed, besides those that others count. Each launch but the
first comes after a failure, by the base delay at least, and each has a client id that was never used and is
otherwise as the link has it. A clean exit stops the link and ends the supervisor, and that is the last of
it. -/
theorem accounted (settings : TunnelSettings) (session : LinkSession) (metrics : Metrics) (now : Nat)
    (ids : List String) (stopped : session.link.isStarted = false) {history : RepairHistory}
    (leads : (start session metrics now ids).Leads settings session.link.supervisors.length history) :
    let index := session.link.supervisors.length
    let spec := session.link.spec
    history.log.launches.length + (if history.launching index then 1 else 0) =
      history.log.elapsed.length + 1 ∧
    (history.launching index = true → ∀ id ∉ history.ids, ∃ later, history.Step settings index later ∧
      later.log = history.log.launched history.now (spec.launch settings id)) ∧
    history.metrics.repairs.getD spec.host 0 = metrics.repairs.getD spec.host 0 +
      history.log.ends.countP (·.2 ≠ .exits) + history.elsewhere ∧
    (∀ k time launch, history.log.launches[k + 1]? = some (time, launch) →
      ∃ moment, history.log.Waited settings.repairDelay.nanos k moment ∧ moment ≤ time) ∧
    (history.log.launches.map (·.2.clientId)).Nodup ∧
    (∀ entry ∈ history.log.launches, entry.2.clientId ∉ ids ∧
      entry.2 = spec.launch settings entry.2.clientId) ∧
    ∀ ended, history.Step settings index ended → ended.log = history.log.finished history.now .exits →
      ended.session.link.state = .stopped ∧ ended.session.link.alive index = false ∧
        ∀ later, ended.Leads settings index later →
          later.log = ended.log ∧ later.session.link.alive index = false := by
  intro index spec
  have sound := (sound_start settings stopped).leads leads
  have same : (start session metrics now ids).session.link.spec = spec :=
    (Link.start_of_stopped stopped).1
  obtain ⟨supervisor, found, awake, stands⟩ := sound.stands
  have unchanged : history.session.link.spec = spec := sound.fresh.spec.trans same
  refine ⟨?_, fun launching id fresh => unchanged ▸ can_launch launching fresh, ?_, sound.ordered.relaunched,
    sound.fresh.once, fun entry mem => ?_, fun ended step clean => ?_⟩
  · have launches := stands.launches rfl
    simpa [launching, index, found] using launches
  · have counted := sound.counted
    rw [host, same] at counted
    exact counted
  · have made := (sound.fresh.made entry mem).2
    rwa [same] at made
  · have dead {history : RepairHistory} (ended : history.Over index) :
        history.session.link.alive index = false := by
      obtain ⟨supervisor, found, phase⟩ := ended
      simp [Link.alive, found, Supervisor.alive, phase]
    obtain ⟨state, ended⟩ := step.exit clean found
    refine ⟨state, dead ended, fun later leads => ?_⟩
    obtain ⟨still, same⟩ := ended.leads leads
    exact ⟨same, dead still⟩

/-- The link of a site, not started yet. -/
def siteLink : LinkSession :=
  .new (.new {} { host := "shop.example", port := 80, service := ⟨"shop", "web"⟩, secret := none } [] {})

/-- A daemon that fails at once, panics 25 s after it is launched again, and then exits by itself. -/
theorem accounted_site : ∃ history, (start siteLink .zero 0 ["other"]).Leads {} 0 history ∧
    history.log.ends = [(0, .fails (.exited "exit status: 1")), (55000000000, .panics none),
      (75000000000, .exits)] ∧
    history.log.launches.length = history.log.elapsed.length + 1 ∧
    history.metrics.repairs.getD "shop.example" 0 = 2 := by
  have half : (RepairDelay.new (TunnelSettings.repairDelay {}) 1.0).delayFor? 0.5 =
      some ⟨30000000000, by decide⟩ := by decide +kernel
  have shortest : (RepairDelay.new (TunnelSettings.repairDelay {}) 1.0).delayFor? 0.0 =
      some ⟨20000000000, by decide⟩ := by decide +kernel
  have leads := Relation.ReflTransGen.refl (r := Step {} 0) (a := start siteLink .zero 0 ["other"])
    |>.tail (.launched "first" (by decide) _ rfl)
    |>.tail (.connected _ rfl)
    |>.tail (.failed (.fails (.exited "exit status: 1")) (by decide) 0.5 _ half _ rfl)
    |>.tail (.passed 30000000000)
    |>.tail (.elapsed _ rfl (Nat.le_refl _) _ rfl)
    |>.tail (.launched "second" (by decide) _ rfl)
    |>.tail (.passed 25000000000)
    |>.tail (.failed (.panics none) (by decide) 0.0 _ shortest _ rfl)
    |>.tail (.passed 20000000000)
    |>.tail (.elapsed _ rfl (Nat.le_refl _) _ rfl)
    |>.tail (.launched "third" (by decide) _ rfl)
    |>.tail (.exited _ rfl)
  obtain ⟨launches, _, counted, _⟩ := accounted {} siteLink .zero 0 ["other"] rfl leads
  exact ⟨_, leads, rfl, launches, counted⟩

end RepairHistory

end TunnelIngress
