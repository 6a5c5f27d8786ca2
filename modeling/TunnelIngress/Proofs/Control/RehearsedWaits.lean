import TunnelIngress.Proofs.Control.QueueWaits
import TunnelIngress.Rehearsal.Work
import Mathlib.Logic.Function.Basic

/-!
# Rehearsed waits

In a rehearsal whoever changes the queue wakes others at once, and whoever asks for an item looks at once.
Each of these comes to a few steps of the callers with nobody in between, so what holds of a queue under
every order of these steps holds of a rehearsed one.
-/

namespace TunnelIngress

namespace GetterSession

variable {State α : Type} [DecidableEq α] {notifier : Notifier State α} {session : GetterSession State α}
  {who : α}

theorem put_put (session : GetterSession State α) (who : α) (first phase : GetterPhase) :
    (session.put who first).put who phase = session.put who phase := by
  simp only [put, GetterSession.mk.injEq, true_and]
  refine ⟨?_, trivial⟩
  funext other
  split <;> rfl

/-- Whoever has come looks, and nobody comes in between. -/
theorem leads_looked (session : GetterSession State α) {notify : State} {permitted : Bool}
    (enrolls : notifier.enroll session.notify who = (notify, permitted)) {queue : WorkQueue}
    {answer : WorkQueue.Answer} (took : session.queue.take = (queue, answer)) {awake : List α}
    (looks : session.awake.erase who = awake) :
    Leads notifier (session.put who .arriving)
      (if answer = .nothing then
        { session with notify, awake }.put who (if permitted then .arriving else .waiting)
      else
        { session with queue, notify := notifier.leave notify who, awake }.put who .away) := by
  subst looks
  let enrolled := { session with notify }.put who (.enrolled permitted)
  have stands : enrolled.phases who = .enrolled permitted := if_pos rfl
  have comes : Step notifier (session.put who .arriving)
      (({ session with notify }.put who .arriving).put who (.enrolled permitted)) :=
    .enrolled who (if_pos rfl) notify permitted enrolls
  rw [put_put] at comes
  split
  · rename_i nothing
    subst nothing
    let looked := { session with notify, awake := session.awake.erase who }
    have none : enrolled.queue.take.2 = .nothing := congrArg Prod.snd took
    rw [← put_put looked who (.enrolled permitted)]
    refine .tail (.single comes) ?_
    cases permitted with
    | true => exact .retried who stands none
    | false => exact .waited who stands none
  · rename_i answered
    let found := { enrolled with queue, awake := enrolled.awake.erase who }.put who .leaving
    let left := { session with
      queue, notify := notifier.leave notify who, awake := session.awake.erase who }
    have finds : Step notifier enrolled found :=
      .found who permitted stands queue answer took answered
    have leaves : Step notifier found _ := .returned who (if_pos rfl)
    rw [← put_put left who (.enrolled permitted), ← put_put (left.put who (.enrolled permitted)) who .leaving]
    exact .tail (.tail (.single comes) finds) leaves

end GetterSession

namespace World

open GetterSession (Step Leads)

/-- The callers of a rehearsed queue between two turns: some wait, and the others are away. -/
def callers (world : World) (asleep : Actor → Bool) : GetterSession (Wakeup Actor) Actor :=
  { queue := world.queue
    notify := world.wakeup
    phases := fun actor => if asleep actor then .waiting else .away
    awake := []
    owed := 0
    closing := 0 }

variable {world later : World} {asleep : Actor → Bool} {actor : Actor} {queue : WorkQueue}

theorem callers_congr (queue : later.queue = world.queue) (wakeup : later.wakeup = world.wakeup) :
    later.callers asleep = world.callers asleep := by
  simp only [callers, queue, wakeup]

theorem wake_line (world : World) (actor : Actor) :
    (world.wake actor).queue = world.queue ∧ (world.wake actor).wakeup = world.wakeup := by
  cases actor <;> exact ⟨rfl, rfl⟩

theorem callers_wake (world : World) (actor : Actor) :
    (world.wake actor).callers asleep = world.callers asleep :=
  callers_congr (world.wake_line actor).1 (world.wake_line actor).2

theorem callers_wakeAll (world : World) (actors : List Actor) :
    (actors.foldl wake world).callers asleep = world.callers asleep := by
  induction actors generalizing world with
  | nil => rfl
  | cons first rest ih => exact (ih (world.wake first)).trans (world.callers_wake first)

theorem callers_notifyOne (world : World) : world.notifyOne.callers asleep =
    { world.callers asleep with notify := world.wakeup.wakeOne.1 } := by
  unfold notifyOne
  dsimp only
  split
  · rfl
  · exact callers_wake _ _

/-! ### Changes of the queue -/

/-- An item may enter the queue, and if it does then somebody is woken. -/
theorem leads_entered (entered : Bool)
    (step : Step Wakeup.notifier (world.callers asleep)
      { world.callers asleep with queue, owed := 0 + entered.toNat }) :
    Leads Wakeup.notifier (world.callers asleep)
      ((if entered then (world.setQueue queue).notifyOne else world.setQueue queue).callers asleep) := by
  cases entered with
  | false => exact .single step
  | true =>
    rw [if_pos rfl, callers_notifyOne]
    exact .tail (.single step) (.notified 0 rfl)

theorem leads_addItem (item : String) :
    Leads Wakeup.notifier (world.callers asleep) ((world.addItem item).callers asleep) :=
  leads_entered _ (.added item)

theorem leads_finishItem (item : String) :
    Leads Wakeup.notifier (world.callers asleep) ((world.finishItem item).callers asleep) :=
  leads_entered _ (.finished item)

theorem leads_closeQueue :
    Leads Wakeup.notifier (world.callers asleep) (world.closeQueue.callers asleep) := by
  unfold closeQueue
  dsimp only
  rw [callers_wakeAll]
  exact .tail (.single .closed) (.released 0 rfl)

/-! ### Those who ask -/

theorem put_callers (phase : GetterPhase) (waits : Bool)
    (stands : phase = if waits then .waiting else .away) :
    (world.callers asleep).put actor phase = world.callers (Function.update asleep actor waits) := by
  simp only [callers, GetterSession.put, GetterSession.mk.injEq, true_and]
  refine ⟨?_, trivial⟩
  funext other
  rw [Function.update_apply]
  split
  · exact stands
  · rfl

theorem leads_leaveLine (waits : asleep actor = true) :
    Leads Wakeup.notifier (world.callers asleep)
      ((world.leaveLine actor).callers (Function.update asleep actor false)) := by
  have quits : Step Wakeup.notifier (world.callers asleep)
      ({ world with wakeup := (world.wakeup.leave actor).1 }.callers
        (Function.update asleep actor false)) := by
    rw [← put_callers .away false rfl]
    exact .quit actor (if_pos waits)
  unfold leaveLine
  dsimp only
  split
  · exact .single quits
  · rw [callers_wake]
    exact .single quits

/-- Whoever asks comes to look: for the first time, or because it was woken. -/
theorem leads_arriving (registered : (world.callers asleep).Registered Wakeup.notifier)
    (may : asleep actor = true → actor ∉ world.wakeup.waiting) :
    ∃ awake : List Actor, awake.erase actor = [] ∧
      Leads Wakeup.notifier (world.callers asleep)
        ({ { world with wakeup := world.wakeup.consume actor }.callers asleep with awake }.put actor
          .arriving) := by
  cases waits : asleep actor with
  | true =>
    refine ⟨[actor], by simp, .single ?_⟩
    exact .woke actor (if_pos waits) (may waits)
  | false =>
    have away : (world.callers asleep).phases actor = .away := if_neg (by simp [waits])
    have unwoken : actor ∉ world.wakeup.woken := by
      intro woken
      have stands := registered.present actor (List.mem_append_right _ woken)
      rw [away] at stands
      cases stands
    have same : world.wakeup.consume actor = world.wakeup := by
      simp only [Wakeup.consume]
      rw [List.filter_eq_self.2]
      exact fun other woken => decide_eq_true fun here => unwoken (here ▸ woken)
    refine ⟨[], rfl, ?_⟩
    rw [same]
    exact .single (.called actor away)

/-- Whoever has come looks once. A permit that was lying around makes it come again. -/
theorem leads_lookOnce (looks : world.wakeup.consume actor = world.wakeup) {awake : List Actor}
    (alone : awake.erase actor = []) :
    Leads Wakeup.notifier ({ world.callers asleep with awake }.put actor .arriving)
      (((world.lookOnce actor).1.callers asleep).put actor
        (if (world.lookOnce actor).2.2 then .arriving
        else if (world.lookOnce actor).2.1 = .nothing then .waiting else .away)) := by
  rcases enrolls : world.wakeup.enroll actor with ⟨notify, permitted⟩
  rcases took : world.queue.take with ⟨queue, answer⟩
  have looked := @GetterSession.leads_looked _ _ _ Wakeup.notifier actor
    { world.callers asleep with awake } _ _ enrolls _ _ took _ alone
  unfold lookOnce
  rw [looks, enrolls, took]
  cases answer with
  | item item => exact looked
  | closed => exact looked
  | nothing =>
    obtain rfl := (WorkQueue.of_take_nothing took).1
    exact looked

theorem consume_consume (wakeup : Wakeup Actor) (actor : Actor) :
    (wakeup.consume actor).consume actor = wakeup.consume actor := by
  simp only [Wakeup.consume, List.filter_filter, Bool.and_self]

/-- Whoever is to look again has taken the permit. -/
theorem lookOnce_again {looked : World} {answer : WorkQueue.Answer}
    (again : world.lookOnce actor = (looked, answer, true)) : world.wakeup.permit = true ∧
      looked.wakeup = { world.wakeup.consume actor with permit := false } := by
  unfold lookOnce at again
  rcases enrolls : (world.wakeup.consume actor).enroll actor with ⟨notify, permitted⟩
  rcases took : world.queue.take with ⟨queue, found⟩
  rw [enrolls, took] at again
  cases found with
  | item item => cases again
  | closed => cases again
  | nothing =>
    cases again
    unfold Wakeup.enroll at enrolls
    split at enrolls
    · rename_i permit
      cases enrolls
      exact ⟨permit, rfl⟩
    · cases enrolls

/-- **Whoever asks for an item has its answer, or waits in line.** -/
theorem leads_askItem (registered : (world.callers asleep).Registered Wakeup.notifier)
    (may : asleep actor = true → actor ∉ world.wakeup.waiting) {answer : WorkQueue.Answer}
    (asks : world.askItem actor = (later, answer)) :
    Leads Wakeup.notifier (world.callers asleep)
      (later.callers (Function.update asleep actor (answer = .nothing))) := by
  obtain ⟨awake, alone, arrives⟩ := leads_arriving registered may
  let consumed := { world with wakeup := world.wakeup.consume actor }
  have same : consumed.lookOnce actor = world.lookOnce actor := by
    simp only [consumed, lookOnce, consume_consume]
  have first : Leads Wakeup.notifier ({ consumed.callers asleep with awake }.put actor .arriving) _ :=
    leads_lookOnce (consume_consume world.wakeup actor) alone
  have stands (last : World) (answer : WorkQueue.Answer) :
      (last.callers asleep).put actor (if answer = .nothing then .waiting else .away) =
        last.callers (Function.update asleep actor (answer = .nothing)) :=
    put_callers _ _ (by simp only [decide_eq_true_eq])
  rw [same] at first
  unfold askItem at asks
  rcases look : world.lookOnce actor with ⟨looked, saw, again⟩
  rw [look] at first asks
  cases again with
  | false =>
    cases asks
    rw [if_neg Bool.false_ne_true, stands] at first
    exact arrives.trans first
  | true =>
    obtain ⟨_, left⟩ := lookOnce_again look
    have looks : looked.wakeup.consume actor = looked.wakeup := by
      rw [left]
      exact consume_consume { world.wakeup with permit := false } actor
    have second : Leads Wakeup.notifier ((looked.callers asleep).put actor .arriving) _ :=
      leads_lookOnce looks (List.erase_nil actor)
    rcases relook : looked.lookOnce actor with ⟨last, saw, again⟩
    dsimp only at asks
    rw [if_pos rfl, relook] at asks
    rw [relook] at second
    cases asks
    cases again with
    | false =>
      rw [if_neg Bool.false_ne_true, stands] at second
      exact (arrives.trans first).trans second
    | true =>
      obtain ⟨permit, _⟩ := lookOnce_again relook
      rw [left] at permit
      cases permit

/-! ### Rehearsals -/

/-- What happens to the queue of a rehearsal, with those who wait beside it. Whoever waits asks again when
it has been woken. All else leaves the queue and the line alone. -/
inductive Calls (world : World) (asleep : Actor → Bool) : World → (Actor → Bool) → Prop where
  | aside (later : World) (queue : later.queue = world.queue) (wakeup : later.wakeup = world.wakeup) :
      Calls world asleep later asleep
  | added (item : String) : Calls world asleep (world.addItem item) asleep
  | finished (item : String) : Calls world asleep (world.finishItem item) asleep
  | closed : Calls world asleep world.closeQueue asleep
  | asked (actor : Actor) (may : asleep actor = true → actor ∉ world.wakeup.waiting)
      (later : World) (answer : WorkQueue.Answer) (asks : world.askItem actor = (later, answer)) :
      Calls world asleep later (Function.update asleep actor (answer = .nothing))
  | left (actor : Actor) (waits : asleep actor = true) :
      Calls world asleep (world.leaveLine actor) (Function.update asleep actor false)

inductive Serves (config : ControllerConfig) (scripts : Table String (List DaemonScript))
    (resolver : SecretResolver) : World → (Actor → Bool) → Prop where
  | start : Serves config scripts resolver (World.new config scripts resolver) fun _ => false
  | step {world later : World} {asleep after : Actor → Bool}
      (before : Serves config scripts resolver world asleep) (calls : Calls world asleep later after) :
      Serves config scripts resolver later after

variable {config : ControllerConfig} {scripts : Table String (List DaemonScript)}
  {resolver : SecretResolver} {after : Actor → Bool}

theorem Calls.leads (calls : Calls world asleep later after)
    (registered : (world.callers asleep).Registered Wakeup.notifier) :
    Leads Wakeup.notifier (world.callers asleep) (later.callers after) := by
  cases calls with
  | aside _ queue wakeup => rw [callers_congr queue wakeup]
  | added item => exact leads_addItem item
  | finished item => exact leads_finishItem item
  | closed => exact leads_closeQueue
  | asked actor may _ answer asks => exact leads_askItem registered may asks
  | left actor waits => exact leads_leaveLine waits

/-- **A rehearsed queue has served its callers step by step.** -/
theorem Serves.leads (serves : Serves config scripts resolver world asleep) :
    Leads Wakeup.notifier (GetterSession.start Wakeup.notifier) (world.callers asleep) := by
  induction serves with
  | start => exact .refl
  | step _ calls ih => exact ih.trans (calls.leads (GetterSession.sound_start.leads ih).registered)

/-- Whoever is left in line waits for no more than those who were woken and have not looked, and not for
a queue that is shut down. -/
theorem Serves.left_in_line (serves : Serves config scripts resolver world asleep)
    (waits : asleep actor = true) (line : actor ∈ world.wakeup.waiting) :
    world.queue.shutDown = false ∧ world.queue.waiting.length ≤ world.wakeup.woken.length := by
  have sound := GetterSession.sound_start.leads serves.leads
  have stands : (world.callers asleep).Waits Wakeup.notifier actor := ⟨if_pos waits, line⟩
  have running : world.queue.shutDown = false := by
    rw [Bool.eq_false_iff]
    exact fun closed => sound.closing actor stands closed rfl
  have covered := sound.covered actor stands running
  refine ⟨running, ?_⟩
  calc
    world.queue.waiting.length ≤ 0 + world.wakeup.woken.length + 0 := covered
    _ = world.wakeup.woken.length := by omega

end World

end TunnelIngress
