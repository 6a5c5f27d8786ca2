import TunnelIngress.Proofs.Control.Retries
import TunnelIngress.Rehearsal.Clock

/-!
# Rehearsed retries

In a rehearsal a worker handles an item in one go, unless it has to wait for the routes, and a delay is an
event that is to come. This comes to steps of the workers, of the delays and of those who add items, so
what holds of retries under every order of these steps holds of rehearsed ones.
-/

namespace TunnelIngress

namespace Agenda

variable {ε : Type}

/-- All that is to happen, now or later. -/
def events (agenda : Agenda ε) : List ε :=
  agenda.ready ++ agenda.planned.map (·.2)

theorem events_post (agenda : Agenda ε) (event : ε) :
    (agenda.post event).events.Perm (event :: agenda.events) := by
  simp only [events, post, List.append_assoc]
  exact List.perm_middle

theorem perm_insertDue (due : Nat) (event : ε) (planned : List (Nat × ε)) :
    (insertDue due event planned).Perm ((due, event) :: planned) := by
  induction planned with
  | nil => exact .refl _
  | cons first rest ih =>
    unfold insertDue
    split
    · exact (ih.cons first).trans (.swap _ _ _)
    · exact .refl _

theorem events_plan (agenda : Agenda ε) (delay : Nat) (event : ε) :
    (agenda.plan delay event).events.Perm (event :: agenda.events) := by
  unfold plan planAt
  split
  · exact agenda.events_post event
  · have planned := (perm_insertDue (agenda.now + delay) event agenda.planned).map (·.2)
    exact (planned.append_left agenda.ready).trans List.perm_middle

theorem events_next {agenda rest : Agenda ε} {event : ε} (next : agenda.next? = some (event, rest)) :
    agenda.events = event :: rest.events := by
  unfold next? at next
  split at next
  · cases next
  · rename_i ready
    cases next
    rw [events, ready]
    rfl

theorem events_passTo (agenda : Agenda ε) (time : Nat) : (agenda.passTo time).events = agenda.events := by
  simp only [events, passTo]
  rw [List.append_assoc, ← List.map_append, List.takeWhile_append_dropWhile]

end Agenda

/-- The item that is to be added when an event has happened. -/
def Event.delayed? : Event → Option String
  | .delayAdd item _ | .dueAdd item => some item
  | _ => none

namespace World

open RetrySession (Leads Step)

def delays (world : World) : List String :=
  world.agenda.events.filterMap Event.delayed?

/-- The queue, the delays and the counts are those of a world. -/
structure Tries (limit : UInt32) (world : World) (work : QueueSession) (limiter : RateLimiter) : Prop where
  limit : world.config.requeueLimit = limit
  queue : world.queue = work.queue
  limiter : world.limiter = limiter
  delayed : world.delays.Perm work.delayed

/-- What happens elsewhere leaves all of these alone. -/
structure Spares (world later : World) : Prop where
  config : later.config = world.config
  queue : later.queue = world.queue
  limiter : later.limiter = world.limiter
  delays : later.delays = world.delays

variable {limit : UInt32} {world later : World} {work : QueueSession} {limiter : RateLimiter}
  {event : Event} {item : String}

/-! ### What leaves retries alone -/

theorem Spares.refl (world : World) : world.Spares world :=
  ⟨rfl, rfl, rfl, rfl⟩

theorem Spares.trans {last : World} (first : world.Spares later) (second : later.Spares last) :
    world.Spares last where
  config := second.config.trans first.config
  queue := second.queue.trans first.queue
  limiter := second.limiter.trans first.limiter
  delays := second.delays.trans first.delays

theorem Tries.spared (tries : world.Tries limit work limiter) (spares : world.Spares later) :
    later.Tries limit work limiter where
  limit := spares.config ▸ tries.limit
  queue := spares.queue.trans tries.queue
  limiter := spares.limiter.trans tries.limiter
  delayed := spares.delays ▸ tries.delayed

theorem spares_post (world : World) (undelayed : event.delayed? = none) :
    world.Spares (world.post event) where
  config := rfl
  queue := rfl
  limiter := rfl
  delays := by simp [delays, post, Agenda.post, Agenda.events, undelayed]

theorem spares_passTo (world : World) (time : Nat) :
    world.Spares { world with agenda := world.agenda.passTo time } where
  config := rfl
  queue := rfl
  limiter := rfl
  delays := congrArg (List.filterMap Event.delayed?) (world.agenda.events_passTo time)

theorem spares_wake (world : World) (actor : Actor) : world.Spares (world.wake actor) := by
  cases actor with
  | step => exact ⟨rfl, rfl, rfl, rfl⟩
  | background n => exact world.spares_post rfl
  | pool n => exact world.spares_post rfl
  | worker pool n => exact world.spares_post rfl
  | consumer n => exact world.spares_post rfl

theorem spares_wakeAll (world : World) (actors : List Actor) : world.Spares (actors.foldl wake world) := by
  induction actors generalizing world with
  | nil => exact .refl world
  | cons first rest ih => exact (world.spares_wake first).trans (ih _)

theorem spares_notifyOne (world : World) : world.Spares world.notifyOne := by
  unfold notifyOne
  dsimp only
  split
  · exact ⟨rfl, rfl, rfl, rfl⟩
  · refine .trans ?_ (spares_wake _ _)
    exact ⟨rfl, rfl, rfl, rfl⟩

theorem spares_rouse (world : World) (supervisors : List (LinkId × Nat)) :
    world.Spares (world.rouse supervisors) := by
  unfold rouse
  induction supervisors generalizing world with
  | nil => exact .refl world
  | cons first rest ih => exact (world.spares_post rfl).trans (ih _)

theorem spares_releaseLock (world : World) : world.Spares world.releaseLock := by
  unfold releaseLock
  split
  · exact ⟨rfl, rfl, rfl, rfl⟩
  · rename_i actor rest line
    have left : world.Spares { world with lockHolder := some actor, lockLine := rest } :=
      ⟨rfl, rfl, rfl, rfl⟩
    exact left.trans (spares_wake _ actor)

theorem spares_applyOn (world : World) (actor : Actor) (progress : Mutation.Progress) :
    world.Spares (world.applyOn actor progress).1 := by
  unfold applyOn
  rcases world.network.advance progress with ⟨network, progress, effects⟩
  have changed : world.Spares ((world.setNetwork network).record effects.seen) := ⟨rfl, rfl, rfl, rfl⟩
  have carried := changed.trans (spares_rouse _ effects.roused)
  dsimp only
  split
  · have finished : world.Spares
        ((((world.setNetwork network).record effects.seen).rouse effects.roused).finishJob actor) :=
      carried.trans ⟨rfl, rfl, rfl, rfl⟩
    exact finished.trans (spares_releaseLock _)
  · exact carried.trans ⟨rfl, rfl, rfl, rfl⟩

theorem spares_request (world : World) (actor : Actor) (mutation : Mutation) :
    world.Spares (world.request actor mutation).1 := by
  unfold request
  split
  · unfold execute
    dsimp only
    refine .trans ?_ (spares_applyOn _ _ _)
    refine .trans ?_ (spares_rouse _ _)
    exact ⟨rfl, rfl, rfl, rfl⟩
  · exact ⟨rfl, rfl, rfl, rfl⟩

theorem spares_handle (world : World) (actor : Actor) (kind : Kind) (key : ResourceKey) :
    world.Spares (world.handle actor kind key).1 := by
  unfold handle
  split
  · dsimp only
    split
    · exact ⟨rfl, rfl, rfl, rfl⟩
    · split
      · exact ⟨rfl, rfl, rfl, rfl⟩
      · refine .trans ?_ (spares_request _ _ _)
        exact ⟨rfl, rfl, rfl, rfl⟩
  · exact .refl world

/-! ### The queue and the delays -/

theorem Tries.addItem (tries : world.Tries limit work limiter) (item : String) :
    (world.addItem item).Tries limit (work.add item) limiter := by
  have added : (world.setQueue (world.queue.add item).1).Tries limit (work.add item) limiter :=
    ⟨tries.limit, congrArg (fun queue => (queue.add item).1) tries.queue, tries.limiter, tries.delayed⟩
  unfold World.addItem
  dsimp only
  split
  · exact added.spared (spares_notifyOne _)
  · exact added

theorem Tries.finishItem (tries : world.Tries limit work limiter) (caller : Nat) (item : String) :
    (world.finishItem item).Tries limit (work.finish caller item) limiter := by
  have finished :
      (world.setQueue (world.queue.finish item).1).Tries limit (work.finish caller item) limiter :=
    ⟨tries.limit, congrArg (fun queue => (queue.finish item).1) tries.queue, tries.limiter, tries.delayed⟩
  unfold World.finishItem
  dsimp only
  split
  · exact finished.spared (spares_notifyOne _)
  · exact finished

theorem Tries.closeQueue (tries : world.Tries limit work limiter) :
    world.closeQueue.Tries limit work.close limiter := by
  unfold World.closeQueue
  dsimp only
  generalize world.wakeup.wakeAll.1 = wakeup
  have closed : { world with queue := world.queue.close, wakeup }.Tries limit work.close limiter :=
    ⟨tries.limit, congrArg WorkQueue.close tries.queue, tries.limiter, tries.delayed⟩
  exact closed.spared (spares_wakeAll _ _)

theorem Tries.addAfter (tries : world.Tries limit work limiter) (item : String) (delay : Duration) :
    ∃ later, work.step? (.addAfter item delay) = some later ∧
      (world.addAfter item delay).Tries limit later limiter := by
  unfold World.addAfter QueueSession.step?
  rw [tries.queue]
  dsimp only
  split
  · exact ⟨work, rfl, tries⟩
  · split
    · exact ⟨_, rfl, tries.addItem item⟩
    · refine ⟨_, rfl, tries.limit, tries.queue, tries.limiter, ?_⟩
      exact ((world.agenda.events_post _).filterMap Event.delayed?).trans (tries.delayed.cons item)

/-- When its time has come, a delayed item is added. -/
theorem Tries.dueAdd (tries : world.Tries limit work limiter) {agenda : Agenda Event}
    (next : world.agenda.next? = some (.dueAdd item, agenda)) :
    ∃ later, work.step? (.due item) = some later ∧
      ({ world with agenda }.happen (.dueAdd item)).Tries limit later limiter := by
  have events : world.delays = item :: { world with agenda }.delays := by
    rw [delays, Agenda.events_next next]
    rfl
  have delayed : (item :: { world with agenda }.delays).Perm work.delayed := events ▸ tries.delayed
  have mem : item ∈ work.delayed := delayed.mem_iff.1 List.mem_cons_self
  have left : { world with agenda }.Tries limit { work with delayed := work.delayed.erase item } limiter :=
    ⟨tries.limit, tries.queue, tries.limiter, List.cons_perm_iff_perm_erase.1 delayed |>.2⟩
  exact ⟨_, if_pos mem, left.addItem item⟩

/-- Until then it is delayed, whether its time was set or not. -/
theorem Tries.delayAdd (tries : world.Tries limit work limiter) {agenda : Agenda Event} {delay : Nat}
    (next : world.agenda.next? = some (.delayAdd item delay, agenda)) :
    ({ world with agenda }.happen (.delayAdd item delay)).Tries limit work limiter := by
  refine ⟨tries.limit, tries.queue, tries.limiter, ?_⟩
  have events : world.delays = (Event.dueAdd item :: agenda.events).filterMap Event.delayed? := by
    rw [delays, Agenda.events_next next]
    rfl
  have planned := (agenda.events_plan delay (Event.dueAdd item)).filterMap Event.delayed?
  exact planned.trans (events ▸ tries.delayed)

/-! ### Asking -/

variable {actor : Actor}

theorem tries_lookOnce (tries : world.Tries limit work limiter) {answer : WorkQueue.Answer}
    {again : Bool} (looked : world.lookOnce actor = (later, answer, again)) :
    work.queue.take = (later.queue, answer) ∧
      later.Tries limit { work with queue := later.queue } limiter ∧
      (again = true → answer = .nothing) := by
  rw [← tries.queue]
  unfold lookOnce at looked
  rcases took : world.queue.take with ⟨queue, found⟩
  rw [took] at looked
  cases found with
  | item item =>
    cases looked
    exact ⟨rfl, ⟨tries.limit, rfl, tries.limiter, tries.delayed⟩, nofun⟩
  | closed =>
    cases looked
    exact ⟨rfl, ⟨tries.limit, rfl, tries.limiter, tries.delayed⟩, nofun⟩
  | nothing =>
    cases looked
    exact ⟨rfl, ⟨tries.limit, rfl, tries.limiter, tries.delayed⟩, fun _ => rfl⟩

/-- Whoever asks gets what the queue gives. -/
theorem Tries.askItem (tries : world.Tries limit work limiter) {answer : WorkQueue.Answer}
    (asks : world.askItem actor = (later, answer)) : work.queue.take = (later.queue, answer) ∧
      later.Tries limit { work with queue := later.queue } limiter := by
  unfold World.askItem at asks
  rcases look : world.lookOnce actor with ⟨looked, saw, again⟩
  rw [look] at asks
  obtain ⟨took, seen, once⟩ := tries_lookOnce tries look
  cases again with
  | false =>
    cases asks
    exact ⟨took, seen⟩
  | true =>
    obtain rfl := once rfl
    have same : looked.queue = work.queue := (WorkQueue.of_take_nothing took).1
    rcases relook : looked.lookOnce actor with ⟨last, saw, again⟩
    dsimp only at asks
    rw [if_pos rfl, relook] at asks
    cases asks
    obtain ⟨took, seen, _⟩ := tries_lookOnce seen relook
    exact ⟨same ▸ took, seen⟩

/-! ### Workers -/

/-- Where a worker is left with its item. -/
def Handling.stage : Handling → HandlingStage
  | .done | .refused _ => .unheld
  | .waiting => .taken
  | .crashed => .stuck

variable {session after : RetrySession} {caller : Nat} {stage : HandlingStage}

/-- Steps with an item have led to a later world, where the item is at a stage and whatever else was held
still is. -/
structure Leaves (limit : UInt32) (session : RetrySession) (item : String) (stage : HandlingStage)
    (after : RetrySession) (later : World) : Prop where
  leads : Leads limit session after
  tries : later.Tries limit after.work after.limiter
  stages : after.stages = Function.update session.stages item stage
  held : ∀ place ∈ session.work.held, place.2 ≠ item ∨ stage ≠ .unheld → place ∈ after.work.held

theorem stages_put (session : RetrySession) (item : String) (stage : HandlingStage) :
    (session.put item stage).stages = Function.update session.stages item stage := by
  funext other
  rw [Function.update_apply]
  rfl

theorem Leaves.spared {last : World} (leaves : Leaves limit session item stage after later)
    (spares : later.Spares last) : Leaves limit session item stage after last :=
  ⟨leaves.leads, leaves.tries.spared spares, leaves.stages, leaves.held⟩

/-- What comes first concerns the item as well. -/
theorem Leaves.first {middle : RetrySession} {old : HandlingStage}
    (leaves : Leaves limit middle item stage after later) (leads : Leads limit session middle)
    (stages : middle.stages = Function.update session.stages item old)
    (held : ∀ place ∈ session.work.held, place ∈ middle.work.held) :
    Leaves limit session item stage after later where
  leads := leads.trans leaves.leads
  tries := leaves.tries
  stages := by rw [leaves.stages, stages, Function.update_idem]
  held place mem := leaves.held place (held place mem)

theorem leaves_forget (tries : world.Tries limit session.work session.limiter) (handled : List String)
    (step : Step limit session
      (RetrySession.put { session with limiter := session.limiter.forget item, handled } item .settled)) :
    ∃ after, Leaves limit session item .settled after (world.forget item) := by
  refine ⟨_, .single step, ⟨tries.limit, tries.queue, ?_, tries.delayed⟩, stages_put _ _ _, ?_⟩
  · exact congrArg (RateLimiter.forget · item) tries.limiter
  · exact fun place mem _ => mem

theorem leaves_succeed (tries : world.Tries limit session.work session.limiter)
    (taken : session.stages item = .taken) (kind : Kind) :
    ∃ after, Leaves limit session item .settled after (world.succeed item kind) := by
  obtain ⟨after, leaves⟩ := leaves_forget tries _ (.succeeded item taken)
  exact ⟨after, leaves.spared ⟨rfl, rfl, rfl, rfl⟩⟩

theorem leaves_limited (tries : world.Tries limit session.work session.limiter)
    (again : session.stages item = .judged true)
    (computed : (world.limiter.delay item world.nowNanos).2 ≠ none) :
    ∃ after, Leaves limit session item .settled after (world.addRateLimited item).1 := by
  obtain ⟨wait, waits⟩ := Option.ne_none_iff_exists'.1 computed
  let limited := { world with limiter := (world.limiter.delay item world.nowNanos).1 }
  let counted := RetrySession.put
    { session with limiter := (session.limiter.delay item world.nowNanos).1 } item (.retrying wait)
  have counts : Step limit session counted :=
    .counted item again world.nowNanos wait (by rw [← waits, tries.limiter])
  have shows : limited.Tries limit counted.work counted.limiter :=
    ⟨tries.limit, tries.queue, congrArg (fun old => (old.delay item world.nowNanos).1) tries.limiter,
      tries.delayed⟩
  obtain ⟨work, step, added⟩ := shows.addAfter item wait
  let postponed := RetrySession.put { counted with work } item .settled
  have postpones : Step limit counted postponed := .postponed item wait (if_pos rfl) work step
  have result : (world.addRateLimited item).1 = limited.addAfter item wait := by
    unfold World.addRateLimited
    dsimp only
    rw [waits]
  have left : Leaves limit counted item .settled postponed (limited.addAfter item wait) := by
    refine ⟨.single postpones, added, stages_put _ _ _, fun place mem _ => ?_⟩
    change place ∈ work.held
    rw [(QueueSession.gains_addAfter step).held]
    exact mem
  rw [result]
  exact ⟨postponed, left.first (.single counts) (stages_put _ _ _) fun _ mem => mem⟩

/-- What failed is counted and comes again, or is dropped. -/
theorem leaves_retry (tries : world.Tries limit session.work session.limiter)
    (taken : session.stages item = .taken) (kind : Kind)
    (computed : (world.limiter.delay item world.nowNanos).2 ≠ none) :
    ∃ after, Leaves limit session item .settled after (world.retry item kind) := by
  let failed := RetrySession.put { session with handled := item :: session.handled } item .failed
  let again := decide (world.limiter.failureCount item < world.config.requeueLimit.toNat)
  let judged := failed.put item (.judged again)
  have judges : Step limit failed judged := by
    have step : Step limit failed _ := .judged item (if_pos rfl)
    have same : decide (failed.limiter.failureCount item < limit.toNat) = again := by
      rw [show failed.limiter = _ from tries.limiter.symm, ← tries.limit]
    rwa [same] at step
  have fails : Leads limit session judged := .tail (.single (.failed item taken)) judges
  have stages : judged.stages = Function.update session.stages item (.judged again) := by
    rw [stages_put, stages_put, Function.update_idem]
  have stands : judged.stages item = .judged again := if_pos rfl
  have seen : (world.record [.reconciliation kind.name "error" 0.0]).Tries limit judged.work judged.limiter :=
    ⟨tries.limit, tries.queue, tries.limiter, tries.delayed⟩
  unfold World.retry
  dsimp only
  split
  · rename_i below
    rw [show again = true from decide_eq_true below] at stands
    obtain ⟨after, leaves⟩ := leaves_limited seen stands computed
    exact ⟨after, (leaves.first fails stages fun _ mem => mem).spared ⟨rfl, rfl, rfl, rfl⟩⟩
  · rename_i spent
    rw [show again = false from decide_eq_false spent] at stands
    obtain ⟨after, leaves⟩ := leaves_forget seen _ (.dropped item stands)
    exact ⟨after, (leaves.first fails stages fun _ mem => mem).spared ⟨rfl, rfl, rfl, rfl⟩⟩

theorem Leaves.release (leaves : Leaves limit session item .settled after later)
    (holds : (caller, item) ∈ session.work.held) (actor : Actor) :
    ∃ last, Leaves limit session item .unheld last (later.release actor item) := by
  have holds : (caller, item) ∈ after.work.held := leaves.held _ holds (.inr nofun)
  have settled : after.stages item = .settled := by rw [leaves.stages, Function.update_self]
  have finishes : after.work.step? (.finish caller item) = some (after.work.finish caller item) :=
    if_pos holds
  have released : { later with held := later.held.erase actor }.Tries limit after.work after.limiter :=
    leaves.tries.spared ⟨rfl, rfl, rfl, rfl⟩
  refine ⟨_, leaves.leads.tail (.finished caller item settled _ finishes),
    released.finishItem caller item, ?_, fun place mem other => ?_⟩
  · rw [stages_put, leaves.stages, Function.update_idem]
  · have ne : place ≠ (caller, item) := fun same =>
      other.elim (fun ne => ne (congrArg Prod.snd same)) fun none => none rfl
    exact (List.mem_erase_of_ne ne).2 (leaves.held place mem (.inr nofun))

/-- A worker with an item has done with it, or waits for the routes, or has died with it. -/
theorem leaves_process (tries : world.Tries limit session.work session.limiter)
    (holds : (caller, item) ∈ session.work.held) (taken : session.stages item = .taken)
    (computed : ∀ now, (world.limiter.delay item now).2 ≠ none) {handling : Handling}
    (processed : world.process actor item = (later, handling)) :
    ∃ after, Leaves limit session item handling.stage after later := by
  let holding := { world with held := world.held.insert actor item }
  have begun : holding.Tries limit session.work session.limiter := tries.spared ⟨rfl, rfl, rfl, rfl⟩
  unfold process at processed
  cases read : WorkKey.read item with
  | error fault =>
    rw [read] at processed
    cases processed
    obtain ⟨after, leaves⟩ := leaves_forget begun session.handled (.malformed item fault read taken)
    have dropped : Leaves limit session item .settled after
        ((holding.forget item).record [.requeue "dropped"]) := leaves.spared ⟨rfl, rfl, rfl, rfl⟩
    exact dropped.release holds actor
  | ok work =>
    rw [read] at processed
    dsimp only at processed
    have spares := holding.spares_handle actor work.kind work.key
    rcases handled : holding.handle actor work.kind work.key with ⟨next, result⟩
    rw [handled] at spares processed
    have seen := begun.spared spares
    cases result with
    | done =>
      cases processed
      obtain ⟨after, leaves⟩ := leaves_succeed seen taken work.kind
      exact leaves.release holds actor
    | refused error =>
      cases processed
      have computed : (next.limiter.delay item next.nowNanos).2 ≠ none := by
        rw [spares.limiter]
        exact computed next.nowNanos
      obtain ⟨after, leaves⟩ := leaves_retry seen taken work.kind computed
      exact leaves.release holds actor
    | waiting =>
      cases processed
      have same : session.stages = Function.update session.stages item .taken := by
        rw [← taken, Function.update_eq_self]
      exact ⟨session, .refl, seen, same, fun _ mem _ => mem⟩
    | crashed =>
      cases processed
      exact ⟨_, .single (.died item taken), seen, stages_put _ _ _, fun _ mem _ => mem⟩

/-- The routes have been changed, and the worker is done with its item. -/
theorem leaves_concludeItem (tries : world.Tries limit session.work session.limiter)
    (holds : (caller, item) ∈ session.work.held) (taken : session.stages item = .taken)
    (has : world.held.get? actor = some item) {key : WorkKey} (read : WorkKey.read item = .ok key) :
    ∃ after, Leaves limit session item .unheld after (world.concludeItem actor) := by
  unfold concludeItem
  rw [has]
  dsimp only
  rw [read]
  obtain ⟨after, leaves⟩ := leaves_succeed tries taken key.kind
  exact leaves.release holds actor

/-- A worker asks for an item, and handles the one that it gets as far as it can. -/
theorem leaves_taken (tries : world.Tries limit session.work session.limiter) {asked : World}
    (asks : world.askItem actor = (asked, .item item))
    (computed : ∀ now, (world.limiter.delay item now).2 ≠ none) {handling : Handling}
    (processed : asked.process actor item = (later, handling)) :
    ∃ after, Leaves limit session item handling.stage after later ∧
      (handling.stage ≠ .unheld → (0, item) ∈ after.work.held) := by
  obtain ⟨took, seen⟩ := tries.askItem asks
  let taken := RetrySession.put { session with work := session.work.take 0 } item .taken
  have takes : Step limit session taken := .took 0 item asked.queue took
  have held : taken.work.held = (0, item) :: session.work.held := (QueueSession.take_item took 0).1
  have holds : (0, item) ∈ taken.work.held := held ▸ List.mem_cons_self
  have shows : asked.Tries limit taken.work taken.limiter := by
    have worked : taken.work.queue = asked.queue ∧ taken.work.delayed = session.work.delayed := by
      simp [taken, RetrySession.put, QueueSession.take, took]
    exact ⟨seen.limit, worked.1.symm, seen.limiter, worked.2 ▸ seen.delayed⟩
  have computed (now : Nat) : (asked.limiter.delay item now).2 ≠ none := by
    rw [seen.limiter, ← tries.limiter]
    exact computed now
  obtain ⟨after, leaves⟩ := leaves_process shows holds (if_pos rfl) computed processed
  refine ⟨after, leaves.first (.single takes) (stages_put _ _ _) fun place mem => ?_, fun busy => ?_⟩
  · exact held ▸ List.mem_cons_of_mem _ mem
  · exact leaves.held _ holds (.inr busy)

/-! ### Rehearsals -/

/-- What happens to the items of a rehearsal, with the stages at which workers have left them beside it.
All else leaves the queue, the delays and the counts alone. -/
inductive Works (world : World) (stages : String → HandlingStage) :
    World → (String → HandlingStage) → Prop where
  | aside (later : World) (spares : world.Spares later) : Works world stages later stages
  | added (item : String) : Works world stages (world.addItem item) stages
  | delayed (item : String) (delay : Nat) (agenda : Agenda Event)
      (next : world.agenda.next? = some (.delayAdd item delay, agenda)) :
      Works world stages ({ world with agenda }.happen (.delayAdd item delay)) stages
  | due (item : String) (agenda : Agenda Event)
      (next : world.agenda.next? = some (.dueAdd item, agenda)) :
      Works world stages ({ world with agenda }.happen (.dueAdd item)) stages
  | taken (actor : Actor) (item : String) (asked : World)
      (asks : world.askItem actor = (asked, .item item))
      (computed : ∀ now, (world.limiter.delay item now).2 ≠ none) (later : World) (handling : Handling)
      (processed : asked.process actor item = (later, handling)) :
      Works world stages later (Function.update stages item handling.stage)
  | concluded (actor : Actor) (item : String) (waits : stages item = .taken)
      (has : world.held.get? actor = some item) (key : WorkKey) (read : WorkKey.read item = .ok key) :
      Works world stages (world.concludeItem actor) (Function.update stages item .unheld)
  | closed : Works world stages world.closeQueue stages

/-- A rehearsal of workers. -/
inductive Worked (config : ControllerConfig) (scripts : Table String (List DaemonScript))
    (resolver : SecretResolver) : World → (String → HandlingStage) → Prop where
  | start : Worked config scripts resolver (World.new config scripts resolver) fun _ => .unheld
  | step {world later : World} {stages next : String → HandlingStage}
      (before : Worked config scripts resolver world stages) (works : Works world stages later next) :
      Worked config scripts resolver later next

/-- A rehearsal is at a state of a session, where one caller holds all that is in hand. -/
structure Matches (limit : UInt32) (world : World) (stages : String → HandlingStage)
    (session : RetrySession) : Prop where
  tries : world.Tries limit session.work session.limiter
  left : session.stages = stages
  held : ∀ item, stages item ≠ .unheld → (0, item) ∈ session.work.held

variable {stages next : String → HandlingStage}

theorem Matches.leave (matching : world.Matches limit stages session)
    (leaves : Leaves limit session item stage after later)
    (holds : stage ≠ .unheld → (0, item) ∈ after.work.held) :
    later.Matches limit (Function.update stages item stage) after where
  tries := leaves.tries
  left := by rw [leaves.stages, matching.left]
  held other busy := by
    rw [Function.update_apply] at busy
    split at busy
    · rename_i same
      exact same ▸ holds busy
    · rename_i ne
      exact leaves.held _ (matching.held other busy) (.inl ne)

theorem Works.leads (matching : world.Matches limit stages session) (works : Works world stages later next) :
    ∃ after, Leads limit session after ∧ later.Matches limit next after := by
  obtain ⟨tries, same, held⟩ := matching
  cases works with
  | aside _ spares => exact ⟨session, .refl, tries.spared spares, same, held⟩
  | added item => exact ⟨_, .single (.added item), tries.addItem item, same, held⟩
  | delayed item delay agenda due => exact ⟨session, .refl, tries.delayAdd due, same, held⟩
  | due item agenda due =>
    obtain ⟨work, step, shown⟩ := tries.dueAdd due
    refine ⟨_, .single (.due item work step), shown, same, fun other busy => ?_⟩
    change (0, other) ∈ work.held
    rw [(QueueSession.gains_due step).held]
    exact held other busy
  | taken actor item asked asks computed _ handling processed =>
    obtain ⟨after, leaves, holds⟩ := leaves_taken tries asks computed processed
    exact ⟨after, leaves.leads, Matches.leave ⟨tries, same, held⟩ leaves holds⟩
  | concluded actor item waits has key read =>
    have holds := held item (by rw [waits]; nofun)
    obtain ⟨after, leaves⟩ := leaves_concludeItem tries holds (same ▸ waits) has read
    exact ⟨after, leaves.leads, Matches.leave ⟨tries, same, held⟩ leaves fun none => absurd rfl none⟩
  | closed => exact ⟨_, .single .closed, tries.closeQueue, same, held⟩

variable {config : ControllerConfig} {scripts : Table String (List DaemonScript)}
  {resolver : SecretResolver}

/-- **What a rehearsal does with its items are steps of workers, of delays and of those who add items.** -/
theorem Worked.leads (worked : Worked config scripts resolver world stages) :
    ∃ session, Leads config.requeueLimit (RetrySession.start (.standard 0)) session ∧
      world.Matches config.requeueLimit stages session := by
  induction worked with
  | start => exact ⟨_, .refl, ⟨rfl, rfl, rfl, .refl _⟩, rfl, fun _ busy => absurd rfl busy⟩
  | step _ works ih =>
    obtain ⟨session, leads, matching⟩ := ih
    obtain ⟨after, goes_on, matched⟩ := works.leads matching
    exact ⟨after, leads.trans goes_on, matched⟩

/-- As long as a rehearsed queue is not shut down, what neither waits nor is held and does not come back
has no failures. -/
theorem Worked.failureCount_eq_zero (worked : Worked config scripts resolver world stages)
    (running : world.queue.shutDown = false) (clean : item ∉ world.queue.dirty)
    (released : stages item = .unheld) (calm : item ∉ world.delays) :
    world.limiter.failureCount item = 0 := by
  obtain ⟨session, leads, tries, same, _⟩ := worked.leads
  obtain ⟨_, kept⟩ := (RetrySession.sound_start _).leads leads
  have balanced := kept item (RetrySession.balanced_start _ rfl _ item)
  have none : (session.account item).chances = 0 := by
    rw [tries.queue] at clean
    rw [tries.delayed.mem_iff] at calm
    simp [RetrySession.account, QueueSession.chances, same, released, HandlingStage.chances, clean,
      List.count_eq_zero_of_not_mem calm]
  have open_ : session.work.queue.shutDown = false := tries.queue ▸ running
  rw [tries.limiter]
  exact balanced.clear open_ none

end World

end TunnelIngress
