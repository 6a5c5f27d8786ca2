import TunnelIngress.Proofs.Control.QueueLists
import TunnelIngress.Time.Duration
import Mathlib.Logic.Relation

/-!
# A queue of work and its callers

Callers add items, now or later, take items, are done with them, and shut the queue down, in any order.
What each call keeps is an invariant of the lists of the queue and of what the callers hold, and
everything that is promised of a queue in use follows from it: nobody gets an item that somebody else
holds, and an item that was added waits until it is handed out.
-/

namespace TunnelIngress

/-- A call on a queue, or a delayed addition whose time has come. Callers are numbered. -/
inductive QueueCall where
  | add (item : String)
  | addAfter (item : String) (delay : Duration)
  | due (item : String)
  | take (caller : Nat)
  | finish (caller : Nat) (item : String)
  | close
deriving DecidableEq

def QueueCall.added? : QueueCall → Option String
  | add item => some item
  | addAfter item delay => if delay.isZero then some item else none
  | due item => some item
  | _ => none

/-- A queue in use. Beside the queue stand the additions whose time has not come, who was handed what
and is not done with it, and all items that ever entered the queue and that ever were handed out, in
order. -/
structure QueueSession where
  queue : WorkQueue
  delayed : List String
  held : List (Nat × String)
  entered : List String
  handed : List String

namespace QueueSession

def new : QueueSession :=
  { queue := .empty, delayed := [], held := [], entered := [], handed := [] }

def add (session : QueueSession) (item : String) : QueueSession :=
  let (queue, entered) := session.queue.add item
  { session with queue, entered := session.entered ++ if entered then [item] else [] }

def take (session : QueueSession) (caller : Nat) : QueueSession :=
  match session.queue.take with
  | (queue, .item item) =>
    { session with
      queue
      held := (caller, item) :: session.held
      handed := session.handed ++ [item] }
  | (queue, _) => { session with queue }

def finish (session : QueueSession) (caller : Nat) (item : String) : QueueSession :=
  let (queue, entered) := session.queue.finish item
  { session with
    queue
    held := session.held.erase (caller, item)
    entered := session.entered ++ if entered then [item] else [] }

def close (session : QueueSession) : QueueSession :=
  { session with queue := session.queue.close }

/-- An addition comes due only after it was delayed, and a caller is done only with what it holds. -/
def step? (session : QueueSession) : QueueCall → Option QueueSession
  | .add item => some (session.add item)
  | .addAfter item delay =>
    if session.queue.shutDown then
      some session
    else if delay.isZero then
      some (session.add item)
    else
      some { session with delayed := item :: session.delayed }
  | .due item =>
    if item ∈ session.delayed then
      some ({ session with delayed := session.delayed.erase item }.add item)
    else
      none
  | .take caller => some (session.take caller)
  | .finish caller item =>
    if (caller, item) ∈ session.held then some (session.finish caller item) else none
  | .close => some session.close

def Step (session later : QueueSession) : Prop :=
  ∃ call, session.step? call = some later

abbrev Leads : QueueSession → QueueSession → Prop :=
  Relation.ReflTransGen Step

/-- What holds at every moment of a run. -/
structure Sound (session : QueueSession) : Prop where
  consistent : session.queue.Consistent
  exact : session.queue.gauge = session.queue.depth
  processing : ∀ item, item ∈ session.queue.processing ↔ item ∈ session.held.map (·.2)
  exclusive : (session.held.map (·.2)).Nodup
  order : session.entered = session.handed ++ session.queue.waiting

theorem sound_new : new.Sound :=
  ⟨WorkQueue.consistent_empty, rfl, by simp [new, WorkQueue.empty], by simp [new], rfl⟩

theorem Sound.add {session : QueueSession} (sound : session.Sound) (item : String) :
    (session.add item).Sound := by
  refine ⟨sound.consistent.add item, session.queue.add_gauge item sound.exact, ?_, sound.exclusive, ?_⟩
  · simpa [QueueSession.add] using sound.processing
  · simp only [QueueSession.add]
    rw [WorkQueue.add_waiting, sound.order, List.append_assoc]

theorem take_cases (session : QueueSession) (caller : Nat) :
    session.take caller = session ∨
    ∃ item rest taken, session.queue.shutDown = false ∧ session.queue.waiting = item :: rest ∧
      session.queue.take = (taken, .item item) ∧
      session.take caller = { session with
        queue := taken, held := (caller, item) :: session.held, handed := session.handed ++ [item] } := by
  unfold take
  rcases session.queue.take_cases with ⟨same, _⟩ | ⟨same, _⟩ | ⟨item, rest, taken, same, open_, waits, _⟩
  · simp [same]
  · simp [same]
  · exact .inr ⟨item, rest, taken, open_, waits, same, by simp [same]⟩

theorem Sound.take {session : QueueSession} (sound : session.Sound) (caller : Nat) :
    (session.take caller).Sound := by
  unfold QueueSession.take
  rcases session.queue.take_cases with ⟨same, _⟩ | ⟨same, _⟩ |
    ⟨item, rest, taken, same, _, waits, waiting, gauge, _, dirty, processing⟩
  · simpa [same] using sound
  · simpa [same] using sound
  · have idle := sound.consistent.idle item (by simp [waits])
    rw [sound.processing] at idle
    simp only [same]
    refine ⟨sound.consistent.taken waits waiting dirty processing, ?_, ?_, ?_, ?_⟩
    · simp [gauge, WorkQueue.depth, waiting]
    · intro other
      rw [processing, sound.processing, List.map_cons, List.mem_cons, or_comm]
    · exact List.nodup_cons.2 ⟨idle, sound.exclusive⟩
    · simp [sound.order, waits, waiting]

/-- What is still held after an item was finished, as nobody held it twice. -/
theorem mem_map_erase {held : List (Nat × String)} {caller : Nat} {item : String}
    (exclusive : (held.map (·.2)).Nodup) (mem : (caller, item) ∈ held) (other : String) :
    other ∈ (held.erase (caller, item)).map (·.2) ↔ other ∈ held.map (·.2) ∧ other ≠ item := by
  have perm := (List.perm_cons_erase mem).map (·.2)
  have nodup := perm.nodup_iff.1 exclusive
  rw [List.map_cons, List.nodup_cons] at nodup
  rw [perm.mem_iff, List.map_cons, List.mem_cons]
  constructor
  · exact fun kept => ⟨.inr kept, fun same => nodup.1 (same ▸ kept)⟩
  · rintro ⟨same | kept, ne⟩
    · exact absurd same ne
    · exact kept

theorem Sound.finish {session : QueueSession} (sound : session.Sound) {caller : Nat} {item : String}
    (mem : (caller, item) ∈ session.held) : (session.finish caller item).Sound := by
  have held : item ∈ session.queue.processing :=
    (sound.processing item).2 (List.mem_map.2 ⟨_, mem, rfl⟩)
  refine ⟨sound.consistent.finish held, session.queue.finish_gauge item sound.exact, ?_, ?_, ?_⟩
  · intro other
    simp only [QueueSession.finish]
    rw [WorkQueue.mem_finish_processing, mem_map_erase sound.exclusive mem, sound.processing]
  · exact sound.exclusive.sublist ((List.erase_sublist).map _)
  · simp only [QueueSession.finish]
    rw [WorkQueue.finish_waiting, sound.order, List.append_assoc]

theorem Sound.step {session later : QueueSession} (sound : session.Sound)
    (step : session.Step later) : later.Sound := by
  obtain ⟨call, step⟩ := step
  cases call with
  | add item =>
    cases step
    exact sound.add item
  | addAfter item delay =>
    simp only [step?] at step
    split at step
    · cases step
      exact sound
    · split at step
      · cases step
        exact sound.add item
      · cases step
        exact ⟨sound.consistent, sound.exact, sound.processing, sound.exclusive, sound.order⟩
  | due item =>
    simp only [step?] at step
    split at step
    · cases step
      have undelayed : { session with delayed := session.delayed.erase item }.Sound :=
        ⟨sound.consistent, sound.exact, sound.processing, sound.exclusive, sound.order⟩
      exact undelayed.add item
    · cases step
  | take caller =>
    cases step
    exact sound.take caller
  | finish caller item =>
    simp only [step?] at step
    split at step
    · rename_i mem
      cases step
      exact sound.finish mem
    · cases step
  | close =>
    cases step
    exact ⟨sound.consistent.close, sound.exact, sound.processing, sound.exclusive, sound.order⟩

theorem Sound.leads {session later : QueueSession} (sound : session.Sound)
    (leads : session.Leads later) : later.Sound := by
  induction leads with
  | refl => exact sound
  | tail _ step ih => exact ih.step step

/-- What a call does to the dirty items and to what was handed out: an item stops being dirty only
when it is handed out, and becomes dirty only when it is added. A queue that is shut down stays so and
hands nothing out. -/
theorem step_progress {session later : QueueSession} {call : QueueCall}
    (step : session.step? call = some later) :
    ∃ more, later.handed = session.handed ++ more ∧
      (∀ item, item ∈ later.queue.dirty ↔ item ∈ session.queue.dirty ∧ item ∉ more ∨
        call.added? = some item ∧ session.queue.shutDown = false) ∧
      (later.queue.shutDown = true ↔ session.queue.shutDown = true ∨ call = .close) ∧
      (session.queue.shutDown = true → more = []) := by
  have dirty_add (session : QueueSession) (item other : String) :
      other ∈ (session.add item).queue.dirty ↔
        other ∈ session.queue.dirty ∨ item = other ∧ session.queue.shutDown = false := by
    rw [eq_comm (a := item)]
    exact WorkQueue.mem_add_dirty
  have shut_add (session : QueueSession) (item : String) :
      (session.add item).queue.shutDown = session.queue.shutDown :=
    session.queue.add_shutDown item
  cases call with
  | add item =>
    cases step
    exact ⟨[], (List.append_nil _).symm, by simp [dirty_add, QueueCall.added?], by simp [shut_add],
      fun _ => rfl⟩
  | addAfter item delay =>
    simp only [step?] at step
    split at step
    · rename_i closed
      cases step
      exact ⟨[], by simp [closed]⟩
    · split at step
      · rename_i zero
        cases step
        exact ⟨[], (List.append_nil _).symm, by simp [dirty_add, QueueCall.added?, zero],
          by simp [shut_add], fun _ => rfl⟩
      · rename_i later
        cases step
        exact ⟨[], by simp [QueueCall.added?, later]⟩
  | due item =>
    simp only [step?] at step
    split at step
    · cases step
      exact ⟨[], (List.append_nil _).symm, by simp [dirty_add, QueueCall.added?], by simp [shut_add],
        fun _ => rfl⟩
    · cases step
  | take caller =>
    cases step
    unfold take
    rcases session.queue.take_cases with ⟨same, closed⟩ | ⟨same, open_, _⟩ |
      ⟨item, _, taken, same, open_, _, _, _, shut, dirty, _⟩
    · exact ⟨[], by simp [same, QueueCall.added?]⟩
    · exact ⟨[], by simp [same, QueueCall.added?]⟩
    · exact ⟨[item], by simp [same, QueueCall.added?, dirty, open_, shut]⟩
  | finish caller item =>
    simp only [step?] at step
    split at step
    · cases step
      exact ⟨[], by simp [finish, QueueCall.added?]⟩
    · cases step
  | close =>
    cases step
    exact ⟨[], by simp [close, WorkQueue.close, QueueCall.added?]⟩

/-- An item may have been added, and all else is as it was. -/
structure Gains (session later : QueueSession) : Prop where
  held : later.held = session.held
  dirty : ∀ item ∈ session.queue.dirty, item ∈ later.queue.dirty
  shutDown : later.queue.shutDown = session.queue.shutDown

theorem Gains.refl (session : QueueSession) : session.Gains session :=
  ⟨rfl, fun _ dirty => dirty, rfl⟩

theorem gains_add (session : QueueSession) (item : String) : session.Gains (session.add item) where
  held := rfl
  dirty _ mem := WorkQueue.mem_add_dirty.2 (.inl mem)
  shutDown := session.queue.add_shutDown item

theorem gains_addAfter {session later : QueueSession} {item : String} {delay : Duration}
    (step : session.step? (.addAfter item delay) = some later) : session.Gains later := by
  simp only [step?] at step
  split at step
  · cases step
    exact .refl session
  · split at step
    · cases step
      exact session.gains_add item
    · cases step
      exact ⟨rfl, fun _ dirty => dirty, rfl⟩

theorem gains_due {session later : QueueSession} {item : String}
    (step : session.step? (.due item) = some later) : session.Gains later := by
  simp only [step?] at step
  split at step
  · cases step
    obtain ⟨held, dirty, shut⟩ := gains_add { session with delayed := session.delayed.erase item } item
    exact ⟨held, dirty, shut⟩
  · cases step

/-- What taking an item does to the session, when there is one. -/
theorem take_item {session : QueueSession} {item : String} {taken : WorkQueue}
    (answer : session.queue.take = (taken, .item item)) (caller : Nat) :
    (session.take caller).held = (caller, item) :: session.held ∧
      (session.take caller).queue.shutDown = session.queue.shutDown ∧
      ∀ other, other ∈ (session.take caller).queue.dirty ↔ other ∈ session.queue.dirty ∧ other ≠ item := by
  have same : session.take caller = { session with
      queue := taken, held := (caller, item) :: session.held, handed := session.handed ++ [item] } := by
    simp [take, answer]
  rcases session.queue.take_cases with
    ⟨closed, _⟩ | ⟨none, _⟩ | ⟨first, _, after, took, open_, _, _, _, shut, dirty, _⟩
  · cases closed.symm.trans answer
  · cases none.symm.trans answer
  · cases took.symm.trans answer
    rw [same]
    exact ⟨rfl, shut.trans open_.symm, dirty⟩

theorem leads_progress {session later : QueueSession} (leads : session.Leads later) :
    ∃ more, later.handed = session.handed ++ more ∧
      (∀ item ∈ session.queue.dirty, item ∉ more → item ∈ later.queue.dirty) ∧
      (session.queue.shutDown = true → later.queue.shutDown = true ∧ more = []) := by
  induction leads with
  | refl => exact ⟨[], by simp, fun item dirty _ => dirty, fun closed => ⟨closed, rfl⟩⟩
  | tail _ step ih =>
    obtain ⟨more, handed, kept, closed⟩ := ih
    obtain ⟨call, step⟩ := step
    obtain ⟨next, handed', dirty, shut, none⟩ := step_progress step
    refine ⟨more ++ next, by rw [handed', handed, List.append_assoc], fun item mem absent => ?_,
      fun start => ?_⟩
    · rw [List.mem_append, not_or] at absent
      exact (dirty item).2 (.inl ⟨kept item mem absent.1, absent.2⟩)
    · obtain ⟨before, rfl⟩ := closed start
      exact ⟨shut.2 (.inl before), none before⟩

/-- **A queue in use is safe.** At every moment of every run its parts fit together and its depth is
the one reported. What is being processed is what somebody holds, and no item is handed to anyone while
someone holds it. An item added to a queue that is not shut down awaits its turn until it is handed out.
Items are handed out in the order they entered, and none is once the queue is shut down. -/
theorem queue_safe {session : QueueSession} (run : new.Leads session) :
    session.queue.Consistent ∧
    ((∀ item, item ∈ session.queue.processing ↔ ∃ caller, (caller, item) ∈ session.held) ∧
      (session.held.map (·.2)).Nodup ∧ ∀ caller item,
      (session.take caller).handed = session.handed ++ [item] →
        ∀ other, (other, item) ∉ session.held) ∧
    (session.queue.shutDown = false → ∀ call item next later, call.added? = some item →
      session.step? call = some next → next.Leads later →
      item ∉ later.handed.drop session.handed.length → later.queue.Awaits item) ∧
    session.entered = session.handed ++ session.queue.waiting ∧
    (∀ later, session.close.Leads later → later.handed = session.handed) ∧
    session.queue.gauge = session.queue.depth := by
  have sound := sound_new.leads run
  refine ⟨sound.consistent, ⟨fun item => ?_, sound.exclusive, ?_⟩, ?_, sound.order, ?_, sound.exact⟩
  · simpa using sound.processing item
  · intro caller item handed other held
    rcases session.take_cases caller with same | ⟨first, rest, taken, _, waits, _, same⟩
    · simp [same] at handed
    · rw [same] at handed
      obtain rfl : first = item := by simpa using handed
      have busy := (sound.processing first).2 (List.mem_map.2 ⟨_, held, rfl⟩)
      exact sound.consistent.idle first (by simp [waits]) busy
  · intro open_ call item next later adds step leads absent
    obtain ⟨before, handed, dirty, _⟩ := step_progress step
    obtain ⟨more, handed', kept, _⟩ := leads_progress leads
    rw [handed', handed, List.append_assoc, List.drop_left, List.mem_append, not_or] at absent
    have marked : item ∈ next.queue.dirty := (dirty item).2 (.inr ⟨adds, open_⟩)
    have later_sound := (sound.step ⟨call, step⟩).leads leads
    exact later_sound.consistent.awaits_iff.2 (kept item marked absent.2)
  · intro later leads
    obtain ⟨more, handed, _, closed⟩ := leads_progress leads
    rw [handed, (closed rfl).2, List.append_nil]
    rfl

/-- An item that is added again while a worker holds it is neither lost nor handed to another. -/
theorem queue_safe_added_again :
    let held := (new.add "a").take 0
    new.Leads held ∧ held.queue.shutDown = false ∧ (held.add "a").queue.Awaits "a" ∧
      (held.add "a").queue.waiting = [] := by
  intro held
  have run : new.Leads held :=
    .tail (.tail .refl ⟨.add "a", rfl⟩) ⟨.take 0, rfl⟩
  exact ⟨run, rfl, (queue_safe run).2.2.1 rfl (.add "a") "a" _ _ rfl rfl .refl (by decide), rfl⟩

end QueueSession

end TunnelIngress
