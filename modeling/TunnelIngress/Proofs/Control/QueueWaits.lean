import TunnelIngress.Control.Wakeup
import TunnelIngress.Proofs.Control.QueueLists
import Mathlib.Data.List.Nodup
import Mathlib.Logic.Relation

/-!
# Waiting for work

A caller that asks for an item registers before it looks, and waits only where there was nothing. Whoever
adds an item wakes one caller afterwards, and whoever shuts the queue down wakes all of them afterwards.
Others may come in between: the one that was woken may give up, or find that another was faster, and
shutting down sets its flag long before anyone is woken.

As long as someone waits in line, there is an item for nobody: each has a notification that is still to
be sent, or a caller that was woken and has not looked. This is the invariant below.
-/

namespace TunnelIngress

/-! ### What is relied on of the waking -/

namespace Wakeup

variable {α : Type}

/-- One of those who wait is woken, whoever that is, and where nobody waits a permit is left. -/
inductive WakesOne (wakeup later : Wakeup α) : Prop where
  | woken (who : α) (permit : later.permit = wakeup.permit)
      (left : wakeup.waiting.Perm (who :: later.waiting))
      (awake : later.woken.Perm (who :: wakeup.woken))
  | stored (nobody : wakeup.waiting = []) (permit : later.permit = true)
      (left : later.waiting = []) (awake : later.woken = wakeup.woken)

/-- All who are registered and have not looked since they were woken alone. -/
def registered (wakeup : Wakeup α) : List α :=
  wakeup.waiting ++ wakeup.woken

variable {wakeup later : Wakeup α} {who other : α}

theorem WakesOne.perm (wakes : wakeup.WakesOne later) : later.registered.Perm wakeup.registered := by
  unfold registered
  cases wakes with
  | woken who permit left awake =>
    calc
      (later.waiting ++ later.woken).Perm (later.waiting ++ who :: wakeup.woken) :=
        awake.append_left later.waiting
      List.Perm _ (who :: later.waiting ++ wakeup.woken) := List.perm_middle
      List.Perm _ (wakeup.waiting ++ wakeup.woken) := left.symm.append_right wakeup.woken
  | stored nobody permit left awake => rw [nobody, left, awake]

theorem WakesOne.kept (wakes : wakeup.WakesOne later) (waits : who ∈ later.waiting) :
    who ∈ wakeup.waiting ∧ later.woken.length = wakeup.woken.length + 1 := by
  cases wakes with
  | woken first permit left awake =>
    exact ⟨left.mem_iff.2 (List.mem_cons_of_mem first waits), awake.length_eq⟩
  | stored nobody permit left awake =>
    rw [left] at waits
    cases waits

theorem woken_enroll (wakeup : Wakeup α) (who : α) : (wakeup.enroll who).1.woken = wakeup.woken := by
  unfold enroll
  split <;> rfl

/-- Whoever comes stands behind the others. -/
theorem mem_waiting_enroll (ne : other ≠ who) (waits : other ∈ (wakeup.enroll who).1.waiting) :
    other ∈ wakeup.waiting := by
  unfold enroll at waits
  split at waits
  · exact waits
  · exact (List.mem_append.1 waits).resolve_right fun last => ne (List.mem_singleton.1 last)

variable [DecidableEq α]

/-- Whoever leaves leaves the line; one who was woken alone and has not looked passes the wakeup on. -/
inductive Leaves (wakeup : Wakeup α) (who : α) : Wakeup α → Prop where
  | passed (woken : who ∈ wakeup.woken) {later : Wakeup α}
      (wakes : ({ wakeup with waiting := wakeup.waiting.filter (· ≠ who) }.consume who).WakesOne later) :
      Leaves wakeup who later
  | gone (unwoken : who ∉ wakeup.woken) :
      Leaves wakeup who { wakeup with waiting := wakeup.waiting.filter (· ≠ who) }

theorem length_consume_woken (nodup : wakeup.woken.Nodup) :
    wakeup.woken.length ≤ (wakeup.consume who).woken.length + 1 := by
  have same : (wakeup.consume who).woken = wakeup.woken.erase who := by
    rw [nodup.erase_eq_filter who]
    refine List.filter_congr fun other _ => ?_
    by_cases here : other = who <;> simp [here]
  rw [same]
  by_cases woken : who ∈ wakeup.woken
  · exact Nat.le_of_eq (List.length_erase_add_one woken).symm
  · rw [List.erase_of_not_mem woken]
    omega

theorem Leaves.perm (leaves : wakeup.Leaves who later) :
    later.registered.Perm (wakeup.registered.filter (· ≠ who)) := by
  cases leaves with
  | passed woken wakes =>
    refine wakes.perm.trans ?_
    simp only [registered, consume, List.filter_append]
    exact .refl _
  | gone unwoken =>
    have same : wakeup.woken.filter (· ≠ who) = wakeup.woken :=
      List.filter_eq_self.2 fun other woken =>
        decide_eq_true fun here => unwoken (here ▸ woken)
    simp only [registered, List.filter_append, same]
    exact .refl _

theorem Leaves.kept (leaves : wakeup.Leaves who later) (nodup : wakeup.woken.Nodup)
    (waits : other ∈ later.waiting) :
    other ∈ wakeup.waiting ∧ wakeup.woken.length ≤ later.woken.length := by
  cases leaves with
  | passed woken wakes =>
    obtain ⟨waited, more⟩ := wakes.kept waits
    have one : wakeup.woken.length ≤ (wakeup.consume who).woken.length + 1 := length_consume_woken nodup
    exact ⟨List.mem_of_mem_filter waited, Nat.le_trans one (Nat.le_of_eq more.symm)⟩
  | gone unwoken => exact ⟨List.mem_of_mem_filter waits, Nat.le_refl _⟩

end Wakeup

/-- Something to wait at. What is relied on of it is what it does to its permit, to those who wait and to
those who were woken alone and have not looked. -/
structure Notifier (State α : Type) [DecidableEq α] where
  quiet : State
  enroll : State → α → State × Bool
  wakeOne : State → State
  wakeAll : State → State
  consume : State → α → State
  leave : State → α → State
  view : State → Wakeup α
  view_quiet : view quiet = .quiet
  view_enroll : ∀ state who,
    (view (enroll state who).1, (enroll state who).2) = (view state).enroll who
  view_wakeOne : ∀ state, (view state).WakesOne (view (wakeOne state))
  view_wakeAll : ∀ state, view (wakeAll state) = (view state).wakeAll.1
  view_consume : ∀ state who, view (consume state who) = (view state).consume who
  view_leave : ∀ state who, (view state).Leaves who (view (leave state who))

namespace Wakeup

variable {α : Type}

theorem wakesOne_wakeOne (wakeup : Wakeup α) : wakeup.WakesOne wakeup.wakeOne.1 := by
  unfold wakeOne
  split
  · rename_i nobody
    exact .stored nobody rfl nobody rfl
  · rename_i who rest waits
    refine .woken who rfl ?_ ?_
    · rw [waits]
    · exact List.perm_append_comm

variable [DecidableEq α]

theorem leaves_leave (wakeup : Wakeup α) (who : α) : wakeup.Leaves who (wakeup.leave who).1 := by
  unfold leave
  by_cases woken : who ∈ wakeup.woken
  · rw [if_pos woken]
    exact .passed woken (wakesOne_wakeOne _)
  · rw [if_neg woken]
    exact .gone woken

/-- First come first served is one way to wake. -/
def notifier : Notifier (Wakeup α) α where
  quiet := .quiet
  enroll := enroll
  wakeOne wakeup := wakeup.wakeOne.1
  wakeAll wakeup := wakeup.wakeAll.1
  consume := consume
  leave wakeup who := (wakeup.leave who).1
  view := id
  view_quiet := rfl
  view_enroll _ _ := rfl
  view_wakeOne := wakesOne_wakeOne
  view_wakeAll _ := rfl
  view_consume _ _ := rfl
  view_leave := leaves_leave

end Wakeup

/-! ### Callers, additions and the shutdown -/

/-- How far a caller that asks for an item has come. -/
inductive GetterPhase where
  | away
  | arriving
  /-- Has registered, or taken the permit, and is about to look. -/
  | enrolled (permitted : Bool)
  /-- Found nothing, and goes on when it is woken. -/
  | waiting
  /-- Has its answer, and is about to give up its place. -/
  | leaving
deriving DecidableEq

/-- Whether a caller at this point may have a place in line. -/
def GetterPhase.mayStand : GetterPhase → Bool
  | away | arriving => false
  | enrolled permitted => !permitted
  | waiting | leaving => true

structure GetterSession (State α : Type) where
  queue : WorkQueue
  notify : State
  phases : α → GetterPhase
  /-- Those who were woken and have not looked since. -/
  awake : List α
  /-- How many have put an item into the queue and are about to wake one caller. -/
  owed : Nat
  /-- How many have shut the queue down and are about to wake everyone. -/
  closing : Nat

namespace GetterSession

variable {State α : Type} [DecidableEq α]

def start (notifier : Notifier State α) : GetterSession State α :=
  { queue := .empty
    notify := notifier.quiet
    phases := fun _ => .away
    awake := []
    owed := 0
    closing := 0 }

def put (session : GetterSession State α) (who : α) (phase : GetterPhase) : GetterSession State α :=
  { session with phases := fun other => if other = who then phase else session.phases other }

/-- What a caller does is a step each time it touches what others use as well. A caller gives up only
while it waits. Putting an item into the queue and waking someone are two steps, and so are shutting down
and waking everyone. -/
inductive Step (notifier : Notifier State α) (session : GetterSession State α) :
    GetterSession State α → Prop where
  | called (who : α) (away : session.phases who = .away) :
      Step notifier session (session.put who .arriving)
  | enrolled (who : α) (arriving : session.phases who = .arriving) (notify : State)
      (permitted : Bool) (enrolls : notifier.enroll session.notify who = (notify, permitted)) :
      Step notifier session ({ session with notify }.put who (.enrolled permitted))
  | found (who : α) (permitted : Bool) (enrolled : session.phases who = .enrolled permitted)
      (queue : WorkQueue) (answer : WorkQueue.Answer) (took : session.queue.take = (queue, answer))
      (answered : answer ≠ .nothing) :
      Step notifier session
        ({ session with queue, awake := session.awake.erase who }.put who .leaving)
  /-- Until then it may have been woken for another item. -/
  | returned (who : α) (leaving : session.phases who = .leaving) :
      Step notifier session
        ({ session with notify := notifier.leave session.notify who }.put who .away)
  | waited (who : α) (enrolled : session.phases who = .enrolled false)
      (nothing : session.queue.take.2 = .nothing) :
      Step notifier session
        ({ session with awake := session.awake.erase who }.put who .waiting)
  /-- Whoever came with a permit tries again at once. -/
  | retried (who : α) (enrolled : session.phases who = .enrolled true)
      (nothing : session.queue.take.2 = .nothing) :
      Step notifier session
        ({ session with awake := session.awake.erase who }.put who .arriving)
  | woke (who : α) (waiting : session.phases who = .waiting)
      (woken : who ∉ (notifier.view session.notify).waiting) :
      Step notifier session
        ({ session with
            notify := notifier.consume session.notify who
            awake := who :: session.awake }.put who .arriving)
  | quit (who : α) (waiting : session.phases who = .waiting) :
      Step notifier session
        ({ session with notify := notifier.leave session.notify who }.put who .away)
  /-- Also when the time of a delayed addition has come. -/
  | added (item : String) :
      Step notifier session
        { session with
          queue := (session.queue.add item).1
          owed := session.owed + (session.queue.add item).2.toNat }
  | finished (item : String) :
      Step notifier session
        { session with
          queue := (session.queue.finish item).1
          owed := session.owed + (session.queue.finish item).2.toNat }
  | notified (owed : Nat) (owes : session.owed = owed + 1) :
      Step notifier session { session with notify := notifier.wakeOne session.notify, owed }
  | closed :
      Step notifier session
        { session with queue := session.queue.close, closing := session.closing + 1 }
  | released (closing : Nat) (closes : session.closing = closing + 1) :
      Step notifier session { session with notify := notifier.wakeAll session.notify, closing }

abbrev Leads (notifier : Notifier State α) : GetterSession State α → GetterSession State α → Prop :=
  Relation.ReflTransGen (Step notifier)

/-- A caller waits, and nobody has woken it. -/
def Waits (notifier : Notifier State α) (session : GetterSession State α) (who : α) : Prop :=
  session.phases who = .waiting ∧ who ∈ (notifier.view session.notify).waiting

/-- How many are going to look: each notification that is to be sent stands for one, as long as anyone
waits. -/
def stirring (notifier : Notifier State α) (session : GetterSession State α) : Nat :=
  session.owed + (notifier.view session.notify).woken.length + session.awake.length

/-- Nobody is registered twice, or without being there. -/
structure Registered (notifier : Notifier State α) (session : GetterSession State α) : Prop where
  apart : (notifier.view session.notify).registered.Nodup
  present : ∀ who ∈ (notifier.view session.notify).registered, (session.phases who).mayStand = true

/-- As long as someone waits, as many are going to look as there are items, and whoever shut the queue
down is going to wake everyone. -/
structure Sound (notifier : Notifier State α) (session : GetterSession State α) : Prop where
  registered : session.Registered notifier
  covered : ∀ who, session.Waits notifier who →
    session.queue.shutDown = false → session.queue.waiting.length ≤ session.stirring notifier
  closing : ∀ who, session.Waits notifier who →
    session.queue.shutDown = true → session.closing ≠ 0

variable {notifier : Notifier State α} {session later : GetterSession State α} {who other : α}

theorem sound_start : (start notifier).Sound notifier := by
  have nobody : (notifier.view (start notifier).notify).registered = [] := by
    simp [start, notifier.view_quiet, Wakeup.registered, Wakeup.quiet]
  refine ⟨⟨nobody ▸ List.nodup_nil, fun who here => ?_⟩, ?_, ?_⟩
  · rw [nobody] at here
    cases here
  · intro who waits
    cases waits.1
  · intro who waits
    cases waits.1

theorem phases_put (session : GetterSession State α) (who other : α) (phase : GetterPhase) :
    (session.put who phase).phases other = if other = who then phase else session.phases other :=
  rfl

/-! ### Registrations -/

theorem Registered.nodup_woken (registered : session.Registered notifier) :
    (notifier.view session.notify).woken.Nodup :=
  registered.apart.of_append_right

/-- The line may change its order, or one that was woken may join those who were. -/
theorem Registered.perm (registered : session.Registered notifier) {notify : State}
    (perm : (notifier.view notify).registered.Perm (notifier.view session.notify).registered) :
    { session with notify }.Registered notifier where
  apart := perm.nodup_iff.2 registered.apart
  present who here := registered.present who (perm.mem_iff.1 here)

theorem Registered.put (registered : session.Registered notifier) {phase : GetterPhase}
    (fits : who ∈ (notifier.view session.notify).registered → phase.mayStand = true) :
    (session.put who phase).Registered notifier where
  apart := registered.apart
  present other here := by
    rw [phases_put]
    split
    · rename_i same
      exact fits (same ▸ here)
    · exact registered.present other here

/-- Whoever is registered no more may go on as it likes. -/
theorem Registered.leave (registered : session.Registered notifier) {notify : State}
    (left : (notifier.view notify).registered.Perm
      ((notifier.view session.notify).registered.filter (· ≠ who))) (phase : GetterPhase) :
    ({ session with notify }.put who phase).Registered notifier where
  apart := left.nodup_iff.2 (registered.apart.filter _)
  present other here := by
    obtain ⟨before, ne⟩ := List.mem_filter.1 (left.mem_iff.1 here)
    rw [phases_put, if_neg (of_decide_eq_true ne)]
    exact registered.present other before

theorem Registered.enroll (registered : session.Registered notifier)
    (absent : who ∉ (notifier.view session.notify).registered) {notify : State} {permitted : Bool}
    (enrolls : notifier.enroll session.notify who = (notify, permitted)) :
    ({ session with notify }.put who (.enrolled permitted)).Registered notifier := by
  have view := notifier.view_enroll session.notify who
  rw [enrolls, Wakeup.enroll] at view
  split at view
  · obtain ⟨same, rfl⟩ := Prod.mk.inj view
    have perm : (notifier.view notify).registered.Perm (notifier.view session.notify).registered := by
      rw [same]
      exact .refl _
    exact (registered.perm perm).put fun here => absurd (perm.mem_iff.1 here) absent
  · obtain ⟨same, rfl⟩ := Prod.mk.inj view
    have perm : (notifier.view notify).registered.Perm
        (who :: (notifier.view session.notify).registered) := by
      rw [same, Wakeup.registered, List.append_assoc]
      exact List.perm_middle
    refine ⟨perm.nodup_iff.2 (List.nodup_cons.2 ⟨absent, registered.apart⟩), fun other here => ?_⟩
    rw [phases_put]
    split
    · rfl
    · rename_i ne
      exact registered.present other ((List.mem_cons.1 (perm.mem_iff.1 here)).resolve_left ne)

theorem Registered.step (registered : session.Registered notifier)
    (step : Step notifier session later) : later.Registered notifier := by
  have absent {who : α} {phase : GetterPhase} (now : session.phases who = phase)
      (apart : phase.mayStand = false) : who ∉ (notifier.view session.notify).registered := by
    intro here
    have stands := registered.present who here
    rw [now, apart] at stands
    cases stands
  cases step with
  | called who away => exact registered.put fun here => absurd here (absent away rfl)
  | enrolled who arriving notify permitted enrolls =>
    exact registered.enroll (absent arriving rfl) enrolls
  | found who permitted enrolled queue answer took answered =>
    have leaves : (session.put who .leaving).Registered notifier := registered.put fun _ => rfl
    exact ⟨leaves.apart, leaves.present⟩
  | returned who leaving =>
    exact registered.leave (notifier.view_leave session.notify who).perm .away
  | waited who enrolled nothing =>
    have waits : (session.put who .waiting).Registered notifier := registered.put fun _ => rfl
    exact ⟨waits.apart, waits.present⟩
  | retried who enrolled nothing =>
    have tries : (session.put who .arriving).Registered notifier :=
      registered.put fun here => absurd here (absent enrolled rfl)
    exact ⟨tries.apart, tries.present⟩
  | woke who waiting woken =>
    have left : (notifier.view (notifier.consume session.notify who)).registered =
        (notifier.view session.notify).registered.filter (· ≠ who) := by
      have kept : (notifier.view session.notify).waiting.filter (· ≠ who) =
          (notifier.view session.notify).waiting :=
        List.filter_eq_self.2 fun other waits => decide_eq_true fun here => woken (here ▸ waits)
      rw [notifier.view_consume, Wakeup.registered, Wakeup.registered, List.filter_append, kept]
      rfl
    obtain ⟨apart, present⟩ := registered.leave (.of_eq left) .arriving
    exact ⟨apart, present⟩
  | quit who waiting => exact registered.leave (notifier.view_leave session.notify who).perm .away
  | added item => exact ⟨registered.apart, registered.present⟩
  | finished item => exact ⟨registered.apart, registered.present⟩
  | notified owed owes =>
    obtain ⟨apart, present⟩ := registered.perm (notifier.view_wakeOne session.notify).perm
    exact ⟨apart, present⟩
  | closed => exact ⟨registered.apart, registered.present⟩
  | released closing closes =>
    have left : (notifier.view (notifier.wakeAll session.notify)).registered =
        (notifier.view session.notify).woken := by
      rw [notifier.view_wakeAll]
      rfl
    refine ⟨left ▸ registered.nodup_woken, fun who here => registered.present who ?_⟩
    exact List.mem_append_right _ (left ▸ here)

/-! ### Those who wait, and those who are going to look -/

/-- Each item that comes brings one who is going to look, and each who was going to look and looked took
an item away. -/
structure Keeps (notifier : Notifier State α) (session later : GetterSession State α) : Prop where
  covered : later.queue.shutDown = false → session.queue.shutDown = false ∧
    later.queue.waiting.length + session.stirring notifier ≤
      session.queue.waiting.length + later.stirring notifier
  closing : later.queue.shutDown = true →
    later.closing ≠ 0 ∨ session.queue.shutDown = true ∧ later.closing = session.closing

theorem keeps_of_same_queue (queue : later.queue = session.queue)
    (closing : later.closing = session.closing)
    (stirring : session.stirring notifier ≤ later.stirring notifier) : session.Keeps notifier later where
  covered running := ⟨queue ▸ running, by rw [queue]; omega⟩
  closing closed := .inr ⟨queue ▸ closed, closing⟩

/-- An item enters the queue, and whoever put it there is going to wake someone. -/
theorem keeps_of_entered (queue : WorkQueue) (items : List String) (entered : Bool)
    (waiting : queue.waiting = session.queue.waiting ++ items) (length : items.length = entered.toNat)
    (shutDown : queue.shutDown = session.queue.shutDown) :
    session.Keeps notifier { session with queue, owed := session.owed + entered.toNat } where
  covered running := by
    refine ⟨shutDown ▸ running, ?_⟩
    simp only [stirring, waiting, List.length_append, length]
    omega
  closing closed := .inr ⟨shutDown ▸ closed, rfl⟩

theorem waiting_of_put {phase : GetterPhase} (waiting : (session.put who phase).phases other = .waiting)
    (acts : phase ≠ .waiting) : session.phases other = .waiting := by
  rw [phases_put] at waiting
  split at waiting
  · exact absurd waiting acts
  · exact waiting

/-- Whoever comes is not one of those who wait, and changes nothing for them. -/
theorem keeps_enroll (arriving : session.phases who = .arriving) {notify : State} {permitted : Bool}
    (enrolls : notifier.enroll session.notify who = (notify, permitted))
    (waits : Waits notifier ({ session with notify }.put who (.enrolled permitted)) other) :
    session.Waits notifier other ∧
      session.Keeps notifier ({ session with notify }.put who (.enrolled permitted)) := by
  have waiting : session.phases other = .waiting := waiting_of_put waits.1 nofun
  have ne : other ≠ who := by
    rintro rfl
    cases waiting.symm.trans arriving
  have view : notifier.view notify = ((notifier.view session.notify).enroll who).1 := by
    have both := notifier.view_enroll session.notify who
    rw [enrolls] at both
    exact congrArg Prod.fst both
  have line : other ∈ (notifier.view notify).waiting := waits.2
  refine ⟨⟨waiting, ?_⟩, keeps_of_same_queue rfl rfl (Nat.le_of_eq ?_)⟩
  · rw [view] at line
    exact Wakeup.mem_waiting_enroll ne line
  · simp only [stirring, put, view, Wakeup.woken_enroll]

/-- Whoever looks and finds an item takes it, so one less has to look. -/
theorem keeps_found {queue : WorkQueue} {answer : WorkQueue.Answer}
    (took : session.queue.take = (queue, answer)) (answered : answer ≠ .nothing) :
    session.Keeps notifier
      ({ session with queue, awake := session.awake.erase who }.put who .leaving) := by
  have looked : session.awake.length - 1 ≤ (session.awake.erase who).length := List.le_length_erase
  rcases session.queue.take_cases with
    ⟨same, closed⟩ | ⟨same, _⟩ | ⟨item, rest, taken, same, running, waited, left, _, open_, _⟩
  · obtain ⟨rfl, _⟩ := Prod.mk.inj (took.symm.trans same)
    exact ⟨fun running => absurd closed (Bool.eq_false_iff.1 running), fun closed => .inr ⟨closed, rfl⟩⟩
  · exact absurd (Prod.mk.inj (took.symm.trans same)).2 answered
  · obtain ⟨rfl, _⟩ := Prod.mk.inj (took.symm.trans same)
    refine ⟨fun _ => ⟨running, ?_⟩, fun closed => absurd closed (Bool.eq_false_iff.1 open_)⟩
    simp only [stirring, put, left, waited, List.length_cons]
    omega

/-- Whoever leaves leaves the others in line, and was not the only one to be woken for an item. -/
theorem keeps_leave (nodup : (notifier.view session.notify).woken.Nodup)
    (waits : Waits notifier
      ({ session with notify := notifier.leave session.notify who }.put who .away) other) :
    session.Waits notifier other ∧ session.Keeps notifier
      ({ session with notify := notifier.leave session.notify who }.put who .away) := by
  obtain ⟨line, kept⟩ := (notifier.view_leave session.notify who).kept nodup waits.2
  refine ⟨⟨waiting_of_put waits.1 nofun, line⟩, keeps_of_same_queue rfl rfl ?_⟩
  simp only [stirring, put]
  omega

/-- Nobody begins to wait but where there was nothing. -/
theorem Step.keeps (registered : session.Registered notifier) (step : Step notifier session later)
    (waits : later.Waits notifier other) :
    later.queue.waiting = [] ∧ later.queue.shutDown = false ∨
      session.Waits notifier other ∧ session.Keeps notifier later := by
  have nodup := registered.nodup_woken
  cases step with
  | called who away =>
    exact .inr ⟨⟨waiting_of_put waits.1 nofun, waits.2⟩, keeps_of_same_queue rfl rfl (Nat.le_refl _)⟩
  | enrolled who arriving notify permitted enrolls =>
    exact .inr (keeps_enroll arriving enrolls waits)
  | found who permitted enrolled queue answer took answered =>
    exact .inr ⟨⟨waiting_of_put waits.1 nofun, waits.2⟩, keeps_found took answered⟩
  | returned who leaving => exact .inr (keeps_leave nodup waits)
  | waited who enrolled nothing => exact .inl (WorkQueue.of_take_nothing (Prod.ext rfl nothing)).2
  | retried who enrolled nothing => exact .inl (WorkQueue.of_take_nothing (Prod.ext rfl nothing)).2
  | woke who waiting woken =>
    have line : other ∈ (notifier.view session.notify).waiting := by
      have line : other ∈ (notifier.view (notifier.consume session.notify who)).waiting := waits.2
      rwa [notifier.view_consume] at line
    have one : (notifier.view session.notify).woken.length ≤
        ((notifier.view session.notify).consume who).woken.length + 1 :=
      Wakeup.length_consume_woken nodup
    refine .inr ⟨⟨waiting_of_put waits.1 nofun, line⟩, keeps_of_same_queue rfl rfl ?_⟩
    simp only [stirring, put, notifier.view_consume, List.length_cons]
    omega
  | quit who waiting => exact .inr (keeps_leave nodup waits)
  | added item =>
    refine .inr ⟨waits, keeps_of_entered _ _ _ (session.queue.add_waiting item) ?_
      (session.queue.add_shutDown item)⟩
    cases (session.queue.add item).2 <;> rfl
  | finished item =>
    refine .inr ⟨waits, keeps_of_entered _ _ _ (session.queue.finish_waiting item) ?_
      (session.queue.finish_shutDown item)⟩
    cases (session.queue.finish item).2 <;> rfl
  | notified owed owes =>
    obtain ⟨line, more⟩ := (notifier.view_wakeOne session.notify).kept waits.2
    refine .inr ⟨⟨waits.1, line⟩, keeps_of_same_queue rfl rfl ?_⟩
    simp only [stirring]
    omega
  | closed =>
    exact .inr ⟨waits, nofun, fun _ => .inl (Nat.succ_ne_zero _)⟩
  | released closing closes =>
    have line : other ∈ (notifier.view (notifier.wakeAll session.notify)).waiting := waits.2
    rw [notifier.view_wakeAll] at line
    cases line

theorem Sound.step (sound : session.Sound notifier) (step : Step notifier session later) :
    later.Sound notifier := by
  refine ⟨sound.registered.step step, fun who waits running => ?_, fun who waits closed => ?_⟩
  · rcases step.keeps sound.registered waits with ⟨none, _⟩ | ⟨waited, keeps⟩
    · rw [none]
      exact Nat.zero_le _
    · obtain ⟨before, kept⟩ := keeps.covered running
      have covered := sound.covered who waited before
      omega
  · rcases step.keeps sound.registered waits with ⟨_, running⟩ | ⟨waited, keeps⟩
    · exact absurd closed (Bool.eq_false_iff.1 running)
    · rcases keeps.closing closed with some | ⟨before, same⟩
      · exact some
      · rw [same]
        exact sound.closing who waited before

theorem Sound.leads (sound : session.Sound notifier) (leads : Leads notifier session later) :
    later.Sound notifier := by
  induction leads with
  | refl => exact sound
  | tail _ step ih => exact ih.step step

/-- Nobody is between a change of the queue and its notification, and each caller that was woken has
looked since, or is gone. -/
structure Settled (notifier : Notifier State α) (session : GetterSession State α) : Prop where
  owed : session.owed = 0
  closing : session.closing = 0
  woken : (notifier.view session.notify).woken = []
  awake : session.awake = []
  asleep : ∀ who, session.phases who = .waiting → who ∈ (notifier.view session.notify).waiting

/-- **No wakeup is lost.** However the steps of callers, additions and shutdowns follow each other, and
whoever is woken for an item: once those who were woken have looked, nobody waits while there is an item,
or after the queue was shut down. -/
theorem nobody_waits (notifier : Notifier State α) {session : GetterSession State α}
    (run : Leads notifier (start notifier) session) (settled : session.Settled notifier) (who : α)
    (waiting : session.phases who = .waiting) :
    session.queue.waiting = [] ∧ session.queue.shutDown = false := by
  have sound := sound_start.leads run
  have waits : session.Waits notifier who := ⟨waiting, settled.asleep who waiting⟩
  have running : session.queue.shutDown = false := by
    rw [Bool.eq_false_iff]
    exact fun closed => sound.closing who waits closed settled.closing
  have calm : session.stirring notifier = 0 := by
    simp [stirring, settled.owed, settled.woken, settled.awake]
  refine ⟨List.eq_nil_of_length_eq_zero ?_, running⟩
  exact Nat.le_zero.1 (calm ▸ sound.covered who waits running)

/-- One of three that wait is woken for an item and gives up, and a second takes the item instead. -/
theorem nobody_waits_third : ∃ session : GetterSession (Wakeup Nat) Nat,
    Leads Wakeup.notifier (start Wakeup.notifier) session ∧ session.Settled Wakeup.notifier ∧
      session.phases 0 = .away ∧ session.phases 1 = .away ∧ session.phases 2 = .waiting ∧
      session.queue.processing = ["service/web"] ∧ session.queue.waiting = [] := by
  let step := Step (Wakeup.notifier : Notifier (Wakeup Nat) Nat)
  have run := (Relation.ReflTransGen.refl (r := step) (a := start Wakeup.notifier))
    |>.tail (.called 0 rfl) |>.tail (.enrolled 0 rfl _ _ rfl) |>.tail (.waited 0 rfl rfl)
    |>.tail (.called 1 rfl) |>.tail (.enrolled 1 rfl _ _ rfl) |>.tail (.waited 1 rfl rfl)
    |>.tail (.called 2 rfl) |>.tail (.enrolled 2 rfl _ _ rfl) |>.tail (.waited 2 rfl rfl)
    |>.tail (.added "service/web") |>.tail (.notified 0 rfl) |>.tail (.quit 0 rfl)
    |>.tail (.woke 1 rfl (by decide)) |>.tail (.enrolled 1 rfl _ _ rfl)
    |>.tail (.found 1 false rfl _ _ rfl nofun) |>.tail (.returned 1 rfl)
  refine ⟨_, run, ?settled, rfl, rfl, rfl, rfl, (nobody_waits _ run ?settled 2 rfl).1⟩
  refine ⟨rfl, rfl, rfl, rfl, fun who waiting => ?_⟩
  rcases who with _ | _ | _ | _
  · cases waiting
  · cases waiting
  · decide
  · cases waiting

end GetterSession

end TunnelIngress
