import TunnelIngress.Proofs.Control.RetryAccounts
import TunnelIngress.Resource.Key

/-!
# Items that are tried again

A worker takes an item and handles it. When that fails, the worker looks how often the item has failed
before. As long as the limit allows, the failure is counted and the item comes back after a delay; else
it is dropped and its count forgotten. Additions from outside, delays that are over and other workers may
come between any two of these steps.
-/

namespace TunnelIngress

/-- How far the worker that holds an item has come with it. -/
inductive HandlingStage where
  | unheld
  | taken
  | failed
  /-- The limit allows another try, or does not. -/
  | judged (again : Bool)
  /-- The failure is counted and the item is to be added again after the delay. -/
  | retrying (delay : Duration)
  | settled
  /-- The worker died and keeps the item. -/
  | stuck

namespace HandlingStage

/-- The runs that the one in progress may still lead to, itself included. -/
def chances : HandlingStage → Nat
  | taken | failed | judged _ | retrying _ | stuck => 1
  | unheld | settled => 0

def uncounted : HandlingStage → Nat
  | failed | judged _ | stuck => 1
  | unheld | taken | retrying _ | settled => 0

end HandlingStage

structure RetrySession where
  work : QueueSession
  limiter : RateLimiter
  stages : String → HandlingStage
  /-- All items that were ever added from outside. -/
  added : List String
  /-- All items that were ever handled. -/
  handled : List String

namespace RetrySession

def start (limiter : RateLimiter) : RetrySession :=
  { work := .new, limiter, stages := fun _ => .unheld, added := [], handled := [] }

def put (session : RetrySession) (item : String) (stage : HandlingStage) : RetrySession :=
  { session with stages := fun other => if other = item then stage else session.stages other }

/-- What a worker does with an item is a step each time it touches what others use as well. A worker
dies of a panic while it handles the item, or where no duration is as long as the delay. -/
inductive Step (limit : UInt32) (session : RetrySession) : RetrySession → Prop where
  | added (item : String) :
      Step limit session
        { session with work := session.work.add item, added := item :: session.added }
  | due (item : String) (work : QueueSession) (step : session.work.step? (.due item) = some work) :
      Step limit session { session with work }
  | took (caller : Nat) (item : String) (taken : WorkQueue)
      (answer : session.work.queue.take = (taken, .item item)) :
      Step limit session ({ session with work := session.work.take caller }.put item .taken)
  | malformed (item : String) (error : KeyError) (read : WorkKey.read item = .error error)
      (taken : session.stages item = .taken) :
      Step limit session
        ({ session with limiter := session.limiter.forget item }.put item .settled)
  | succeeded (item : String) (taken : session.stages item = .taken) :
      Step limit session
        ({ session with
            limiter := session.limiter.forget item
            handled := item :: session.handled }.put item .settled)
  | failed (item : String) (taken : session.stages item = .taken) :
      Step limit session ({ session with handled := item :: session.handled }.put item .failed)
  | died (item : String) (taken : session.stages item = .taken) :
      Step limit session ({ session with handled := item :: session.handled }.put item .stuck)
  | judged (item : String) (failed : session.stages item = .failed) :
      Step limit session
        (session.put item (.judged (session.limiter.failureCount item < limit.toNat)))
  | counted (item : String) (again : session.stages item = .judged true) (now : Nat)
      (delay : Duration) (wait : (session.limiter.delay item now).2 = some delay) :
      Step limit session
        ({ session with limiter := (session.limiter.delay item now).1 }.put item (.retrying delay))
  | broke (item : String) (again : session.stages item = .judged true) (now : Nat)
      (wait : (session.limiter.delay item now).2 = none) :
      Step limit session
        ({ session with limiter := (session.limiter.delay item now).1 }.put item .stuck)
  | dropped (item : String) (spent : session.stages item = .judged false) :
      Step limit session
        ({ session with limiter := session.limiter.forget item }.put item .settled)
  | postponed (item : String) (delay : Duration) (retries : session.stages item = .retrying delay)
      (work : QueueSession) (step : session.work.step? (.addAfter item delay) = some work) :
      Step limit session ({ session with work }.put item .settled)
  | finished (caller : Nat) (item : String) (settled : session.stages item = .settled)
      (work : QueueSession) (step : session.work.step? (.finish caller item) = some work) :
      Step limit session ({ session with work }.put item .unheld)
  | closed : Step limit session { session with work := session.work.close }

abbrev Leads (limit : UInt32) : RetrySession → RetrySession → Prop :=
  Relation.ReflTransGen (Step limit)

def account (session : RetrySession) (item : String) : RetryAccount :=
  { added := session.added.count item
    handled := session.handled.count item
    chances := session.work.chances item + (session.stages item).chances
    failures := session.limiter.failureCount item
    uncounted := (session.stages item).uncounted
    closed := session.work.queue.shutDown }

/-- What is being worked on is in somebody's hands, so nobody else touches its count. -/
structure Sound (limit : UInt32) (session : RetrySession) : Prop where
  work : session.work.Sound
  held : ∀ item, session.stages item ≠ .unheld → item ∈ session.work.held.map (·.2)
  below : ∀ item, session.stages item = .judged true → session.limiter.failureCount item < limit.toNat

variable {limit : UInt32} {session later : RetrySession} {item other : String}

theorem sound_start (limiter : RateLimiter) : (start limiter).Sound limit where
  work := QueueSession.sound_new
  held _ held := absurd rfl held
  below _ judged := nomatch judged

theorem stages_put (session : RetrySession) (item other : String) (stage : HandlingStage) :
    (session.put item stage).stages other = if other = item then stage else session.stages other :=
  rfl

/-- A worker goes on with the item that it has, and counts or forgets its failures. -/
theorem Sound.act (sound : session.Sound limit) (limiter : RateLimiter) (handled : List String)
    (stage : HandlingStage) (works : session.stages item ≠ .unheld)
    (others : ∀ other, other ≠ item →
      limiter.failureCount other = session.limiter.failureCount other)
    (below : stage = .judged true → limiter.failureCount item < limit.toNat) :
    (RetrySession.put { session with limiter, handled } item stage).Sound limit where
  work := sound.work
  held other now := by
    rw [stages_put] at now
    split at now
    · rename_i same
      exact same ▸ sound.held item works
    · exact sound.held other now
  below other now := by
    rw [stages_put] at now
    split at now
    · rename_i same
      exact same ▸ below now
    · rename_i ne
      exact others other ne ▸ sound.below other now

/-- Items come and go, and a worker goes on with one of them. -/
theorem Sound.turn (sound : session.Sound limit) {work : QueueSession} (worked : work.Sound)
    {stage : HandlingStage} (fresh : stage ≠ .judged true)
    (here : stage ≠ .unheld → item ∈ work.held.map (·.2))
    (others : ∀ other, other ≠ item → other ∈ session.work.held.map (·.2) →
      other ∈ work.held.map (·.2)) :
    (RetrySession.put { session with work } item stage).Sound limit where
  work := worked
  held other now := by
    rw [stages_put] at now
    split at now
    · rename_i same
      exact same ▸ here now
    · rename_i ne
      exact others other ne (sound.held other now)
  below other now := by
    rw [stages_put] at now
    split at now
    · exact absurd now fresh
    · exact sound.below other now

theorem Sound.step (sound : session.Sound limit) (step : Step limit session later) :
    later.Sound limit := by
  have busy {item : String} {stage : HandlingStage} (now : session.stages item = stage)
      (held : stage ≠ .unheld) : session.stages item ≠ .unheld := now ▸ held
  have forgot (item : String) (other : String) (ne : other ≠ item) :=
    session.limiter.failureCount_forget_of_ne ne
  cases step with
  | added item => exact ⟨sound.work.add item, sound.held, sound.below⟩
  | due item work step =>
    refine ⟨sound.work.step ⟨_, step⟩, ?_, sound.below⟩
    rw [show work.held = _ from (QueueSession.gains_due step).held]
    exact sound.held
  | took caller item taken answer =>
    have held := (QueueSession.take_item answer caller).1
    refine sound.turn (sound.work.take caller) nofun (fun _ => ?_) fun other _ mem => ?_
    · rw [held]
      exact List.mem_cons_self
    · rw [held]
      exact List.mem_cons_of_mem item mem
  | malformed item error read taken => exact sound.act _ _ _ (busy taken nofun) (forgot item) nofun
  | succeeded item taken => exact sound.act _ _ _ (busy taken nofun) (forgot item) nofun
  | failed item taken => exact sound.act _ _ _ (busy taken nofun) (fun _ _ => rfl) nofun
  | died item taken => exact sound.act _ _ _ (busy taken nofun) (fun _ _ => rfl) nofun
  | judged item failed =>
    refine sound.act _ _ _ (busy failed nofun) (fun _ _ => rfl) fun again => ?_
    exact of_decide_eq_true (HandlingStage.judged.inj again)
  | counted item again now delay wait =>
    exact sound.act _ _ _ (busy again nofun)
      (fun _ ne => session.limiter.failureCount_delay_of_ne ne now) nofun
  | broke item again now wait =>
    exact sound.act _ _ _ (busy again nofun)
      (fun _ ne => session.limiter.failureCount_delay_of_ne ne now) nofun
  | dropped item spent => exact sound.act _ _ _ (busy spent nofun) (forgot item) nofun
  | postponed item delay retries work step =>
    have held := (QueueSession.gains_addAfter step).held
    refine sound.turn (sound.work.step ⟨_, step⟩) nofun (fun _ => ?_) fun other _ mem => ?_
    · rw [held]
      exact sound.held item (busy retries nofun)
    · rwa [held]
  | finished caller item settled work step =>
    refine sound.turn (sound.work.step ⟨_, step⟩) nofun (fun held => absurd rfl held)
      fun other ne mem => ?_
    simp only [QueueSession.step?] at step
    split at step
    · rename_i holds
      cases step
      exact (QueueSession.mem_map_erase sound.work.exclusive holds other).2 ⟨mem, ne⟩
    · cases step
  | closed => exact ⟨sound.work.step ⟨.close, rfl⟩, sound.held, sound.below⟩

/-! ### What a step does to the account of an item -/

/-- An account whose item nobody touches. -/
theorem moves_of_same {limit : Nat} (chances : later.work.chances item = session.work.chances item)
    (shutDown : later.work.queue.shutDown = session.work.queue.shutDown)
    (failures : later.limiter.failureCount item = session.limiter.failureCount item)
    (stages : later.stages item = session.stages item)
    (added : later.added.count item = session.added.count item)
    (handled : later.handled.count item = session.handled.count item) :
    (session.account item).Moves limit (later.account item) := by
  have same : later.account item = session.account item := by
    simp only [account, chances, shutDown, failures, stages, added, handled]
  exact same ▸ .still

/-- What a worker does with an item without the queue. -/
theorem moves_acted {limit : Nat} {done : String} (limiter : RateLimiter) (handled : List String)
    (stage : HandlingStage)
    (failures : ∀ other, other ≠ done →
      limiter.failureCount other = session.limiter.failureCount other)
    (runs : ∀ other, other ≠ done → handled.count other = session.handled.count other)
    (moves : (session.account done).Moves limit { session.account done with
      handled := handled.count done
      chances := session.work.chances done + stage.chances
      failures := limiter.failureCount done
      uncounted := stage.uncounted }) (item : String) :
    (session.account item).Moves limit
      ((RetrySession.put { session with limiter, handled } done stage).account item) := by
  by_cases same : item = done
  · subst same
    have stages : (RetrySession.put { session with limiter, handled } item stage).stages item = stage :=
      if_pos rfl
    simp only [account, stages]
    exact moves
  · exact moves_of_same rfl rfl (failures item same) (if_neg same) rfl (runs item same)

/-- What the queue and a worker do with an item. -/
theorem moves_worked {limit : Nat} {done : String} (work : QueueSession) (stage : HandlingStage)
    (shutDown : work.queue.shutDown = session.work.queue.shutDown)
    (others : ∀ other, other ≠ done → work.chances other = session.work.chances other)
    (uncounted : stage.uncounted = (session.account done).uncounted)
    (moves : (session.account done).Moves limit
      { session.account done with chances := work.chances done + stage.chances }) (item : String) :
    (session.account item).Moves limit
      ((RetrySession.put { session with work } done stage).account item) := by
  by_cases same : item = done
  · subst same
    have stages : (RetrySession.put { session with work } item stage).stages item = stage := if_pos rfl
    have closed : (RetrySession.put { session with work } item stage).work.queue.shutDown =
        session.work.queue.shutDown := shutDown
    simp only [account, stages, closed, uncounted]
    exact moves
  · exact moves_of_same (others item same) shutDown rfl (if_neg same) rfl rfl

theorem put_stage (session : RetrySession) (item : String) :
    session.put item (session.stages item) = session := by
  have same : (fun other => if other = item then session.stages item else session.stages other) =
      session.stages := by
    funext other
    split
    · rename_i here
      rw [here]
    · rfl
  simp only [RetrySession.put, same]

theorem chances_of_stage {stage : HandlingStage} (now : session.stages item = stage) :
    (session.account item).chances = session.work.chances item + stage.chances ∧
      (session.account item).uncounted = stage.uncounted := by
  simp only [account, now, and_self]

theorem moves_added {limit : Nat} (new : String) (item : String) :
    (session.account item).Moves limit (RetrySession.account
      { session with work := session.work.add new, added := new :: session.added } item) := by
  by_cases same : item = new
  · subst same
    have gained : (session.work.add item).chances item = session.work.chances item ∨
        (session.work.add item).chances item = session.work.chances item + 1 :=
      QueueSession.chances_add.symm.imp_left And.left
    have moves : (session.account item).Moves limit { session.account item with
        added := session.added.count item + 1
        chances := (session.work.add item).chances item + (session.stages item).chances } := by
      refine .add _ ?_
      dsimp only [account]
      omega
    simpa [account, QueueSession.add] using moves
  · have chances : (session.work.add new).chances item = session.work.chances item :=
      QueueSession.chances_add_other same
    refine moves_of_same chances ?_ rfl rfl (List.count_cons_of_ne (Ne.symm same)) rfl
    exact session.work.queue.add_shutDown new

/-- A delay that is over may come to nothing, if the item waits already. -/
theorem moves_due {limit : Nat} {due : String} {work : QueueSession}
    (step : session.work.step? (.due due) = some work) (item : String) :
    (session.account item).Moves limit (RetrySession.account { session with work } item) := by
  obtain ⟨others, left, one, next⟩ := QueueSession.chances_due step
  have shutDown := (QueueSession.gains_due step).shutDown
  rw [← put_stage { session with work } due]
  refine moves_worked work (session.stages due) shutDown others rfl ?_ item
  have one : (session.account due).chances = left + (session.stages due).chances + 1 := by
    dsimp only [account]
    omega
  refine .requeue one (next.imp (fun more => by omega) (And.imp (fun same => by omega) ?_))
  exact Or.imp_right fun some => by omega

/-- Whoever takes an item has the chance that waited in the queue. -/
theorem moves_took {limit : Nat} (unheld : session.stages item = .unheld) (sound : session.work.Sound)
    {queue : WorkQueue} (answer : session.work.queue.take = (queue, .item item)) (caller : Nat)
    (other : String) : (session.account other).Moves limit
      ((RetrySession.put { session with work := session.work.take caller } item .taken).account other) := by
  obtain ⟨one, others⟩ := QueueSession.chances_take sound answer caller
  obtain ⟨waits, none⟩ := chances_of_stage unheld
  have shutDown := (QueueSession.take_item answer caller).2.1
  have same : (session.work.take caller).chances item + HandlingStage.taken.chances =
      (session.account item).chances := one.trans waits.symm
  refine moves_worked _ .taken shutDown others none.symm ?_ other
  rw [same]
  exact .still

theorem Step.moves (sound : session.Sound limit) (step : Step limit session later) (item : String) :
    (session.account item).Moves limit.toNat (later.account item) := by
  have ran (done other : String) (ne : other ≠ done) :
      (done :: session.handled).count other = session.handled.count other :=
    List.count_cons_of_ne (Ne.symm ne)
  have forgot (done : String) (other : String) (ne : other ≠ done) :=
    session.limiter.failureCount_forget_of_ne ne
  have delayed (done : String) (now : Nat) (other : String) (ne : other ≠ done) :=
    session.limiter.failureCount_delay_of_ne ne now
  cases step with
  | added new => exact moves_added new item
  | due due work step => exact moves_due step item
  | took caller taken queue answer =>
    have unheld : session.stages taken = .unheld := by
      by_contra held
      have processed := (sound.work.processing taken).2 (sound.held taken held)
      exact sound.work.consistent.idle taken (QueueSession.waits_of_taken answer) processed
    exact moves_took unheld sound.work answer caller item
  | malformed done error read taken =>
    obtain ⟨one, _⟩ := chances_of_stage taken
    refine moves_acted _ _ .settled (forgot done) (fun _ _ => rfl) ?_ item
    rw [session.limiter.failureCount_forget]
    exact .drop _ one
  | succeeded done taken =>
    obtain ⟨one, none⟩ := chances_of_stage taken
    refine moves_acted _ _ .settled (forgot done) (ran done) ?_ item
    rw [session.limiter.failureCount_forget, List.count_cons_self]
    exact .succeed _ one none
  | failed done taken =>
    obtain ⟨one, none⟩ := chances_of_stage taken
    refine moves_acted _ _ .failed (fun _ _ => rfl) (ran done) ?_ item
    rw [List.count_cons_self]
    exact .fail _ one none
  | died done taken =>
    obtain ⟨one, none⟩ := chances_of_stage taken
    refine moves_acted _ _ .stuck (fun _ _ => rfl) (ran done) ?_ item
    rw [List.count_cons_self]
    exact .fail _ one none
  | judged done failed =>
    have same : (session.account done).Moves limit.toNat (session.account done) := .still
    simp only [account, failed] at same
    refine moves_acted _ _ (.judged _) (fun _ _ => rfl) (fun _ _ => rfl) ?_ item
    simp only [account, failed]
    exact same
  | counted done again now delay wait =>
    obtain ⟨one, some⟩ := chances_of_stage again
    have below := sound.below done again
    refine moves_acted _ _ (.retrying delay) (delayed done now) (fun _ _ => rfl) ?_ item
    rw [session.limiter.failureCount_delay done now below]
    exact .count _ 0 one some below (Nat.zero_le 1)
  | broke done again now wait =>
    obtain ⟨one, some⟩ := chances_of_stage again
    have below := sound.below done again
    refine moves_acted _ _ .stuck (delayed done now) (fun _ _ => rfl) ?_ item
    rw [session.limiter.failureCount_delay done now below]
    exact .count _ 1 one some below (Nat.le_refl 1)
  | dropped done spent =>
    obtain ⟨one, _⟩ := chances_of_stage spent
    refine moves_acted _ _ .settled (forgot done) (fun _ _ => rfl) ?_ item
    rw [session.limiter.failureCount_forget]
    exact .drop _ one
  | postponed done delay retries work step =>
    obtain ⟨others, next⟩ := QueueSession.chances_addAfter step
    obtain ⟨one, none⟩ := chances_of_stage retries
    have shutDown := (QueueSession.gains_addAfter step).shutDown
    exact moves_worked work .settled shutDown others none.symm (.requeue one next) item
  | finished caller done settled work step =>
    obtain ⟨shutDown, others⟩ := QueueSession.chances_finish step
    obtain ⟨same, none⟩ := chances_of_stage settled
    refine moves_worked work .unheld shutDown (fun other _ => others other) none.symm ?_ item
    rw [others done, show session.work.chances done + HandlingStage.unheld.chances =
      (session.account done).chances from same.symm]
    exact .still
  | closed => exact .close

theorem balanced_start (limiter : RateLimiter) (fresh : limiter.failures = ∅) (limit : Nat)
    (item : String) : ((start limiter).account item).Balanced limit := by
  have failures : limiter.failureCount item = 0 := by simp [RateLimiter.failureCount, fresh, Table.getD]
  refine ⟨?_, Nat.zero_le 1, ?_, fun _ _ => failures⟩
  · exact Nat.le_trans (Nat.le_of_eq failures) (Nat.zero_le limit)
  · simp [account, start, QueueSession.chances, QueueSession.new, WorkQueue.empty, HandlingStage.chances]

theorem Sound.leads (sound : session.Sound limit) (leads : Leads limit session later) :
    later.Sound limit ∧ ∀ item, (session.account item).Balanced limit.toNat →
      (later.account item).Balanced limit.toNat := by
  induction leads with
  | refl => exact ⟨sound, fun _ balanced => balanced⟩
  | tail _ step ih =>
    exact ⟨ih.1.step step, fun item balanced => (ih.2 item balanced).moves (step.moves ih.1 item)⟩

/-- **Retries are bounded and leave no count behind.** Whatever comes in which order, an item is handled
at most once, and once more for each retry that the limit allows, per addition from outside. Where it
neither waits nor is held, and no retry of it is to come, its failures are forgotten, unless the queue
was shut down. -/
theorem retries_bounded (base cap : Duration) (rate : Float) (burst : UInt64) (now : Nat)
    (limit : UInt32) {session : RetrySession}
    (run : Leads limit (start (.new base cap rate burst now)) session) (item : String) :
    session.handled.count item ≤ (limit.toNat + 1) * session.added.count item ∧
    (session.work.queue.shutDown = false → item ∉ session.work.queue.waiting →
      item ∉ session.work.queue.dirty → item ∉ session.work.queue.processing →
      item ∉ session.work.delayed → session.limiter.failureCount item = 0) := by
  obtain ⟨sound, kept⟩ := (sound_start _).leads run
  have balanced := kept item (balanced_start _ rfl _ item)
  refine ⟨balanced.handled_le, fun running _ clean released calm => ?_⟩
  have unheld : session.stages item = .unheld := by
    by_contra held
    exact released ((sound.work.processing item).2 (sound.held item held))
  refine balanced.clear running ?_
  simp [account, QueueSession.chances, unheld, HandlingStage.chances, clean, List.count_eq_zero_of_not_mem calm]

/-- An item that fails whenever it is handled comes back once after a delay, and is then dropped. -/
theorem retries_bounded_once_more : ∃ session,
    Leads 1 (start (.standard 0)) session ∧
    session.handled.count "service/shop/web" = (1 + 1) * session.added.count "service/shop/web" ∧
    session.added.count "service/shop/web" = 1 ∧ session.limiter.failureCount "service/shop/web" = 0 := by
  have delayed := (Relation.ReflTransGen.refl (r := Step 1) (a := start (.standard 0)))
    |>.tail (.added "service/shop/web")
    |>.tail (.took 0 "service/shop/web" _ rfl)
    |>.tail (.failed "service/shop/web" rfl)
    |>.tail (.judged "service/shop/web" rfl)
    |>.tail (.counted "service/shop/web" rfl 0 ⟨5000000, by decide⟩ (by decide +kernel))
    |>.tail (.postponed "service/shop/web" _ rfl _ rfl)
    |>.tail (.finished 0 "service/shop/web" rfl _ rfl)
  have run := delayed
    |>.tail (.due "service/shop/web" _ rfl)
    |>.tail (.took 1 "service/shop/web" _ rfl)
    |>.tail (.failed "service/shop/web" rfl)
    |>.tail (.judged "service/shop/web" rfl)
    |>.tail (.dropped "service/shop/web" rfl)
    |>.tail (.finished 1 "service/shop/web" rfl _ rfl)
  have bounded := retries_bounded _ _ _ _ _ _ run "service/shop/web"
  exact ⟨_, run, rfl, rfl, bounded.2 rfl (by decide) (by decide) (by decide) (by decide)⟩

end RetrySession

end TunnelIngress
