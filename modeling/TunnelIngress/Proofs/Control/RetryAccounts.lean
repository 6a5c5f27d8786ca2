import TunnelIngress.Control.RateLimiter
import TunnelIngress.Proofs.Control.QueueSafety

/-!
# Accounts of items that are tried again

An item that is added has chances to be handled: in the queue, in a worker's hands, and one for each
delay after which it comes back. All chances of an item share one count of failures. Each addition pays
for one run more than the limit, and each failure that is counted spends one of them; a chance that is
lost settles the account, whatever was counted by then.
-/

namespace TunnelIngress

structure RetryAccount where
  /-- How often the item was added from outside. -/
  added : Nat
  handled : Nat
  /-- The runs that are still to come, those in progress included. -/
  chances : Nat
  failures : Nat
  /-- The runs that have failed and are not counted yet. -/
  uncounted : Nat
  closed : Bool

namespace RetryAccount

/-- What can happen to an account. -/
inductive Moves (limit : Nat) (account : RetryAccount) : RetryAccount → Prop where
  | still : Moves limit account account
  | add (chances : Nat) (gained : chances = account.chances ∨ chances = account.chances + 1) :
      Moves limit account { account with added := account.added + 1, chances }
  /-- A chance that comes when the item waits already is no other chance. -/
  | merge (left : Nat) (two : account.chances = left + 2) :
      Moves limit account { account with chances := left + 1 }
  | refuse (left : Nat) (one : account.chances = left + 1) (closed : account.closed = true) :
      Moves limit account { account with chances := left }
  | fail (left : Nat) (one : account.chances = left + 1) (none : account.uncounted = 0) :
      Moves limit account
        { account with handled := account.handled + 1, chances := left + 1, uncounted := 1 }
  | succeed (left : Nat) (one : account.chances = left + 1) (none : account.uncounted = 0) :
      Moves limit account
        { account with
            handled := account.handled + 1, chances := left, failures := 0, uncounted := 0 }
  | drop (left : Nat) (one : account.chances = left + 1) :
      Moves limit account { account with chances := left, failures := 0, uncounted := 0 }
  | count (left uncounted : Nat) (one : account.chances = left + 1) (failed : account.uncounted = 1)
      (below : account.failures < limit) (less : uncounted ≤ 1) :
      Moves limit account
        { account with chances := left + 1, failures := account.failures + 1, uncounted }
  | close : Moves limit account { account with closed := true }

/-- Each addition from outside pays for one run more than the limit. What was counted since a chance was
last lost is spent in advance. -/
structure Balanced (limit : Nat) (account : RetryAccount) : Prop where
  failures : account.failures ≤ limit
  uncounted : account.uncounted ≤ 1
  paid : account.handled + (limit + 1) * account.chances ≤ (limit + 1) * account.added +
    if account.chances = 0 then 0 else account.failures + account.uncounted
  clear : account.closed = false → account.chances = 0 → account.failures = 0

variable {limit : Nat} {account later : RetryAccount}

theorem Balanced.handled_le (balanced : account.Balanced limit) :
    account.handled ≤ (limit + 1) * account.added := by
  have paid := balanced.paid
  have failures := balanced.failures
  have uncounted := balanced.uncounted
  split at paid
  · omega
  · rename_i some
    obtain ⟨left, one⟩ := Nat.exists_eq_succ_of_ne_zero some
    rw [one, Nat.mul_succ] at paid
    omega

/-- What was paid for a chance that is lost covers all that was counted. -/
theorem Balanced.lose (balanced : account.Balanced limit) {left : Nat}
    (one : account.chances = left + 1) :
    account.handled + 1 + (limit + 1) * left ≤ (limit + 1) * account.added + account.uncounted := by
  have paid := balanced.paid
  have failures := balanced.failures
  rw [if_neg (by omega), one, Nat.mul_succ] at paid
  omega

theorem Balanced.moves (balanced : account.Balanced limit) (moves : account.Moves limit later) :
    later.Balanced limit := by
  have paid := balanced.paid
  have uncounted_le := balanced.uncounted
  cases moves with
  | still => exact balanced
  | add chances gained =>
    have same : chances = 0 → account.chances = 0 := by omega
    refine ⟨balanced.failures, uncounted_le, ?_, fun running none => ?_⟩
    · have more : (limit + 1) * chances ≤ (limit + 1) * account.chances + (limit + 1) := by
        rw [← Nat.mul_succ]
        exact Nat.mul_le_mul_left _ (by omega)
      simp only [Nat.mul_succ]
      by_cases none : chances = 0
      · rw [same none, if_pos rfl] at paid
        rw [none, if_pos rfl]
        omega
      · rw [if_neg none]
        split at paid <;> omega
    · exact balanced.clear running (same none)
  | merge left two =>
    have lost := balanced.lose two
    refine ⟨balanced.failures, uncounted_le, ?_, fun _ none => absurd none (Nat.succ_ne_zero left)⟩
    rw [if_neg (Nat.succ_ne_zero left)]
    dsimp only
    omega
  | refuse left one closed =>
    have lost := balanced.lose one
    refine ⟨balanced.failures, uncounted_le, ?_, fun running => ?_⟩
    · dsimp only
      omega
    · cases closed.symm.trans running
  | fail left one none =>
    refine ⟨balanced.failures, Nat.le_refl 1, ?_, fun _ none => absurd none (Nat.succ_ne_zero left)⟩
    rw [one, if_neg (Nat.succ_ne_zero left)] at paid
    rw [if_neg (Nat.succ_ne_zero left)]
    dsimp only
    omega
  | succeed left one none =>
    have lost := balanced.lose one
    refine ⟨Nat.zero_le limit, Nat.zero_le 1, ?_, fun _ _ => rfl⟩
    dsimp only
    omega
  | drop left one =>
    have lost := balanced.lose one
    refine ⟨Nat.zero_le limit, Nat.zero_le 1, ?_, fun _ _ => rfl⟩
    dsimp only
    omega
  | count left uncounted one failed below less =>
    refine ⟨below, less, ?_, fun _ none => absurd none (Nat.succ_ne_zero left)⟩
    rw [one, if_neg (Nat.succ_ne_zero left)] at paid
    rw [if_neg (Nat.succ_ne_zero left)]
    dsimp only
    omega
  | close => exact ⟨balanced.failures, uncounted_le, paid, nofun⟩

/-- A chance that is added to the queue becomes one that waits, merges with one, or is refused. -/
theorem Moves.requeue {left chances : Nat} (one : account.chances = left + 1)
    (next : chances = left + 1 ∨ chances = left ∧ (account.closed = true ∨ left ≠ 0)) :
    account.Moves limit { account with chances } := by
  rcases next with same | ⟨rfl, closed | some⟩
  · rw [same, ← one]
    exact .still
  · exact .refuse chances one closed
  · obtain ⟨rest, rfl⟩ := Nat.exists_eq_succ_of_ne_zero some
    exact .merge rest one

end RetryAccount

namespace RateLimiter

variable {item other : String}

/-- The count saturates, but not below a limit. -/
theorem failureCount_delay (limiter : RateLimiter) (item : String) (now : Nat) {limit : UInt32}
    (below : limiter.failureCount item < limit.toNat) :
    (limiter.delay item now).1.failureCount item = limiter.failureCount item + 1 := by
  have small : limit.toNat < UInt32.size := limit.toNat_lt
  have counted : (limiter.delay item now).1.failureCount item =
      min (limiter.failureCount item + 1) (UInt32.size - 1) := by
    simp [failureCount, delay, Table.getD, Table.get?_insert]
  omega

theorem failureCount_delay_of_ne (limiter : RateLimiter) (ne : other ≠ item) (now : Nat) :
    (limiter.delay item now).1.failureCount other = limiter.failureCount other := by
  simp [failureCount, delay, Table.getD, Table.get?_insert, ne]

theorem failureCount_forget (limiter : RateLimiter) (item : String) :
    (limiter.forget item).failureCount item = 0 := by
  simp [failureCount, forget, Table.getD, Table.get?_erase]

theorem failureCount_forget_of_ne (limiter : RateLimiter) (ne : other ≠ item) :
    (limiter.forget item).failureCount other = limiter.failureCount other := by
  simp [failureCount, forget, Table.getD, Table.get?_erase, ne]

end RateLimiter

namespace QueueSession

/-- The runs of an item that nobody has in hand: for each delay that is not over, and where the item
waits or comes back once its worker is done. -/
def chances (session : QueueSession) (item : String) : Nat :=
  session.delayed.count item + if item ∈ session.queue.dirty then 1 else 0

variable {session later : QueueSession} {item other : String}

theorem chances_add_other (ne : other ≠ item) : (session.add item).chances other = session.chances other := by
  have dirty : other ∈ (session.add item).queue.dirty ↔ other ∈ session.queue.dirty := by
    refine WorkQueue.mem_add_dirty.trans ?_
    simp [ne]
  simp only [chances, dirty]
  rfl

theorem chances_add : (session.add item).chances item = session.chances item + 1 ∨
    (session.add item).chances item = session.chances item ∧
      (session.queue.shutDown = true ∨ session.chances item ≠ 0) := by
  have dirty : item ∈ (session.add item).queue.dirty ↔
      item ∈ session.queue.dirty ∨ item = item ∧ session.queue.shutDown = false :=
    WorkQueue.mem_add_dirty
  have delayed : (session.add item).delayed = session.delayed := rfl
  simp only [chances, dirty, delayed]
  cases session.queue.shutDown <;> by_cases mem : item ∈ session.queue.dirty <;> simp [mem]

theorem chances_due (step : session.step? (.due item) = some later) :
    (∀ other, other ≠ item → later.chances other = session.chances other) ∧
    ∃ left, session.chances item = left + 1 ∧ (later.chances item = left + 1 ∨
      later.chances item = left ∧ (session.queue.shutDown = true ∨ left ≠ 0)) := by
  simp only [step?] at step
  split at step
  · rename_i mem
    cases step
    refine ⟨fun other ne => (chances_add_other ne).trans ?_, _, ?_, chances_add⟩
    · simp only [chances, List.count_erase_of_ne ne]
    · have some := List.count_pos_iff.2 mem
      simp only [chances, List.count_erase_self]
      omega
  · cases step

theorem chances_addAfter {delay : Duration} (step : session.step? (.addAfter item delay) = some later) :
    (∀ other, other ≠ item → later.chances other = session.chances other) ∧
    (later.chances item = session.chances item + 1 ∨
      later.chances item = session.chances item ∧
        (session.queue.shutDown = true ∨ session.chances item ≠ 0)) := by
  simp only [step?] at step
  split at step
  · rename_i closed
    cases step
    exact ⟨fun _ _ => rfl, .inr ⟨rfl, .inl closed⟩⟩
  · split at step
    · cases step
      exact ⟨fun _ => chances_add_other, chances_add⟩
    · cases step
      refine ⟨fun other ne => ?_, .inl ?_⟩
      · simp only [chances, List.count_cons_of_ne (Ne.symm ne)]
      · simp only [chances, List.count_cons_self]
        omega

theorem waits_of_taken {taken : WorkQueue} (answer : session.queue.take = (taken, .item item)) :
    item ∈ session.queue.waiting := by
  rcases session.queue.take_cases with ⟨closed, _⟩ | ⟨none, _⟩ | ⟨first, rest, _, took, _, waits, _⟩
  · cases closed.symm.trans answer
  · cases none.symm.trans answer
  · cases took.symm.trans answer
    simp [waits]

/-- Whoever is handed an item has the chance that waited. -/
theorem chances_take (sound : session.Sound) {taken : WorkQueue}
    (answer : session.queue.take = (taken, .item item)) (caller : Nat) :
    (session.take caller).chances item + 1 = session.chances item ∧
      ∀ other, other ≠ item → (session.take caller).chances other = session.chances other := by
  have dirty := (take_item answer caller).2.2
  have marked : item ∈ session.queue.dirty := sound.consistent.marked item (waits_of_taken answer)
  have delayed : (session.take caller).delayed = session.delayed := by simp [take, answer]
  refine ⟨?_, fun other ne => ?_⟩
  · simp [chances, delayed, dirty, marked]
  · simp [chances, delayed, dirty, ne]

theorem chances_finish {caller : Nat} (step : session.step? (.finish caller item) = some later) :
    later.queue.shutDown = session.queue.shutDown ∧
      ∀ other, later.chances other = session.chances other := by
  simp only [step?] at step
  split at step
  · cases step
    exact ⟨session.queue.finish_shutDown item, fun other => by
      simp only [chances, finish, WorkQueue.finish_dirty]⟩
  · cases step

end QueueSession

end TunnelIngress
