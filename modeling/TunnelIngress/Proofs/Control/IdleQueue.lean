import TunnelIngress.Proofs.Control.QueueLists

/-!
# A queue between two worker runs

While nobody holds an item, the items that wait are the dirty ones. A worker that takes an item and is
done with it before anything else happens leaves the rest of the queue.
-/

namespace TunnelIngress

namespace WorkQueue

structure Idle (queue : WorkQueue) : Prop where
  consistent : queue.Consistent
  unheld : queue.processing = []
  running : queue.shutDown = false

theorem idle_empty : empty.Idle :=
  ⟨consistent_empty, rfl, rfl⟩

theorem Idle.waits_iff {queue : WorkQueue} (idle : queue.Idle) {item : String} :
    item ∈ queue.waiting ↔ item ∈ queue.dirty := by
  rw [← idle.consistent.awaits_iff]
  simp [Awaits, idle.unheld]

theorem Idle.add {queue : WorkQueue} (idle : queue.Idle) (item : String) : (queue.add item).1.Idle :=
  ⟨idle.consistent.add item, (queue.add_processing item).trans idle.unheld,
    (queue.add_shutDown item).trans idle.running⟩

theorem Idle.mem_add {queue : WorkQueue} (idle : queue.Idle) {item other : String} :
    other ∈ (queue.add item).1.waiting ↔ other ∈ queue.waiting ∨ other = item := by
  rw [(idle.add item).waits_iff, mem_add_dirty, idle.waits_iff]
  simp [idle.running]

def addAll (queue : WorkQueue) (items : List String) : WorkQueue :=
  items.foldl (fun queue item => (queue.add item).1) queue

theorem Idle.addAll {queue : WorkQueue} (idle : queue.Idle) (items : List String) :
    (queue.addAll items).Idle := by
  induction items generalizing queue with
  | nil => exact idle
  | cons item rest ih => exact ih (idle.add item)

theorem Idle.mem_addAll {queue : WorkQueue} (idle : queue.Idle) {items : List String} {item : String} :
    item ∈ (queue.addAll items).waiting ↔ item ∈ queue.waiting ∨ item ∈ items := by
  induction items generalizing queue with
  | nil => simp [WorkQueue.addAll]
  | cons first rest ih =>
    refine (ih (idle.add first)).trans ?_
    rw [idle.mem_add, List.mem_cons, or_assoc]

theorem Idle.can_take {queue : WorkQueue} (idle : queue.Idle) {item : String} {rest : List String}
    (waits : queue.waiting = item :: rest) : ∃ taken, queue.take = (taken, .item item) := by
  unfold take
  rw [idle.running, waits]
  exact ⟨_, rfl⟩

/-- A worker run takes one item out of the queue. -/
theorem Idle.run {queue taken : WorkQueue} (idle : queue.Idle) {item : String}
    (took : queue.take = (taken, .item item)) :
    (taken.finish item).1.Idle ∧ queue.waiting = item :: (taken.finish item).1.waiting := by
  rcases queue.take_cases with ⟨same, _⟩ | ⟨same, _⟩ |
    ⟨first, rest, after, same, _, waits, waiting, _, shut, dirty, processing⟩
  · simp [took] at same
  · simp [took] at same
  · obtain ⟨rfl, rfl⟩ : taken = after ∧ item = first := by simpa [took] using same
    have clean : item ∉ taken.dirty := fun mem => ((dirty item).1 mem).2 rfl
    have stays : (taken.finish item).2 = false := by
      rw [Bool.eq_false_iff]
      exact fun entered => clean ((taken.finish_entered item).1 entered)
    have held : item ∈ taken.processing := (processing item).2 (.inr rfl)
    have fits := idle.consistent.taken waits waiting dirty processing
    refine ⟨⟨fits.finish held, ?_, (taken.finish_shutDown item).trans shut⟩, ?_⟩
    · rw [List.eq_nil_iff_forall_not_mem]
      intro other mem
      obtain ⟨mem, ne⟩ := mem_finish_processing.1 mem
      exact ((processing other).1 mem).elim (by simp [idle.unheld]) ne
    · rw [waits, finish_waiting, stays, waiting]
      simp

end WorkQueue

end TunnelIngress
