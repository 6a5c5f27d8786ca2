import TunnelIngress.Control.WorkQueue
import Mathlib.Data.List.Basic

/-!
# The lists of a work queue

A queue keeps three lists: the items that wait, those that are dirty and those in processing. Here is
what each operation does to them, and that each keeps them consistent.
-/

namespace TunnelIngress

namespace WorkQueue

/-- The items that wait, the dirty ones and those in processing fit together. -/
structure Consistent (queue : WorkQueue) : Prop where
  nodup : queue.waiting.Nodup
  idle : ∀ item ∈ queue.waiting, item ∉ queue.processing
  marked : ∀ item ∈ queue.waiting, item ∈ queue.dirty
  placed : ∀ item ∈ queue.dirty, item ∈ queue.waiting ∨ item ∈ queue.processing

/-- An item is going to be handed out: it is in the queue, or comes back to it once the worker that
holds it is done. -/
def Awaits (queue : WorkQueue) (item : String) : Prop :=
  item ∈ queue.waiting ∨ item ∈ queue.processing ∧ item ∈ queue.dirty

theorem Consistent.awaits_iff {queue : WorkQueue} (consistent : queue.Consistent) {item : String} :
    queue.Awaits item ↔ item ∈ queue.dirty := by
  constructor
  · rintro (waits | ⟨_, dirty⟩)
    · exact consistent.marked item waits
    · exact dirty
  · intro dirty
    exact (consistent.placed item dirty).imp_right fun held => ⟨held, dirty⟩

/-! ### What each operation does to the queue -/

theorem add_waiting (queue : WorkQueue) (item : String) :
    (queue.add item).1.waiting =
      queue.waiting ++ if (queue.add item).2 then [item] else [] := by
  unfold add
  split
  · simp
  · split <;> simp [push]

theorem add_gauge (queue : WorkQueue) (item : String) (exact : queue.gauge = queue.depth) :
    (queue.add item).1.gauge = (queue.add item).1.depth := by
  unfold add depth at *
  split
  · exact exact
  · split
    · exact exact
    · simp [push]

@[simp]
theorem add_processing (queue : WorkQueue) (item : String) :
    (queue.add item).1.processing = queue.processing := by
  unfold add
  split
  · rfl
  · split <;> rfl

@[simp]
theorem add_shutDown (queue : WorkQueue) (item : String) :
    (queue.add item).1.shutDown = queue.shutDown := by
  unfold add
  split
  · rfl
  · split <;> rfl

theorem mem_add_dirty {queue : WorkQueue} {item other : String} :
    other ∈ (queue.add item).1.dirty ↔
      other ∈ queue.dirty ∨ other = item ∧ queue.shutDown = false := by
  unfold add
  split
  · rename_i refused
    simp only [Bool.or_eq_true, List.contains_iff_mem] at refused
    refine ⟨.inl, ?_⟩
    rintro (dirty | ⟨rfl, open_⟩)
    · exact dirty
    · simpa [open_] using refused
  · rename_i accepted
    simp only [Bool.or_eq_true, not_or, Bool.not_eq_true] at accepted
    split <;> simp [push, accepted.1, or_comm]

/-- An item that enters the queue was neither dirty nor in processing. -/
theorem add_entered {queue : WorkQueue} {item : String} (entered : (queue.add item).2 = true) :
    queue.shutDown = false ∧ item ∉ queue.dirty ∧ item ∉ queue.processing := by
  unfold add at entered
  split at entered
  · simp at entered
  · rename_i accepted
    simp only [Bool.or_eq_true, List.contains_iff_mem, not_or, Bool.not_eq_true] at accepted
    split at entered
    · simp at entered
    · rename_i idle
      exact ⟨accepted.1, accepted.2, by simpa using idle⟩

theorem Consistent.add {queue : WorkQueue} (consistent : queue.Consistent) (item : String) :
    (queue.add item).1.Consistent := by
  have waiting : ∀ other, other ∈ (queue.add item).1.waiting ↔
      other ∈ queue.waiting ∨ other = item ∧ (queue.add item).2 = true := by
    intro other
    rw [add_waiting]
    split <;> simp [*]
  refine ⟨?_, ?_, ?_, ?_⟩
  · rw [add_waiting]
    split
    · rename_i entered
      refine List.nodup_append.2 ⟨consistent.nodup, by simp, ?_⟩
      rintro other waits _ same rfl
      rw [List.mem_singleton] at same
      exact (add_entered entered).2.1 (consistent.marked item (same ▸ waits))
    · simpa using consistent.nodup
  · intro other waits
    rw [add_processing]
    rcases (waiting other).1 waits with waits | ⟨rfl, entered⟩
    · exact consistent.idle other waits
    · exact (add_entered entered).2.2
  · intro other waits
    rw [mem_add_dirty]
    rcases (waiting other).1 waits with waits | ⟨rfl, entered⟩
    · exact .inl (consistent.marked other waits)
    · exact .inr ⟨rfl, (add_entered entered).1⟩
  · intro other dirty
    rw [waiting, add_processing]
    rcases mem_add_dirty.1 dirty with dirty | ⟨rfl, open_⟩
    · exact (consistent.placed other dirty).imp_left .inl
    · by_cases entered : (queue.add other).2 = true
      · exact .inl (.inr ⟨rfl, entered⟩)
      · have placed : other ∈ queue.dirty ∨ other ∈ queue.processing := by
          by_contra none
          simp only [not_or] at none
          simp [WorkQueue.add, open_, none.1, none.2] at entered
        rcases placed with dirty | held
        · exact (consistent.placed other dirty).imp_left .inl
        · exact .inr held

theorem take_cases (queue : WorkQueue) :
    queue.take = (queue, .closed) ∧ queue.shutDown = true ∨
    queue.take = (queue, .nothing) ∧ queue.shutDown = false ∧ queue.waiting = [] ∨
    ∃ item rest taken, queue.take = (taken, .item item) ∧ queue.shutDown = false ∧
      queue.waiting = item :: rest ∧ taken.waiting = rest ∧ taken.gauge = rest.length ∧
      taken.shutDown = false ∧ (∀ other, other ∈ taken.dirty ↔ other ∈ queue.dirty ∧ other ≠ item) ∧
      ∀ other, other ∈ taken.processing ↔ other ∈ queue.processing ∨ other = item := by
  unfold take
  split
  · rename_i closed
    exact .inl ⟨rfl, closed⟩
  · rename_i open_
    rw [Bool.not_eq_true] at open_
    right
    split
    · rename_i none
      exact .inl ⟨rfl, open_, none⟩
    · rename_i item rest waits
      refine .inr ⟨item, rest, _, rfl, open_, waits, rfl, rfl, open_, by simp, fun other => ?_⟩
      by_cases held : item ∈ queue.processing
      · simpa [held] using fun same => same ▸ held
      · simp [held, or_comm]

/-- Who finds nothing leaves a queue alone that is empty and not shut down. -/
theorem of_take_nothing {queue later : WorkQueue} (nothing : queue.take = (later, .nothing)) :
    later = queue ∧ queue.waiting = [] ∧ queue.shutDown = false := by
  rcases queue.take_cases with ⟨same, _⟩ | ⟨same, running, none⟩ | ⟨_, _, _, same, _⟩
  · exact nomatch (Prod.mk.inj (nothing.symm.trans same)).2
  · exact ⟨(Prod.mk.inj (nothing.symm.trans same)).1, none, running⟩
  · exact nomatch (Prod.mk.inj (nothing.symm.trans same)).2

theorem Consistent.taken {queue taken : WorkQueue} {item : String} (consistent : queue.Consistent)
    {rest : List String} (waits : queue.waiting = item :: rest) (waiting : taken.waiting = rest)
    (dirty : ∀ other, other ∈ taken.dirty ↔ other ∈ queue.dirty ∧ other ≠ item)
    (processing : ∀ other, other ∈ taken.processing ↔ other ∈ queue.processing ∨ other = item) :
    taken.Consistent := by
  have nodup := consistent.nodup
  rw [waits, List.nodup_cons] at nodup
  have before : ∀ other ∈ rest, other ∈ queue.waiting := fun other mem => by simp [waits, mem]
  have ne : ∀ other ∈ rest, other ≠ item := fun other mem same => nodup.1 (same ▸ mem)
  refine ⟨waiting ▸ nodup.2, ?_, ?_, ?_⟩
  · intro other mem
    rw [waiting] at mem
    rw [processing, not_or]
    exact ⟨consistent.idle other (before other mem), ne other mem⟩
  · intro other mem
    rw [waiting] at mem
    exact (dirty other).2 ⟨consistent.marked other (before other mem), ne other mem⟩
  · intro other mem
    obtain ⟨mem, ne⟩ := (dirty other).1 mem
    rw [waiting, processing]
    refine (consistent.placed other mem).imp (fun mem => ?_) .inl
    simpa [waits, ne] using mem

theorem finish_waiting (queue : WorkQueue) (item : String) :
    (queue.finish item).1.waiting =
      queue.waiting ++ if (queue.finish item).2 then [item] else [] := by
  unfold finish
  split <;> simp [push]

theorem finish_entered (queue : WorkQueue) (item : String) :
    (queue.finish item).2 = true ↔ item ∈ queue.dirty := by
  unfold finish
  split <;> simp_all

theorem finish_gauge (queue : WorkQueue) (item : String) (exact : queue.gauge = queue.depth) :
    (queue.finish item).1.gauge = (queue.finish item).1.depth := by
  unfold finish depth at *
  split
  · simp [push]
  · exact exact

@[simp]
theorem finish_dirty (queue : WorkQueue) (item : String) :
    (queue.finish item).1.dirty = queue.dirty := by
  unfold finish
  split <;> rfl

@[simp]
theorem finish_shutDown (queue : WorkQueue) (item : String) :
    (queue.finish item).1.shutDown = queue.shutDown := by
  unfold finish
  split <;> rfl

theorem mem_finish_processing {queue : WorkQueue} {item other : String} :
    other ∈ (queue.finish item).1.processing ↔ other ∈ queue.processing ∧ other ≠ item := by
  unfold finish
  split <;> simp [push]

/-- Only an item in processing may be finished: one that waits would enter the queue twice. -/
theorem Consistent.finish {queue : WorkQueue} (consistent : queue.Consistent) {item : String}
    (held : item ∈ queue.processing) : (queue.finish item).1.Consistent := by
  have absent : item ∉ queue.waiting := fun waits => consistent.idle item waits held
  have waiting : ∀ other, other ∈ (queue.finish item).1.waiting ↔
      other ∈ queue.waiting ∨ other = item ∧ item ∈ queue.dirty := by
    intro other
    rw [finish_waiting, ← finish_entered]
    split <;> simp [*]
  refine ⟨?_, ?_, ?_, ?_⟩
  · rw [finish_waiting]
    split
    · refine List.nodup_append.2 ⟨consistent.nodup, by simp, ?_⟩
      rintro other waits _ same rfl
      rw [List.mem_singleton] at same
      exact absent (same ▸ waits)
    · simpa using consistent.nodup
  · intro other waits
    rw [mem_finish_processing]
    rcases (waiting other).1 waits with waits | ⟨rfl, _⟩
    · exact fun held => consistent.idle other waits held.1
    · simp
  · intro other waits
    rw [finish_dirty]
    rcases (waiting other).1 waits with waits | ⟨rfl, dirty⟩
    · exact consistent.marked other waits
    · exact dirty
  · intro other dirty
    rw [finish_dirty] at dirty
    rw [waiting, mem_finish_processing]
    by_cases same : other = item
    · exact .inl (.inr ⟨same, same ▸ dirty⟩)
    · exact (consistent.placed other dirty).imp .inl fun held => ⟨held, same⟩

theorem Consistent.close {queue : WorkQueue} (consistent : queue.Consistent) :
    queue.close.Consistent :=
  ⟨consistent.nodup, consistent.idle, consistent.marked, consistent.placed⟩

theorem consistent_empty : empty.Consistent :=
  ⟨by simp [empty], by simp [empty], by simp [empty], by simp [empty]⟩

end WorkQueue

end TunnelIngress
