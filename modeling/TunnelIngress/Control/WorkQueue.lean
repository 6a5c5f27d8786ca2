/-!
A queue of work items. An item that waits is dirty, one that a worker holds is in processing, and an
item added while it is in processing stays dirty until the worker is done with it. So no two workers
hold the same item, and no addition is lost.
-/

namespace TunnelIngress

structure WorkQueue where
  waiting : List String
  dirty : List String
  processing : List String
  shutDown : Bool
  /-- The depth last reported. -/
  gauge : Nat

namespace WorkQueue

def empty : WorkQueue :=
  { waiting := [], dirty := [], processing := [], shutDown := false, gauge := 0 }

def depth (queue : WorkQueue) : Nat :=
  queue.waiting.length

def isEmpty (queue : WorkQueue) : Bool :=
  queue.waiting.isEmpty

def push (queue : WorkQueue) (item : String) : WorkQueue :=
  { queue with waiting := queue.waiting ++ [item], gauge := queue.waiting.length + 1 }

/-- Adds an item; the flag says whether it entered the queue, so that a waiting worker is to be
woken. -/
def add (queue : WorkQueue) (item : String) : WorkQueue × Bool :=
  if queue.shutDown || queue.dirty.contains item then
    (queue, false)
  else
    let marked := { queue with dirty := item :: queue.dirty }
    if queue.processing.contains item then (marked, false) else (marked.push item, true)

/-- What a worker that asks for an item is told. -/
inductive Answer where
  | item (item : String)
  | closed
  | nothing
deriving DecidableEq, Repr

def take (queue : WorkQueue) : WorkQueue × Answer :=
  if queue.shutDown then
    (queue, .closed)
  else
    match queue.waiting with
    | [] => (queue, .nothing)
    | item :: rest =>
      ({ queue with
          waiting := rest
          dirty := queue.dirty.filter (· != item)
          processing := if queue.processing.contains item then queue.processing
            else item :: queue.processing
          gauge := rest.length },
        .item item)

/-- A worker is done with an item; one that became dirty meanwhile enters the queue again. -/
def finish (queue : WorkQueue) (item : String) : WorkQueue × Bool :=
  let released := { queue with processing := queue.processing.filter (· != item) }
  if queue.dirty.contains item then (released.push item, true) else (released, false)

def close (queue : WorkQueue) : WorkQueue :=
  { queue with shutDown := true }

end WorkQueue

end TunnelIngress
