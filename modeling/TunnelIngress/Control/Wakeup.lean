/-!
Waking of those who wait for work, first come first served. Waking one when nobody waits leaves a
single permit for whoever comes next; waking all leaves nothing behind. Whoever was woken alone and
leaves without having looked passes the wakeup on.
-/

namespace TunnelIngress

structure Wakeup (α : Type) where
  permit : Bool
  waiting : List α
  woken : List α
deriving DecidableEq

namespace Wakeup

variable {α : Type} [DecidableEq α]

def quiet : Wakeup α :=
  { permit := false, waiting := [], woken := [] }

/-- Takes the permit, or else a place at the end of the line. The flag says whether the permit was
there, so that the one who came is awake already. -/
def enroll (wakeup : Wakeup α) (who : α) : Wakeup α × Bool :=
  if wakeup.permit then
    ({ wakeup with permit := false }, true)
  else
    ({ wakeup with waiting := wakeup.waiting ++ [who] }, false)

def wakeOne (wakeup : Wakeup α) : Wakeup α × Option α :=
  match wakeup.waiting with
  | [] => ({ wakeup with permit := true }, none)
  | who :: rest => ({ wakeup with waiting := rest, woken := wakeup.woken ++ [who] }, some who)

def wakeAll (wakeup : Wakeup α) : Wakeup α × List α :=
  ({ wakeup with waiting := [] }, wakeup.waiting)

/-- One who was woken looks around: the wakeup is used up. -/
def consume (wakeup : Wakeup α) (who : α) : Wakeup α :=
  { wakeup with woken := wakeup.woken.filter (· ≠ who) }

/-- One who looked and found something, or gives up, leaves the line. -/
def leave (wakeup : Wakeup α) (who : α) : Wakeup α × Option α :=
  let gone := { wakeup with waiting := wakeup.waiting.filter (· ≠ who) }
  if who ∈ wakeup.woken then (gone.consume who).wakeOne else (gone, none)

end Wakeup

end TunnelIngress
