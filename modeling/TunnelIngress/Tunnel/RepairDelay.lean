import TunnelIngress.Time.Seconds

/-!
The delay before a failed tunnel is launched again: a fixed base and, on top, a random part of it up
to a jitter factor. The delay does not grow with the number of failures.
-/

namespace TunnelIngress

structure RepairDelay where
  base : Duration
  jitter : Float

namespace RepairDelay

/-- A jitter below zero, or undefined, counts as none. -/
def new (base : Duration) (jitter : Float) : RepairDelay :=
  { base, jitter := if jitter > 0.0 then jitter else 0.0 }

def clampUnit (x : Float) : Float :=
  if x < 0.0 then 0.0 else if x > 1.0 then 1.0 else x

/-- The delay for a sample of the unit interval, if a duration can be that long. -/
def delayFor? (delay : RepairDelay) (sample : Float) : Option Duration := do
  let extra ← delay.base.scale? (delay.jitter * clampUnit sample)
  delay.base.add? extra

end RepairDelay

end TunnelIngress
