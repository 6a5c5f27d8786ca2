import TunnelIngress.Time.Seconds

/-!
A token bucket that hands out reservations: whoever takes a token from an empty bucket is told how
long to wait for it.
-/

namespace TunnelIngress

/-- The instant of the last refill is a duration since the clock's origin, in nanoseconds. -/
structure TokenBucket where
  capacity : Float
  rate : Float
  tokens : Float
  refilled : Nat

namespace TokenBucket

def full (rate : Float) (burst : UInt64) (now : Nat) : TokenBucket :=
  { capacity := Float.ofNat burst.toNat
    rate
    tokens := Float.ofNat burst.toNat
    refilled := now }

/-- The smaller number; an undefined one gives way to the other. -/
def lesser (a b : Float) : Float :=
  if a.isNaN then b else if b.isNaN then a else if a < b then a else b

def elapsedSeconds (nanos : Nat) : Float :=
  Float.ofNat (nanos / nanosPerSecond) + Float.ofNat (nanos % nanosPerSecond) / 1e9

def refill (bucket : TokenBucket) (now : Nat) : TokenBucket :=
  { bucket with
    tokens :=
      lesser (bucket.tokens + elapsedSeconds (now - bucket.refilled) * bucket.rate) bucket.capacity
    refilled := now }

/-- Takes a token and says how long to wait for it; no duration may be that long. A bucket that never
refills makes nobody wait. -/
def reserve (bucket : TokenBucket) (now : Nat) : TokenBucket × Option Duration :=
  let filled := bucket.refill now
  let taken := { filled with tokens := filled.tokens - 1.0 }
  let wait :=
    if taken.tokens ≥ 0.0 || taken.rate ≤ 0.0 then
      some Duration.zero
    else
      Duration.ofSeconds? (-taken.tokens / taken.rate)
  (taken, wait)

end TokenBucket

end TunnelIngress
