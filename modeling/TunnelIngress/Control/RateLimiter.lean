import TunnelIngress.Control.TokenBucket
import TunnelIngress.Table

/-!
Delays for failed items: the longer of a delay that doubles with the failures of the item, up to a
cap, and the wait for a token of one bucket shared by all items.
-/

namespace TunnelIngress

structure RateLimiter where
  base : Duration
  cap : Duration
  bucket : TokenBucket
  failures : Table String Nat

namespace RateLimiter

def new (base cap : Duration) (rate : Float) (burst : UInt64) (now : Nat) : RateLimiter :=
  { base, cap, bucket := .full rate burst now, failures := ∅ }

/-- Five milliseconds up to a thousand seconds; ten tokens a second, a hundred at once. -/
def standard (now : Nat) : RateLimiter :=
  new ⟨5000000, by decide⟩ (.ofSeconds 1000) 10.0 100 now

/-- The base delay doubled once per failure; sixty-four doublings exceed every cap that matters. -/
def penalty (limiter : RateLimiter) (failures : Nat) : Duration :=
  let seconds := limiter.base.toSeconds * Float.ofNat (Decimal.twoPow (min failures 64))
  if seconds ≥ limiter.cap.toSeconds then
    limiter.cap
  else
    (Duration.ofSeconds? seconds).getD limiter.cap

def failureCount (limiter : RateLimiter) (item : String) : Nat :=
  limiter.failures.getD item 0

/-- Records one more failure of the item and says how long to wait before the next try. -/
def delay (limiter : RateLimiter) (item : String) (now : Nat) : RateLimiter × Option Duration :=
  let failed := limiter.failureCount item
  let (bucket, wait) := limiter.bucket.reserve now
  ({ limiter with
      bucket
      failures := limiter.failures.insert item (min (failed + 1) (UInt32.size - 1)) },
    wait.map (limiter.penalty failed).max)

def forget (limiter : RateLimiter) (item : String) : RateLimiter :=
  { limiter with failures := limiter.failures.erase item }

end RateLimiter

end TunnelIngress
