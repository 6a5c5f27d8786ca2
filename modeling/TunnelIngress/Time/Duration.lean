/-!
Lengths of time in whole nanoseconds, with fewer than `2 ^ 64` whole seconds.
-/

namespace TunnelIngress

def nanosPerSecond : Nat :=
  1000000000

structure Duration where
  nanos : Nat
  nanos_lt : nanos < UInt64.size * nanosPerSecond
deriving DecidableEq, Repr

namespace Duration

def ofNanos? (nanos : Nat) : Option Duration :=
  if h : nanos < UInt64.size * nanosPerSecond then some ⟨nanos, h⟩ else none

def zero : Duration :=
  ⟨0, by decide⟩

def ofSeconds (seconds : UInt64) : Duration :=
  ⟨seconds.toNat * nanosPerSecond,
    Nat.mul_lt_mul_of_pos_right seconds.toNat_lt (by decide)⟩

/-- Whole seconds and the nanoseconds beyond them; the nanoseconds may carry. -/
def ofParts? (seconds nanos : Nat) : Option Duration :=
  ofNanos? (seconds * nanosPerSecond + nanos)

def seconds (d : Duration) : Nat :=
  d.nanos / nanosPerSecond

def subsecond (d : Duration) : Nat :=
  d.nanos % nanosPerSecond

def isZero (d : Duration) : Bool :=
  d.nanos == 0

def add? (a b : Duration) : Option Duration :=
  ofNanos? (a.nanos + b.nanos)

def max (a b : Duration) : Duration :=
  if a.nanos ≤ b.nanos then b else a

/-- Milliseconds, the rest dropped. -/
def wholeMillis (d : Duration) : Nat :=
  d.nanos / 1000000

/-- Milliseconds, a started one counted in full. -/
def startedMillis (d : Duration) : Nat :=
  (d.nanos + 999999) / 1000000

end Duration

end TunnelIngress
