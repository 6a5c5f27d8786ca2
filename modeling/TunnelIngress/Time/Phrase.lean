import TunnelIngress.Text.Blank
import TunnelIngress.Decimal.Integer
import TunnelIngress.Time.Duration

/-!
Durations written as a phrase of spans, such as `1h 30m` or `1.5s`: a number with an optional
fraction and a unit, again and again. Blanks may stand between spans, inside numbers and before a
unit. All counts are 64-bit words, and a count that does not fit makes the phrase malformed. Sub-second
units count in nanoseconds and the others in seconds.
-/

namespace TunnelIngress.Phrase

/-- A phrase is malformed, or its last carry of a whole second leaves the range of durations. -/
inductive Fault where
  | malformed
  | beyondRange
deriving DecidableEq, Repr

/-- A unit and what it counts in: nanoseconds or seconds, so many of them. -/
inductive Unit where
  | nanos (size : Nat)
  | seconds (size : Nat)
deriving DecidableEq, Repr

def Unit.size : Unit → Nat
  | nanos size => size
  | seconds size => size

def unitNames : List (List String × Unit) :=
  [(["nanos", "nsec", "ns"], .nanos 1),
   (["usec", "us", "µs"], .nanos 1000),
   (["millis", "msec", "ms"], .nanos 1000000),
   (["seconds", "second", "secs", "sec", "s"], .seconds 1),
   (["minutes", "minute", "min", "mins", "m"], .seconds 60),
   (["hours", "hour", "hr", "hrs", "h"], .seconds 3600),
   (["days", "day", "d"], .seconds 86400),
   (["weeks", "week", "wk", "wks", "w"], .seconds 604800),
   (["months", "month", "M"], .seconds 2630016),
   (["years", "year", "yr", "yrs", "y"], .seconds 31557600)]

def Unit.ofName? (name : String) : Option Unit :=
  (unitNames.find? fun entry => entry.1.contains name).map (·.2)

/-- What a fraction of the unit counts in. Seconds and minutes have fractions in nanoseconds, longer
units in seconds, and a nanosecond has none. -/
def Unit.ofFraction? : Unit → Option Unit
  | .nanos size => if size = 1 then none else some (.nanos size)
  | .seconds size => some (if size ≤ 60 then .nanos (size * nanosPerSecond) else .seconds size)

/-- A count that must fit a word. -/
def word (n : Nat) : Except Fault Nat :=
  if n < UInt64.size then .ok n else .error .malformed

/-- Adds seconds and nanoseconds to a total. Nanoseconds beyond one second are carried before the
sum is checked; exactly one second's worth is carried after it. -/
def extend (total : Duration) (seconds nanos : Nat) : Except Fault Duration := do
  let nanos ← word (total.subsecond + nanos)
  let carried := if nanosPerSecond < nanos then nanos / nanosPerSecond else 0
  let nanos := if nanosPerSecond < nanos then nanos % nanosPerSecond else nanos
  let seconds ← word (seconds + carried)
  let seconds ← word (total.seconds + seconds)
  match Duration.ofParts? seconds nanos with
  | some sum => .ok sum
  | none => .error .beyondRange

def extendBy (total : Duration) (unit : Unit) (count : Nat) : Except Fault Duration :=
  match unit with
  | .nanos _ => extend total 0 count
  | .seconds _ => extend total count 0

/-- The digits after a point: `numerator / denominator`. -/
structure Fraction where
  numerator : Nat
  denominator : Nat
deriving DecidableEq, Repr

/-- Adds a finished span. A fraction must come out even. -/
def addSpan (total : Duration) (count : Nat) (fraction : Option Fraction) (name : List Char) :
    Except Fault Duration := do
  match Unit.ofName? (String.ofList name) with
  | none => .error .malformed
  | some unit =>
    let total ← extendBy total unit (← word (count * unit.size))
    match fraction with
    | none => .ok total
    | some part =>
      match unit.ofFraction? with
      | none => .error .malformed
      | some finer =>
        let product ← word (part.numerator * finer.size)
        if product % part.denominator = 0 then
          extendBy total finer (product / part.denominator)
        else
          .error .malformed

/-- Where a reader stands: before any span, between spans, in the digits of a count, in those of its
fraction, or in a unit (its letters in reverse). -/
inductive Place where
  | opening
  | gap
  | count (n : Nat)
  | fraction (n : Nat) (part : Fraction)
  | unit (n : Nat) (part : Option Fraction) (name : List Char)
deriving Repr

def isUnitLetter (c : Char) : Bool :=
  ('a' ≤ c && c ≤ 'z') || ('A' ≤ c && c ≤ 'Z') || c = 'µ'

def betweenSpans (c : Char) (place : Place) : Except Fault Place :=
  match Decimal.digit? c with
  | some d => .ok (.count d)
  | none => if Text.isBlank c then .ok place else .error .malformed

def step (total : Duration) (place : Place) (c : Char) : Except Fault (Duration × Place) :=
  match place with
  | .opening => do return (total, ← betweenSpans c .opening)
  | .gap => do return (total, ← betweenSpans c .gap)
  | .count n =>
    match Decimal.digit? c with
    | some d => do return (total, .count (← word (10 * n + d)))
    | none =>
      if Text.isBlank c then
        .ok (total, .count n)
      else if isUnitLetter c then
        .ok (total, .unit n none [c])
      else if c = '.' then
        .ok (total, .fraction n ⟨0, 1⟩)
      else
        .error .malformed
  | .fraction n part =>
    match Decimal.digit? c with
    | some d => do
      let denominator ← word (10 * part.denominator)
      let numerator ← word (10 * part.numerator + d)
      return (total, .fraction n ⟨numerator, denominator⟩)
    | none =>
      if Text.isBlank c then
        .ok (total, .fraction n part)
      else if isUnitLetter c && part.denominator ≠ 1 then
        .ok (total, .unit n (some part) [c])
      else
        .error .malformed
  | .unit n part name =>
    match Decimal.digit? c with
    | some d => do return (← addSpan total n part name.reverse, .count d)
    | none =>
      if Text.isBlank c then
        do return (← addSpan total n part name.reverse, .gap)
      else if isUnitLetter c then
        .ok (total, .unit n part (c :: name))
      else
        .error .malformed

def finish (total : Duration) : Place → Except Fault Duration
  | .gap => .ok total
  | .unit n part name => addSpan total n part name.reverse
  | _ => .error .malformed

def readFrom (total : Duration) (place : Place) : List Char → Except Fault Duration
  | [] => finish total place
  | c :: cs => do
    let (total, place) ← step total place c
    readFrom total place cs

/-- The duration a phrase denotes; a lone zero needs no unit. -/
def read (s : String) : Except Fault Duration :=
  if s = "0" then .ok Duration.zero else readFrom Duration.zero .opening s.toList

end TunnelIngress.Phrase
