import TunnelIngress.Time.Phrase
import Mathlib.Algebra.Order.Ring.Nat

/-!
# The sum of a phrase

A reader adds up spans in seconds and nanoseconds, with carries and with counts that must fit a word.
Against that stands what a span comes to exactly: a sum that is found is the exact one, and the range of
durations is left only where the exact sum is `2 ^ 64` seconds.
-/

namespace TunnelIngress

theorem Duration.nanos_eq_parts (d : Duration) : d.seconds * nanosPerSecond + d.subsecond = d.nanos :=
  Nat.div_add_mod' d.nanos nanosPerSecond

theorem Duration.subsecond_lt (d : Duration) : d.subsecond < nanosPerSecond :=
  Nat.mod_lt _ (by decide)

theorem Duration.ofParts?_some {seconds nanos : Nat} {sum : Duration}
    (made : ofParts? seconds nanos = some sum) :
    sum.nanos = seconds * nanosPerSecond + nanos := by
  unfold ofParts? ofNanos? at made
  split at made
  · cases made
    rfl
  · cases made

theorem Duration.ofParts?_none {seconds nanos : Nat} (failed : ofParts? seconds nanos = none) :
    UInt64.size * nanosPerSecond ≤ seconds * nanosPerSecond + nanos := by
  unfold ofParts? ofNanos? at failed
  split at failed
  · cases failed
  · exact Nat.le_of_not_lt ‹_›

namespace Phrase

@[simp] theorem ok_bind {α β : Type} (value : α) (next : α → Except Fault β) :
    (Except.ok value >>= next) = next value := by
  cases h : next value <;> exact h

@[simp] theorem error_bind {α β : Type} (fault : Fault) (next : α → Except Fault β) :
    (Except.error fault >>= next) = .error fault :=
  rfl

theorem bind_ok {α β : Type} {first : Except Fault α} {next : α → Except Fault β} {result : β}
    (run : first >>= next = .ok result) : ∃ value, first = .ok value ∧ next value = .ok result := by
  cases first with
  | error fault => cases run
  | ok value => exact ⟨value, rfl, run⟩

theorem bind_error {α β : Type} {first : Except Fault α} {next : α → Except Fault β} {fault : Fault}
    (run : first >>= next = .error fault) :
    first = .error fault ∨ ∃ value, first = .ok value ∧ next value = .error fault := by
  cases first with
  | error other =>
    cases run
    exact .inl rfl
  | ok value => exact .inr ⟨value, rfl, run⟩

theorem word_ok {n m : Nat} (fits : word n = .ok m) : m = n ∧ n < UInt64.size := by
  unfold word at fits
  split at fits
  · cases fits
    exact ⟨rfl, ‹_›⟩
  · cases fits

theorem word_of_lt {n : Nat} (fits : n < UInt64.size) : word n = .ok n :=
  if_pos fits

theorem word_of_not_lt {n : Nat} (overflows : ¬n < UInt64.size) : word n = .error .malformed :=
  if_neg overflows

theorem word_ne_beyondRange (n : Nat) : word n ≠ .error .beyondRange := by
  unfold word
  split <;> simp

/-- Two words are carried over a sum: exactly one second's worth of nanoseconds stays where it is. -/
theorem carry (nanos : Nat) :
    ∃ carried left, carried * nanosPerSecond + left = nanos ∧ left ≤ nanosPerSecond ∧
      (left = nanosPerSecond → carried = 0) ∧
      (if nanosPerSecond < nanos then nanos / nanosPerSecond else 0) = carried ∧
      (if nanosPerSecond < nanos then nanos % nanosPerSecond else nanos) = left := by
  refine ⟨_, _, ?_, ?_, ?_, rfl, rfl⟩ <;> split
  · exact Nat.div_add_mod' nanos nanosPerSecond
  · omega
  · exact (Nat.mod_lt nanos (by decide)).le
  · exact Nat.le_of_not_lt ‹_›
  · exact fun full => absurd full (Nat.mod_lt nanos (by decide)).ne
  · exact fun _ => rfl

/-- How a total is extended: unless a word overflows, by the parts of the sum after the carry. -/
theorem extend_cases (total : Duration) (seconds nanos : Nat) :
    extend total seconds nanos = .error .malformed ∨
      ∃ carried left, carried * nanosPerSecond + left = total.subsecond + nanos ∧ left ≤ nanosPerSecond ∧
        (left = nanosPerSecond → carried = 0) ∧ total.seconds + (seconds + carried) < UInt64.size ∧
        extend total seconds nanos =
          (Duration.ofParts? (total.seconds + (seconds + carried)) left).elim (.error .beyondRange)
            .ok := by
  obtain ⟨carried, left, parts, bounded, full, carried_eq, left_eq⟩ := carry (total.subsecond + nanos)
  unfold extend
  by_cases small : total.subsecond + nanos < UInt64.size
  · simp only [word_of_lt small, ok_bind, carried_eq, left_eq]
    by_cases fits : total.seconds + (seconds + carried) < UInt64.size
    · have inner : seconds + carried < UInt64.size := (Nat.le_add_left _ _).trans_lt fits
      refine .inr ⟨carried, left, parts, bounded, full, fits, ?_⟩
      simp only [word_of_lt inner, word_of_lt fits, ok_bind]
      cases Duration.ofParts? (total.seconds + (seconds + carried)) left <;> rfl
    · left
      by_cases inner : seconds + carried < UInt64.size
      · simp only [word_of_lt inner, word_of_not_lt fits, ok_bind, error_bind]
      · simp only [word_of_not_lt inner, error_bind]
  · left
    simp only [word_of_not_lt small, error_bind]

theorem extend_ok {total sum : Duration} {seconds nanos : Nat}
    (added : extend total seconds nanos = .ok sum) :
    sum.nanos = total.nanos + (seconds * nanosPerSecond + nanos) := by
  have whole := total.nanos_eq_parts
  obtain malformed | ⟨carried, left, parts, -, -, -, extended⟩ := extend_cases total seconds nanos
  · cases malformed.symm.trans added
  · rw [extended] at added
    cases made : Duration.ofParts? (total.seconds + (seconds + carried)) left with
    | none => rw [made] at added; cases added
    | some other =>
      rw [made] at added
      cases added
      rw [Duration.ofParts?_some made]
      simp only [Nat.add_mul]
      omega

/-- A rest of at most one second passes a limit of whole seconds only by filling up the last of them. -/
theorem fills_last {whole left limit : Nat} (within : whole < limit) (bounded : left ≤ nanosPerSecond)
    (past : limit * nanosPerSecond ≤ whole * nanosPerSecond + left) :
    left = nanosPerSecond ∧ whole + 1 = limit := by
  obtain ⟨more, rfl⟩ := Nat.exists_eq_add_of_lt within
  simp only [Nat.add_mul, Nat.one_mul] at past
  have none : more = 0 := by
    by_contra some
    have second : nanosPerSecond ≤ more * nanosPerSecond :=
      Nat.le_mul_of_pos_left _ (Nat.pos_of_ne_zero some)
    have positive : 0 < nanosPerSecond := by decide
    omega
  subst none
  omega

/-- Only a carry of exactly one second leaves the range of durations. -/
theorem extend_beyondRange {total : Duration} {seconds nanos : Nat}
    (failed : extend total seconds nanos = .error .beyondRange) :
    total.subsecond + nanos = nanosPerSecond ∧ total.seconds + seconds + 1 = UInt64.size := by
  obtain malformed | ⟨carried, left, parts, bounded, full, fits, extended⟩ :=
    extend_cases total seconds nanos
  · cases malformed.symm.trans failed
  · rw [extended] at failed
    cases made : Duration.ofParts? (total.seconds + (seconds + carried)) left with
    | some sum => rw [made] at failed; cases failed
    | none =>
      obtain ⟨second, last⟩ := fills_last fits bounded (Duration.ofParts?_none made)
      have uncarried := full second
      subst uncarried
      exact ⟨by omega, last⟩

/-- What a unit counts in, in nanoseconds. -/
def Unit.grain : Unit → Nat
  | nanos _ => 1
  | seconds _ => nanosPerSecond

/-- One of a unit, in nanoseconds. -/
def Unit.each (unit : Unit) : Nat :=
  unit.size * unit.grain

theorem Unit.each_ofFraction {unit finer : Unit} (some : unit.ofFraction? = some finer) :
    finer.each = unit.each := by
  cases unit with
  | nanos size =>
    simp only [ofFraction?] at some
    split at some
    · cases some
    · cases some
      rfl
  | seconds size =>
    cases some
    simp only [each]
    split
    · rw [Unit.size, Unit.size, grain, grain, Nat.mul_one]
    · rfl

/-- A number, the digits after its point and a unit. -/
structure Span where
  count : Nat
  fraction : Option Fraction
  unit : Unit

namespace Span

/-- What the count before the point comes to, in nanoseconds. -/
def whole (span : Span) : Nat :=
  span.count * span.unit.each

/-- What the digits after the point come to, in nanoseconds. -/
def broken (span : Span) : Nat :=
  span.fraction.elim 0 fun part => part.numerator * span.unit.each / part.denominator

def nanos (span : Span) : Nat :=
  span.whole + span.broken

/-- The digits after the point are a whole number of nanoseconds. -/
def Even (span : Span) : Prop :=
  ∀ part ∈ span.fraction, part.denominator ∣ part.numerator * span.unit.each

/-- Some part of the span fills a total up to exactly `2 ^ 64` seconds. -/
def Brims (span : Span) (total : Nat) : Prop :=
  total + span.whole = UInt64.size * nanosPerSecond ∨
    span.Even ∧ total + span.nanos = UInt64.size * nanosPerSecond

end Span

theorem extendBy_ok {total sum : Duration} {unit : Unit} {count : Nat}
    (added : extendBy total unit count = .ok sum) :
    sum.nanos = total.nanos + count * unit.grain := by
  cases unit with
  | nanos size =>
    have extended : extend total 0 count = .ok sum := added
    rw [extend_ok extended, Nat.zero_mul, Nat.zero_add, Unit.grain, Nat.mul_one]
  | seconds size =>
    have extended : extend total count 0 = .ok sum := added
    rw [extend_ok extended, Nat.add_zero, Unit.grain]

theorem extendBy_beyondRange {total : Duration} {unit : Unit} {count : Nat}
    (failed : extendBy total unit count = .error .beyondRange) :
    total.nanos + count * unit.grain = UInt64.size * nanosPerSecond := by
  have parts := total.nanos_eq_parts
  cases unit with
  | nanos size =>
    have extended : extend total 0 count = .error .beyondRange := failed
    obtain ⟨second, last⟩ := extend_beyondRange extended
    rw [← last, ← parts, Nat.add_zero, Nat.succ_mul, Unit.grain, Nat.mul_one, Nat.add_assoc, second]
  | seconds size =>
    have extended : extend total count 0 = .error .beyondRange := failed
    exact absurd (extend_beyondRange extended).1 total.subsecond_lt.ne

/-- A fraction that comes out even adds the same whether it is divided or multiplied first. -/
theorem fraction_grains {unit finer : Unit} (some : unit.ofFraction? = some finer) {part : Fraction}
    (even : part.numerator * finer.size % part.denominator = 0) :
    part.denominator ∣ part.numerator * unit.each ∧
      part.numerator * finer.size / part.denominator * finer.grain =
        part.numerator * unit.each / part.denominator := by
  have divides := Nat.dvd_of_mod_eq_zero even
  rw [← Unit.each_ofFraction some, Unit.each, ← Nat.mul_assoc]
  exact ⟨divides.mul_right _, Nat.div_mul_right_comm divides _⟩

/-- How a finished span is added: first its count, and then its fraction in the finer unit. -/
theorem addSpan_cases (total : Duration) (count : Nat) (fraction : Option Fraction) (name : List Char) :
    addSpan total count fraction name = .error .malformed ∨
      ∃ unit rest, Unit.ofName? (String.ofList name) = some unit ∧
        addSpan total count fraction name = (extendBy total unit (count * unit.size) >>= rest) ∧
        ∀ counted, rest counted = .error .malformed ∨ fraction = none ∧ rest counted = .ok counted ∨
          ∃ part finer, fraction = some part ∧ unit.ofFraction? = some finer ∧
            part.numerator * finer.size % part.denominator = 0 ∧
            rest counted = extendBy counted finer (part.numerator * finer.size / part.denominator) := by
  unfold addSpan
  split
  · exact .inl rfl
  · rename_i unit named
    by_cases fits : count * unit.size < UInt64.size
    · rw [word_of_lt fits, ok_bind]
      refine .inr ⟨unit, _, named, rfl, fun counted => ?_⟩
      split
      · exact .inr (.inl ⟨rfl, rfl⟩)
      · rename_i part
        split
        · exact .inl rfl
        · rename_i finer fractional
          by_cases fits : part.numerator * finer.size < UInt64.size
          · rw [word_of_lt fits, ok_bind]
            split
            · exact .inr (.inr ⟨part, finer, rfl, fractional, ‹_›, rfl⟩)
            · exact .inl rfl
          · rw [word_of_not_lt fits, error_bind]
            exact .inl rfl
    · rw [word_of_not_lt fits, error_bind]
      exact .inl rfl

/-- A finished span adds what it denotes. -/
theorem addSpan_ok {total sum : Duration} {count : Nat} {fraction : Option Fraction} {name : List Char}
    (added : addSpan total count fraction name = .ok sum) :
    ∃ unit, Unit.ofName? (String.ofList name) = some unit ∧ Span.Even ⟨count, fraction, unit⟩ ∧
      sum.nanos = total.nanos + Span.nanos ⟨count, fraction, unit⟩ := by
  obtain malformed | ⟨unit, rest, named, same, after⟩ := addSpan_cases total count fraction name
  · cases malformed.symm.trans added
  obtain ⟨counted, extended, last⟩ := bind_ok (same.symm.trans added)
  have whole := extendBy_ok extended
  rw [Nat.mul_assoc] at whole
  refine ⟨unit, named, ?_⟩
  obtain malformed | ⟨rfl, done⟩ | ⟨part, finer, rfl, fractional, even, done⟩ := after counted
  · cases malformed.symm.trans last
  · cases done.symm.trans last
    exact ⟨by simp [Span.Even], whole⟩
  · obtain ⟨divides, broken⟩ := fraction_grains fractional even
    refine ⟨by simpa [Span.Even] using divides, ?_⟩
    rw [extendBy_ok (done.symm.trans last), whole, broken, Nat.add_assoc]
    rfl

/-- A finished span leaves the range of durations only by filling it up. -/
theorem addSpan_beyondRange {total : Duration} {count : Nat} {fraction : Option Fraction} {name : List Char}
    (failed : addSpan total count fraction name = .error .beyondRange) :
    ∃ unit, Unit.ofName? (String.ofList name) = some unit ∧
      Span.Brims ⟨count, fraction, unit⟩ total.nanos := by
  obtain malformed | ⟨unit, rest, named, same, after⟩ := addSpan_cases total count fraction name
  · cases malformed.symm.trans failed
  refine ⟨unit, named, ?_⟩
  obtain brims | ⟨counted, extended, last⟩ := bind_error (same.symm.trans failed)
  · have filled := extendBy_beyondRange brims
    rw [Nat.mul_assoc] at filled
    exact .inl filled
  have whole := extendBy_ok extended
  rw [Nat.mul_assoc] at whole
  obtain malformed | ⟨-, done⟩ | ⟨part, finer, rfl, fractional, even, done⟩ := after counted
  · cases malformed.symm.trans last
  · cases done.symm.trans last
  · obtain ⟨divides, broken⟩ := fraction_grains fractional even
    have filled := extendBy_beyondRange (done.symm.trans last)
    rw [whole, broken, Nat.add_assoc] at filled
    exact .inr ⟨by simpa [Span.Even] using divides, filled⟩

end Phrase

end TunnelIngress
