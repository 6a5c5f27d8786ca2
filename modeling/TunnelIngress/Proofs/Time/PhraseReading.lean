import TunnelIngress.Decimal.Power
import TunnelIngress.Proofs.Time.PhraseSums
import Mathlib.Algebra.BigOperators.Group.List.Basic

/-!
# What a phrase denotes

The reader of a phrase takes one character at a time and adds each span to a total as soon as the span
has ended. Against it stands the grammar of phrases, in which a text denotes the exact sum of its spans: a
duration that is read is one that the text denotes, and where reading leaves the range of durations,
the text begins with spans that come to exactly `2 ^ 64` seconds.
-/

namespace TunnelIngress

theorem Decimal.digits?_append (cs ds : List Char) (n : Nat) :
    digits? n (cs ++ ds) = (digits? n cs).bind fun m => digits? m ds := by
  induction cs generalizing n with
  | nil => rfl
  | cons c cs ih =>
    simp only [List.cons_append, digits?]
    cases digit? c with
    | none => rfl
    | some d => exact ih _

theorem Decimal.tenPow_succ (n : Nat) : tenPow (n + 1) = 10 * tenPow n := by
  simp [tenPow, Nat.pow_succ, Nat.mul_comm]

namespace Phrase

/-- The characters of a text that are no blanks. -/
def solid (cs : List Char) : List Char :=
  cs.filter fun c => !Text.isBlank c

/-- The digits of a count: blanks may stand among them, the first one leads. -/
structure Numeral (cs : List Char) (n : Nat) : Prop where
  leads : ∃ c ∈ cs.head?, (Decimal.digit? c).isSome
  value : Decimal.digits? 0 (solid cs) = some n

/-- The digits after a point, with blanks among them. -/
structure Decimals (cs : List Char) (part : Fraction) : Prop where
  value : Decimal.digits? 0 (solid cs) = some part.numerator
  places : part.denominator = Decimal.tenPow (solid cs).length

/-- A number with or without a point. -/
inductive Number : List Char → Nat → Option Fraction → Prop
  | whole {cs : List Char} {n : Nat} : Numeral cs n → Number cs n none
  | pointed {cs ds : List Char} {n : Nat} {part : Fraction} :
    Numeral cs n → Decimals ds part → solid ds ≠ [] → Number (cs ++ '.' :: ds) n (some part)

/-- A number and the name of a unit write a span. -/
inductive Writes : List Char → Span → Prop
  | mk {number name : List Char} {n : Nat} {fraction : Option Fraction} {unit : Unit} :
    Number number n fraction → Unit.ofName? (String.ofList name) = some unit →
      Writes (number ++ name) ⟨n, fraction, unit⟩

/-- One span after the other, with blanks before, between and after them. -/
inductive Lists : List Char → List Span → Prop
  | blank {cs : List Char} : (∀ c ∈ cs, Text.isBlank c) → Lists cs []
  | snoc {cs ds gap : List Char} {spans : List Span} {span : Span} :
    Lists cs spans → Writes ds span → (∀ c ∈ gap, Text.isBlank c) →
      Lists (cs ++ ds ++ gap) (spans ++ [span])

/-- The spans of a text and their exact sum in nanoseconds. -/
structure Sums (cs : List Char) (spans : List Span) (nanos : Nat) : Prop where
  lists : Lists cs spans
  even : ∀ span ∈ spans, span.Even
  sum : (spans.map Span.nanos).sum = nanos

/-- What a text denotes, in nanoseconds, within the range of durations or not. -/
def Denotes (cs : List Char) (nanos : Nat) : Prop :=
  cs = ['0'] ∧ nanos = 0 ∨ ∃ spans, spans ≠ [] ∧ Sums cs spans nanos

/-- Some spans of a text, the last one perhaps without the digits after its point, come to exactly
`2 ^ 64` seconds. -/
def Overruns (cs : List Char) : Prop :=
  ∃ before ds rest spans span nanos, cs = before ++ ds ++ rest ∧ Sums before spans nanos ∧ Writes ds span ∧
    (∀ c ∈ rest.head?, !isUnitLetter c) ∧ span.Brims nanos

theorem Sums.blank {cs : List Char} (blank : ∀ c ∈ cs, Text.isBlank c) : Sums cs [] 0 :=
  ⟨.blank blank, by simp, rfl⟩

theorem Sums.snoc {cs ds : List Char} {spans : List Span} {span : Span} {nanos : Nat}
    (sums : Sums cs spans nanos) (writes : Writes ds span) (even : span.Even) :
    Sums (cs ++ ds) (spans ++ [span]) (nanos + span.nanos) := by
  refine ⟨?_, ?_, ?_⟩
  · have none : ∀ c ∈ ([] : List Char), Text.isBlank c := by simp
    simpa using Lists.snoc sums.lists writes none
  · intro other mem
    rcases List.mem_append.mp mem with mem | mem
    · exact sums.even other mem
    · exact List.mem_singleton.mp mem ▸ even
  · simp [sums.sum]

/-- Blanks after the last span change nothing. -/
theorem Sums.blank_after {cs : List Char} {spans : List Span} {nanos : Nat} (sums : Sums cs spans nanos)
    {c : Char} (blank : Text.isBlank c) : Sums (cs ++ [c]) spans nanos := by
  refine ⟨?_, sums.even, sums.sum⟩
  cases sums.lists with
  | blank all => exact .blank (by simpa [or_imp, forall_and] using ⟨all, blank⟩)
  | snoc before writes all =>
    rw [List.append_assoc]
    exact .snoc before writes (by simpa [or_imp, forall_and] using ⟨all, blank⟩)

theorem digit_range {c : Char} {d : Nat} (digit : Decimal.digit? c = some d) :
    0x30 ≤ c.toNat ∧ c.toNat ≤ 0x39 := by
  unfold Decimal.digit? at digit
  split at digit
  · rename_i range
    exact ⟨range.1, range.2⟩
  · cases digit

theorem letter_range {c : Char} (letter : isUnitLetter c) :
    0x41 ≤ c.toNat ∧ c.toNat ≤ 0x7A ∨ c.toNat = 0xB5 := by
  simp only [isUnitLetter, Bool.or_eq_true, Bool.and_eq_true, decide_eq_true_eq] at letter
  obtain (⟨low, high⟩ | ⟨low, high⟩) | rfl := letter
  · have low : 0x61 ≤ c.toNat := low
    have high : c.toNat ≤ 0x7A := high
    omega
  · have low : 0x41 ≤ c.toNat := low
    have high : c.toNat ≤ 0x5A := high
    omega
  · exact .inr rfl

theorem digit_not_letter {c : Char} {d : Nat} (digit : Decimal.digit? c = some d) :
    isUnitLetter c = false := by
  have range := digit_range digit
  by_contra letter
  have := letter_range (Bool.of_not_eq_false letter)
  omega

theorem digit_not_blank {c : Char} {d : Nat} (digit : Decimal.digit? c = some d) :
    Text.isBlank c = false := by
  have range := digit_range digit
  simp [Text.isBlank, Text.blankRanges]
  omega

theorem blank_not_letter {c : Char} (blank : Text.isBlank c) : isUnitLetter c = false := by
  by_contra letter
  have range := letter_range (Bool.of_not_eq_false letter)
  simp [Text.isBlank, Text.blankRanges] at blank
  omega

theorem solid_digit {c : Char} {d : Nat} (digit : Decimal.digit? c = some d) (cs : List Char) :
    solid (cs ++ [c]) = solid cs ++ [c] := by
  simp [solid, digit_not_blank digit]

theorem solid_blank {c : Char} (blank : Text.isBlank c) (cs : List Char) :
    solid (cs ++ [c]) = solid cs := by
  simp [solid, blank]

theorem Numeral.first {c : Char} {d : Nat} (digit : Decimal.digit? c = some d) : Numeral [c] d := by
  refine ⟨⟨c, rfl, by simp [digit]⟩, ?_⟩
  simp [solid, digit_not_blank digit, Decimal.digits?, digit]

theorem head?_append {cs : List Char} {p : Char → Prop} (leads : ∃ c ∈ cs.head?, p c) (ds : List Char) :
    ∃ c ∈ (cs ++ ds).head?, p c := by
  obtain ⟨c, head, holds⟩ := leads
  exact ⟨c, by simp [Option.mem_def.mp head], holds⟩

theorem Numeral.digit {cs : List Char} {n : Nat} (numeral : Numeral cs n) {c : Char} {d : Nat}
    (digit : Decimal.digit? c = some d) : Numeral (cs ++ [c]) (10 * n + d) := by
  refine ⟨head?_append numeral.leads _, ?_⟩
  simp [solid_digit digit, Decimal.digits?_append, numeral.value, Decimal.digits?, digit]

theorem Numeral.blank {cs : List Char} {n : Nat} (numeral : Numeral cs n) {c : Char}
    (blank : Text.isBlank c) :
    Numeral (cs ++ [c]) n := by
  refine ⟨head?_append numeral.leads _, ?_⟩
  rw [solid_blank blank]
  exact numeral.value

theorem Decimals.none : Decimals [] ⟨0, 1⟩ :=
  ⟨rfl, rfl⟩

theorem Decimals.digit {cs : List Char} {part : Fraction} (decimals : Decimals cs part) {c : Char} {d : Nat}
    (digit : Decimal.digit? c = some d) :
    Decimals (cs ++ [c]) ⟨10 * part.numerator + d, 10 * part.denominator⟩ := by
  refine ⟨?_, ?_⟩
  · simp [solid_digit digit, Decimal.digits?_append, decimals.value, Decimal.digits?, digit]
  · simp [solid_digit digit, decimals.places, Decimal.tenPow_succ]

theorem Decimals.blank {cs : List Char} {part : Fraction} (decimals : Decimals cs part) {c : Char}
    (blank : Text.isBlank c) : Decimals (cs ++ [c]) part := by
  refine ⟨?_, ?_⟩ <;> rw [solid_blank blank]
  · exact decimals.value
  · exact decimals.places

theorem Decimals.solid_ne {cs : List Char} {part : Fraction} (decimals : Decimals cs part)
    (some : part.denominator ≠ 1) : solid cs ≠ [] := by
  intro none
  apply some
  rw [decimals.places, none]
  rfl

/-- What the characters read so far are, at each place of the reader. -/
def Stands (cs : List Char) (total : Duration) : Place → Prop
  | .opening => Sums cs [] total.nanos
  | .gap => ∃ spans, spans ≠ [] ∧ Sums cs spans total.nanos
  | .count n => ∃ before ds spans, cs = before ++ ds ∧ Sums before spans total.nanos ∧ Numeral ds n
  | .fraction n part => ∃ before ds es spans, cs = before ++ (ds ++ '.' :: es) ∧
      Sums before spans total.nanos ∧ Numeral ds n ∧ Decimals es part
  | .unit n part name => ∃ before number spans, cs = before ++ (number ++ name.reverse) ∧
      Sums before spans total.nanos ∧ Number number n part

theorem Stands.between {cs : List Char} {total : Duration} {spans : List Span}
    (sums : Sums cs spans total.nanos)
    {c : Char} {place next : Place} (read : betweenSpans c place = .ok next) :
    next = place ∧ Sums (cs ++ [c]) spans total.nanos ∨ Stands (cs ++ [c]) total next := by
  unfold betweenSpans at read
  split at read
  · rename_i d digit
    cases read
    exact .inr ⟨cs, [c], spans, rfl, sums, .first digit⟩
  · split at read
    · cases read
      exact .inl ⟨rfl, sums.blank_after ‹_›⟩
    · cases read

/-- A unit that ends is a span. -/
theorem Stands.span {cs : List Char} {total sum : Duration} {n : Nat} {part : Option Fraction}
    {name : List Char} (stands : Stands cs total (.unit n part name))
    (added : addSpan total n part name.reverse = .ok sum) :
    ∃ spans, spans ≠ [] ∧ Sums cs spans sum.nanos := by
  obtain ⟨before, number, spans, rfl, sums, wrote⟩ := stands
  obtain ⟨unit, named, even, exact⟩ := addSpan_ok added
  refine ⟨spans ++ [⟨n, part, unit⟩], by simp, ?_⟩
  rw [exact]
  exact sums.snoc (.mk wrote named) even

theorem Stands.step_count {cs : List Char} {total sum : Duration} {n : Nat} {next : Place} {c : Char}
    (stands : Stands cs total (.count n)) (stepped : step total (.count n) c = .ok (sum, next)) :
    Stands (cs ++ [c]) sum next := by
  obtain ⟨before, ds, spans, rfl, sums, numeral⟩ := stands
  simp only [Phrase.step] at stepped
  split at stepped
  · rename_i d digit
    obtain ⟨m, fits, stepped⟩ := bind_ok stepped
    obtain ⟨rfl, -⟩ := word_ok fits
    cases stepped
    exact ⟨before, ds ++ [c], spans, by simp, sums, numeral.digit digit⟩
  · split at stepped
    · cases stepped
      exact ⟨before, ds ++ [c], spans, by simp, sums, numeral.blank ‹_›⟩
    · split at stepped
      · cases stepped
        exact ⟨before, ds, spans, by simp, sums, .whole numeral⟩
      · split at stepped
        · cases stepped
          exact ⟨before, ds, [], spans, by simp [*], sums, numeral, .none⟩
        · cases stepped

theorem Stands.step_fraction {cs : List Char} {total sum : Duration} {n : Nat} {part : Fraction}
    {next : Place} {c : Char} (stands : Stands cs total (.fraction n part))
    (stepped : step total (.fraction n part) c = .ok (sum, next)) : Stands (cs ++ [c]) sum next := by
  obtain ⟨before, ds, es, spans, rfl, sums, numeral, decimals⟩ := stands
  simp only [Phrase.step] at stepped
  split at stepped
  · rename_i d digit
    obtain ⟨denominator, fits, stepped⟩ := bind_ok stepped
    obtain ⟨rfl, -⟩ := word_ok fits
    obtain ⟨numerator, fits, stepped⟩ := bind_ok stepped
    obtain ⟨rfl, -⟩ := word_ok fits
    cases stepped
    exact ⟨before, ds, es ++ [c], spans, by simp, sums, numeral, decimals.digit digit⟩
  · split at stepped
    · cases stepped
      exact ⟨before, ds, es ++ [c], spans, by simp, sums, numeral, decimals.blank ‹_›⟩
    · split at stepped
      · rename_i letter
        cases stepped
        have places := decimals.solid_ne (by simpa using (Bool.and_eq_true_iff.mp letter).2)
        exact ⟨before, ds ++ '.' :: es, spans, by simp, sums, .pointed numeral decimals places⟩
      · cases stepped

theorem Stands.step_unit {cs : List Char} {total sum : Duration} {n : Nat} {part : Option Fraction}
    {name : List Char} {next : Place} {c : Char} (stands : Stands cs total (.unit n part name))
    (stepped : step total (.unit n part name) c = .ok (sum, next)) : Stands (cs ++ [c]) sum next := by
  simp only [Phrase.step] at stepped
  split at stepped
  · rename_i d digit
    obtain ⟨more, added, stepped⟩ := bind_ok stepped
    cases stepped
    obtain ⟨spans, -, sums⟩ := stands.span added
    exact ⟨cs, [c], spans, rfl, sums, .first digit⟩
  · split at stepped
    · rename_i blank
      obtain ⟨more, added, stepped⟩ := bind_ok stepped
      cases stepped
      obtain ⟨spans, some, sums⟩ := stands.span added
      exact ⟨spans, some, sums.blank_after blank⟩
    · split at stepped
      · cases stepped
        obtain ⟨before, number, spans, rfl, sums, wrote⟩ := stands
        exact ⟨before, number, spans, by simp, sums, wrote⟩
      · cases stepped

/-- Each character keeps the account of what was read. -/
theorem Stands.step {cs : List Char} {total sum : Duration} {place next : Place} {c : Char}
    (stands : Stands cs total place) (stepped : step total place c = .ok (sum, next)) :
    Stands (cs ++ [c]) sum next := by
  cases place with
  | opening =>
    obtain ⟨there, read, stepped⟩ := bind_ok stepped
    cases stepped
    obtain ⟨rfl, sums⟩ | stands := Stands.between stands read
    · exact sums
    · exact stands
  | gap =>
    obtain ⟨there, read, stepped⟩ := bind_ok stepped
    cases stepped
    obtain ⟨spans, some, sums⟩ := stands
    obtain ⟨rfl, sums⟩ | stands := Stands.between sums read
    · exact ⟨spans, some, sums⟩
    · exact stands
  | count n => exact stands.step_count stepped
  | fraction n part => exact stands.step_fraction stepped
  | unit n part name => exact stands.step_unit stepped

theorem betweenSpans_ne_beyondRange (c : Char) (place : Place) :
    betweenSpans c place ≠ .error .beyondRange := by
  unfold betweenSpans
  split
  · simp
  · split <;> simp

/-- Only the end of a unit leaves the range of durations. -/
theorem step_beyondRange {total : Duration} {place : Place} {c : Char}
    (failed : step total place c = .error .beyondRange) :
    isUnitLetter c = false ∧
      ∃ n part name, place = .unit n part name ∧
        addSpan total n part name.reverse = .error .beyondRange := by
  cases place with
  | opening =>
    obtain failed | ⟨_, _, failed⟩ := bind_error failed
    · exact absurd failed (betweenSpans_ne_beyondRange _ _)
    · cases failed
  | gap =>
    obtain failed | ⟨_, _, failed⟩ := bind_error failed
    · exact absurd failed (betweenSpans_ne_beyondRange _ _)
    · cases failed
  | count n =>
    simp only [Phrase.step] at failed
    split at failed
    · obtain failed | ⟨_, _, failed⟩ := bind_error failed
      · exact absurd failed (word_ne_beyondRange _)
      · cases failed
    · split_ifs at failed
      cases failed
  | fraction n part =>
    simp only [Phrase.step] at failed
    split at failed
    · obtain failed | ⟨_, _, failed⟩ := bind_error failed
      · exact absurd failed (word_ne_beyondRange _)
      · obtain failed | ⟨_, _, failed⟩ := bind_error failed
        · exact absurd failed (word_ne_beyondRange _)
        · cases failed
    · split_ifs at failed
      cases failed
  | unit n part name =>
    simp only [Phrase.step] at failed
    split at failed
    · rename_i d digit
      obtain failed | ⟨_, _, failed⟩ := bind_error failed
      · exact ⟨digit_not_letter digit, n, part, name, rfl, failed⟩
      · cases failed
    · split_ifs at failed with blank
      · obtain failed | ⟨_, _, failed⟩ := bind_error failed
        · exact ⟨blank_not_letter blank, n, part, name, rfl, failed⟩
        · cases failed
      · cases failed

theorem Stands.overruns {cs : List Char} {total : Duration} {n : Nat} {part : Option Fraction}
    {name : List Char} (stands : Stands cs total (.unit n part name))
    (failed : addSpan total n part name.reverse = .error .beyondRange) {rest : List Char}
    (ends : ∀ c ∈ rest.head?, !isUnitLetter c) : Overruns (cs ++ rest) := by
  obtain ⟨before, number, spans, rfl, sums, wrote⟩ := stands
  obtain ⟨unit, named, brims⟩ := addSpan_beyondRange failed
  exact ⟨before, _, rest, spans, _, _, rfl, sums, .mk wrote named, ends, brims⟩

theorem Stands.finish {cs : List Char} {total sum : Duration} {place : Place}
    (stands : Stands cs total place)
    (finished : finish total place = .ok sum) : Denotes cs sum.nanos := by
  cases place with
  | gap =>
    cases finished
    exact .inr stands
  | unit n part name => exact .inr (stands.span finished)
  | opening => cases finished
  | count n => cases finished
  | fraction n part => cases finished

theorem Stands.finish_beyondRange {cs : List Char} {total : Duration} {place : Place}
    (stands : Stands cs total place)
    (failed : Phrase.finish total place = .error .beyondRange) : Overruns cs := by
  cases place with
  | unit n part name =>
    have ends : ∀ c ∈ ([] : List Char).head?, !isUnitLetter c := by simp
    have overruns := stands.overruns failed ends
    rwa [List.append_nil] at overruns
  | gap => cases failed
  | opening => cases failed
  | count n => cases failed
  | fraction n part => cases failed

/-- A duration that is read from some place on is what the whole text denotes. -/
theorem Stands.readFrom {cs : List Char} {total sum : Duration} {place : Place}
    (stands : Stands cs total place)
    {rest : List Char} (read : readFrom total place rest = .ok sum) : Denotes (cs ++ rest) sum.nanos := by
  induction rest generalizing cs total place with
  | nil =>
    rw [List.append_nil]
    exact stands.finish read
  | cons c rest ih =>
    obtain ⟨⟨more, next⟩, stepped, read⟩ := bind_ok read
    simpa using ih (stands.step stepped) read

theorem Stands.readFrom_beyondRange {cs : List Char} {total : Duration} {place : Place}
    (stands : Stands cs total place)
    {rest : List Char} (failed : Phrase.readFrom total place rest = .error .beyondRange) :
    Overruns (cs ++ rest) := by
  induction rest generalizing cs total place with
  | nil =>
    rw [List.append_nil]
    exact stands.finish_beyondRange failed
  | cons c rest ih =>
    obtain failed | ⟨⟨more, next⟩, stepped, failed⟩ := bind_error failed
    · obtain ⟨letterless, n, part, name, rfl, brims⟩ := step_beyondRange failed
      exact stands.overruns brims (by simp [letterless])
    · simpa using ih (stands.step stepped) failed

/-- **A duration that is read is what the phrase denotes.** -/
theorem read_denotes {s : String} {d : Duration} (done : read s = .ok d) : Denotes s.toList d.nanos := by
  unfold read at done
  split at done
  · cases done
    exact .inl ⟨by simp [*], rfl⟩
  · have opened : Stands [] Duration.zero .opening := Sums.blank (by simp)
    exact opened.readFrom done

/-- **Reading leaves the range of durations only at exactly `2 ^ 64` seconds.** -/
theorem read_overruns {s : String} (failed : read s = .error .beyondRange) : Overruns s.toList := by
  unfold read at failed
  split at failed
  · cases failed
  · have opened : Stands [] Duration.zero .opening := Sums.blank (by simp)
    exact opened.readFrom_beyondRange failed

end Phrase

end TunnelIngress
