import TunnelIngress.Proofs.Time.PhraseReading
import TunnelIngress.Tunnel.Options

/-!
# Options whatever the annotations say

Annotations are set by hand, and a value that does not read leaves the default. All but one kind of text
keep to that: a phrase whose spans fill the range of durations up to exactly `2 ^ 64` seconds.
-/

namespace TunnelIngress.TunnelOptions

/-- The default stays, or the annotation's text denotes the value. -/
def Settles (raw : Option String) (default value : Duration) : Prop :=
  value = default ∨ ∃ text ∈ raw, Phrase.Denotes (Text.trimList text.toList) value.nanos

/-- The text of an annotation fills the range of durations up. -/
def Overruns (raw : Option String) : Prop :=
  ∃ text ∈ raw, Phrase.Overruns (Text.trimList text.toList)

theorem durationOr_settles {raw : Option String} {default value : Duration}
    (read : durationOr raw default = .ok value) : Settles raw default value := by
  cases raw with
  | none =>
    cases read
    exact .inl rfl
  | some text =>
    simp only [durationOr, Option.map_some] at read
    cases phrase : Phrase.read (Text.trim text) with
    | ok found =>
      rw [phrase] at read
      cases read
      refine .inr ⟨text, rfl, ?_⟩
      simpa [Text.trim] using Phrase.read_denotes phrase
    | error fault =>
      rw [phrase] at read
      cases fault with
      | malformed =>
        cases read
        exact .inl rfl
      | beyondRange => cases read

theorem durationOr_overruns {raw : Option String} {default : Duration} {fault : Phrase.Fault}
    (failed : durationOr raw default = .error fault) : fault = .beyondRange ∧ Overruns raw := by
  cases raw with
  | none => cases failed
  | some text =>
    simp only [durationOr, Option.map_some] at failed
    cases phrase : Phrase.read (Text.trim text) with
    | ok found =>
      rw [phrase] at failed
      cases failed
    | error other =>
      rw [phrase] at failed
      cases other with
      | malformed => cases failed
      | beyondRange =>
        cases failed
        exact ⟨rfl, text, rfl, by simpa [Text.trim] using Phrase.read_overruns phrase⟩

/-- **Annotations give options, unless a duration fills its range up.** In the options each duration is its
default or what its text denotes. Otherwise the text of one of them begins with spans that come to exactly
`2 ^ 64` seconds. -/
theorem ofAnnotations_or_overruns (annotations : List (String × String)) :
    (∃ options, ofAnnotations annotations = .ok options ∧
      Settles (annotations.lookup (optionKey "heartbeat-interval")) (.ofSeconds 5) options.heartbeatInterval ∧
      Settles (annotations.lookup (optionKey "grace-period")) .zero options.gracePeriod) ∨
    ofAnnotations annotations = .error .beyondRange ∧
      (Overruns (annotations.lookup (optionKey "heartbeat-interval")) ∨
        Overruns (annotations.lookup (optionKey "grace-period"))) := by
  cases read : ofAnnotations annotations with
  | ok options =>
    obtain ⟨interval, heartbeat, read⟩ := Phrase.bind_ok read
    obtain ⟨period, grace, read⟩ := Phrase.bind_ok read
    cases read
    exact .inl ⟨_, rfl, durationOr_settles heartbeat, durationOr_settles grace⟩
  | error fault =>
    obtain heartbeat | ⟨interval, -, read⟩ := Phrase.bind_error read
    · obtain ⟨rfl, overruns⟩ := durationOr_overruns heartbeat
      exact .inr ⟨rfl, .inl overruns⟩
    · obtain grace | ⟨period, -, read⟩ := Phrase.bind_error read
      · obtain ⟨rfl, overruns⟩ := durationOr_overruns grace
        exact .inr ⟨rfl, .inr overruns⟩
      · cases read

/-- One nanosecond more than any duration has, reached by a carry of exactly one second. -/
def brimming : List (String × String) :=
  [("argo.cloudflare.com/heartbeat-interval", "18446744073709551615s 1000000000ns")]

theorem brimming_fails : ¬∃ options, ofAnnotations brimming = .ok options := by
  have failed : ofAnnotations brimming = .error .beyondRange := rfl
  simp [failed]

end TunnelIngress.TunnelOptions
