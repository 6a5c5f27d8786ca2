import TunnelIngress.Config.Basic
import TunnelIngress.Proofs.Time.RoundedSeconds
import TunnelIngress.Proofs.Tunnel.LinkSession
import TunnelIngress.Tunnel.RepairDelay

/-!
# Whether there is a delay for a repair

A configuration is accepted with any base and any finite jitter. The two together may be longer than any
duration, and then there is no delay: the supervisor dies, and leaves its link in repair. Their sum is
computed in doubles, and so with a small error.
-/

namespace TunnelIngress

open Decimal

theorem ControllerConfig.jitter_of_validate {config : ControllerConfig}
    (accepted : config.validate = .ok ()) :
    config.tunnel.repairJitter.isFinite = true ∧ ¬config.tunnel.repairJitter < 0.0 := by
  unfold validate at accepted
  by_contra refused
  have bad : (!config.tunnel.repairJitter.isFinite || config.tunnel.repairJitter < 0.0) = true := by
    rw [Bool.or_eq_true, Bool.not_eq_true', decide_eq_true_eq]
    by_cases finite : config.tunnel.repairJitter.isFinite = true
    · exact .inr (by_contra fun nonneg => refused ⟨finite, nonneg⟩)
    · exact .inl (by simpa using finite)
  simp only [bad, if_true] at accepted
  split at accepted
  · cases accepted
  · split at accepted <;> cases accepted

/-- After a failure a link is in repair. Its supervisor lives on if there is a delay. -/
theorem Link.daemonEnded_failed {link : Link} {index : Nat}
    (daemon : link.supervisor? index = some { phase := .daemon, quit := false }) (delay : Option Duration) :
    (link.daemonEnded index .failed delay).1.state = .repairing ∧
      ((link.daemonEnded index .failed delay).1.alive index = true ↔ delay.isSome) := by
  obtain ⟨_, state, supervisors⟩ := Link.act_spec daemon (.ended .failed delay)
  have alive : (link.daemonEnded index .failed delay).1.alive index =
      (Supervisor.after ⟨.daemon, false⟩ (.ended .failed delay)).alive := by
    change Option.any _ ((link.act index (.ended .failed delay)).supervisor? index) = _
    rw [supervisors, if_pos rfl]
    rfl
  refine ⟨state, ?_⟩
  rw [alive]
  cases delay with
  | none => exact ⟨nofun, nofun⟩
  | some wait => exact ⟨fun _ => rfl, fun _ => rfl⟩

/-- What three roundings make of a product. -/
theorem rounded_product {n : Nat} {part whole first second : ℚ} (small : n < 2 ^ 64) (nonneg : 0 ≤ part)
    (parts : Rounded part first) (wholes : Rounded n whole) (product : Rounded (first * whole) second) :
    |second - n * part| ≤ n * part / 2 ^ 50 + 1 / 10 ^ 10 := by
  rcases Nat.eq_zero_or_pos n with rfl | more
  · obtain rfl : whole = 0 := by simpa using wholes.eq_of_small (by decide)
    have none : Rounded ((0 : Nat) : ℚ) second := by simpa using product
    obtain rfl : second = 0 := by simpa using none.eq_of_small (by decide)
    norm_num
  have range : (n : ℚ) ≤ 2 ^ 64 := by exact_mod_cast small.le
  have nonneg_product : 0 ≤ (n : ℚ) * part := by positivity
  have whole_near := wholes.near_of_pos more
  have first_near := parts.near
  have second_near := product.near
  have whole_le : whole ≤ 2 * n := by
    have := (abs_le.1 whole_near).2
    norm_num at this
    linarith
  have first_le : first ≤ 2 * part + 1 / 2 ^ 128 := by
    have := (abs_le.1 first_near).2
    norm_num at this ⊢
    linarith
  have whole_nonneg : 0 ≤ whole := by simpa using wholes.ge 0 0 (by decide) (by decide) (by simp)
  have product_le : first * whole ≤ (2 * part + 1 / 2 ^ 128) * (2 * n) :=
    mul_le_mul first_le whole_le whole_nonneg (by positivity)
  have one : |part * (whole - n)| ≤ part * (n / 2 ^ 52) := by
    rw [abs_mul, abs_of_nonneg nonneg]
    gcongr
  have two : |n * (first - part)| ≤ n * (part / 2 ^ 53 + 1 / 2 ^ 128) := by
    rw [abs_mul, abs_of_nonneg (by positivity : (0 : ℚ) ≤ n)]
    gcongr
  have both : |(first - part) * (whole - n)| ≤ (part / 2 ^ 53 + 1 / 2 ^ 128) * (n / 2 ^ 52) := by
    rw [abs_mul]
    gcongr
  have split : second - n * part = second - first * whole + part * (whole - n) + n * (first - part) +
      (first - part) * (whole - n) := by ring
  rw [abs_le] at one two both second_near
  rw [split, abs_le]
  norm_num at one two both second_near product_le ⊢
  constructor <;> linarith only [one, two, both, second_near, product_le, range, nonneg_product]

namespace RepairDelay

variable {jitter sample : Float} {factor fraction : ℚ}

/-- The jitter of a delay is the given one, if that is a number. -/
theorem new_jitter_is (base : Duration) (is : (Binary64.ofFloat jitter).Is factor) :
    (Binary64.ofFloat (new base jitter).jitter).Is factor := by
  unfold new
  dsimp only
  split
  · exact is
  · rename_i least
    rw [eq_zero_of_is is least]
    exact ⟨false, 0, -1074, by decide +kernel, nofun, by simp⟩

/-- The part of the base that is added to it, as a double, which may be infinite. -/
theorem extra_holds (seconds : UInt64) (is : (Binary64.ofFloat jitter).Is factor)
    (low : (0.0 : Float) ≤ sample) (high : sample ≤ 1.0) :
    ∃ fraction extra, fraction ≤ 1 ∧ (Binary64.ofFloat sample).Is fraction ∧
      |extra - seconds.toNat * (factor * fraction)| ≤
        seconds.toNat * (factor * fraction) / 2 ^ 50 + 1 / 10 ^ 10 ∧
      (Binary64.ofFloat ((new (.ofSeconds seconds) jitter).jitter * clampUnit sample *
        (Duration.ofSeconds seconds).toSeconds)).Holds extra := by
  obtain ⟨unclamped, unclamped', fraction, unit, is'⟩ := is_of_unit low high
  have same : clampUnit sample = sample := by
    rw [clampUnit, if_neg unclamped, if_neg unclamped']
  rw [same]
  have nonneg : 0 ≤ factor * fraction := mul_nonneg is.nonneg is'.nonneg
  obtain ⟨first, parts, holds⟩ := mul_holds (new_jitter_is (.ofSeconds seconds) is) is'
  -- A part of the jitter is no more than all of it, and so it is finite.
  have finite : first < 2 ^ 1024 := by
    obtain ⟨_, m, e, read, _, rfl⟩ := is
    obtain ⟨canonical, large⟩ := canonical_ofFloat read
    refine (parts.le m e canonical.below canonical.least ?_).trans_lt (lt_of_canonical canonical large)
    exact mul_le_of_le_one_right (by positivity) unit
  obtain ⟨whole, wholes, is_whole⟩ := Duration.toSeconds_is seconds
  obtain ⟨extra, product, holds'⟩ := mul_holds (holds.is finite) is_whole
  exact ⟨fraction, extra, unit, is', rounded_product seconds.toNat_lt nonneg parts wholes product, holds'⟩

/-- A delay is its base and a part of it, but for a small error. There is none if that leaves the range of
durations. -/
theorem delayFor?_spec (seconds : UInt64) (is : (Binary64.ofFloat jitter).Is factor)
    (low : (0.0 : Float) ≤ sample) (high : sample ≤ 1.0) :
    ∃ fraction error, fraction ≤ 1 ∧ (Binary64.ofFloat sample).Is fraction ∧
      |error| ≤ seconds.toNat * (factor * fraction) / 2 ^ 50 + 1 / 10 ^ 9 ∧
      (((new (.ofSeconds seconds) jitter).delayFor? sample).isSome ↔
        seconds.toNat + seconds.toNat * (factor * fraction) + error < 2 ^ 64) ∧
      ∀ delay, (new (.ofSeconds seconds) jitter).delayFor? sample = some delay →
        (delay.nanos : ℚ) = (seconds.toNat + seconds.toNat * (factor * fraction) + error) * 10 ^ 9 := by
  obtain ⟨fraction, extra, unit, is', near, holds⟩ := extra_holds seconds is low high
  have computed : (new (.ofSeconds seconds) jitter).delayFor? sample =
      (Duration.ofSeconds? ((new (.ofSeconds seconds) jitter).jitter * clampUnit sample *
        (Duration.ofSeconds seconds).toSeconds)).bind (Duration.ofSeconds seconds).add? := rfl
  have base_nonneg : (0 : ℚ) ≤ seconds.toNat := Nat.cast_nonneg _
  have exactly_nonneg : 0 ≤ seconds.toNat * (factor * fraction) :=
    mul_nonneg base_nonneg (mul_nonneg is.nonneg is'.nonneg)
  rw [abs_le] at near
  rw [computed]
  rcases Duration.ofSeconds?_of_holds holds with ⟨nanos, rounding, found⟩ | ⟨long, none⟩
  · have sum : (Duration.ofSeconds seconds).nanos + nanos = seconds.toNat * 1000000000 + nanos := rfl
    have total : seconds.toNat + seconds.toNat * (factor * fraction) +
        (nanos / 10 ^ 9 - seconds.toNat * (factor * fraction)) =
        ((seconds.toNat * 1000000000 + nanos : Nat) : ℚ) / 10 ^ 9 := by
      push_cast
      ring
    rw [found, Duration.ofNanos?_bind_add?, sum]
    refine ⟨fraction, nanos / 10 ^ 9 - seconds.toNat * (factor * fraction), unit, is', ?_, ?_,
      fun delay made => ?_⟩
    · rw [abs_le] at rounding ⊢
      norm_num at near rounding ⊢
      constructor <;> linarith
    · rw [Duration.isSome_ofNanos?_iff, total, div_lt_iff₀ (by positivity)]
      norm_cast
    · rw [total, div_mul_cancel₀ _ (by positivity), Duration.ofNanos?_eq_some_iff.1 made]
  · rw [none, Option.bind_none]
    refine ⟨fraction, extra - seconds.toNat * (factor * fraction), unit, is', ?_, ?_, nofun⟩
    · rw [abs_le]
      norm_num at near ⊢
      constructor <;> linarith
    · constructor
      · nofun
      · intro short
        linarith

/-- Under accepted settings, a supervisor whose daemon fails has a delay to wait for if, and only if, base and
jitter stay below `2 ^ 64` seconds. Without one it dies in repair. What it waits for is exact, but for a small
error of the doubles. -/
theorem outlives_failure_iff (config : ControllerConfig) (sample : Float) (link : Link) (index : Nat)
    (accepted : config.validate = .ok ()) (low : (0.0 : Float) ≤ sample) (high : sample ≤ 1.0)
    (daemon : link.supervisor? index = some { phase := .daemon, quit := false }) :
    ∃ factor fraction error : ℚ,
      (Binary64.ofFloat config.tunnel.repairJitter).Is factor ∧
      (Binary64.ofFloat sample).Is fraction ∧ fraction ≤ 1 ∧
      let base : ℚ := config.tunnel.repairDelaySecs.toNat
      let exactly := base + base * (factor * fraction)
      let delay := (new config.tunnel.repairDelay config.tunnel.repairJitter).delayFor? sample
      let failed := (link.daemonEnded index .failed delay).1
      |error| ≤ base * (factor * fraction) / 2 ^ 50 + 1 / 10 ^ 9 ∧
      (delay.isSome ↔ exactly + error < 2 ^ 64) ∧
      (∀ wait, delay = some wait → (wait.nanos : ℚ) = (exactly + error) * 10 ^ 9) ∧
      failed.state = .repairing ∧ (failed.alive index = true ↔ exactly + error < 2 ^ 64) := by
  obtain ⟨finite, nonneg⟩ := config.jitter_of_validate accepted
  obtain ⟨factor, is⟩ := exists_is finite nonneg
  obtain ⟨fraction, error, unit, is', near, found, exactly⟩ :=
    delayFor?_spec config.tunnel.repairDelaySecs is low high
  obtain ⟨state, survives⟩ := Link.daemonEnded_failed daemon
    ((new config.tunnel.repairDelay config.tunnel.repairJitter).delayFor? sample)
  exact ⟨factor, fraction, error, is, is', unit, near, found, exactly, state, survives.trans found⟩

/-- The link of a shop, with its first daemon in flight. -/
def shopLink : Link :=
  let rule := { host := "shop.example", port := 80, service := ⟨"shop", "web"⟩, secret := none }
  (Link.new (.new {} rule [] {})).start.1.launched 0

theorem outlives_failure_iff_shop :
    let delay := (new (TunnelSettings.repairDelay {}) 1.0).delayFor? 0.5
    delay = some ⟨30000000000, by decide⟩ ∧ (shopLink.daemonEnded 0 .failed delay).1.alive 0 = true ∧
      ∃ factor fraction error : ℚ, fraction ≤ 1 ∧ |error| ≤ 20 * (factor * fraction) / 2 ^ 50 + 1 / 10 ^ 9 ∧
        30 = 20 + 20 * (factor * fraction) + error := by
  have computed : (new (TunnelSettings.repairDelay {}) 1.0).delayFor? 0.5 =
      some ⟨30000000000, by decide⟩ := by decide +kernel
  obtain ⟨factor, fraction, error, _, _, unit, near, _, exactly, _, survives⟩ :=
    outlives_failure_iff {} 0.5 shopLink 0 (by decide +kernel) (by decide +kernel) (by decide +kernel) rfl
  have base : ((UInt64.toNat 20 : Nat) : ℚ) = 20 := rfl
  have seconds := exactly _ computed
  simp only [base] at near seconds survives
  norm_num at seconds
  have sum : 20 + 20 * (factor * fraction) + error = 30 := by linarith
  exact ⟨computed, survives.2 (by rw [sum]; norm_num), factor, fraction, error, unit, near, sum.symm⟩

/-- The longest base is accepted, and leaves no room for half of a jitter as long. -/
theorem unrepaired_longest_base :
    (¬∀ (config : ControllerConfig) (sample : Float), config.validate = .ok () → (0.0 : Float) ≤ sample →
      sample ≤ 1.0 →
        ((new config.tunnel.repairDelay config.tunnel.repairJitter).delayFor? sample).isSome) ∧
    let settings : TunnelSettings := { repairDelaySecs := 18446744073709551615 }
    let delay := (new settings.repairDelay settings.repairJitter).delayFor? 0.5
    (shopLink.daemonEnded 0 .failed delay).1.state = .repairing ∧
      (shopLink.daemonEnded 0 .failed delay).1.alive 0 = false := by
  have none : (new (TunnelSettings.repairDelay { repairDelaySecs := 18446744073709551615 }) 1.0).delayFor?
      0.5 = none := by decide +kernel
  refine ⟨fun always => ?_, ?_⟩
  · have some := always { tunnel := { repairDelaySecs := 18446744073709551615 } } 0.5 (by decide +kernel)
      (by decide +kernel) (by decide +kernel)
    rw [none] at some
    cases some
  · dsimp only
    rw [none]
    exact ⟨rfl, rfl⟩

end RepairDelay

end TunnelIngress
