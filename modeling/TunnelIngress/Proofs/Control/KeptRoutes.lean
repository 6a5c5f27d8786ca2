import TunnelIngress.Proofs.Control.ControlLoop

/-!
# Routes that stay up to date

A step concerns an ingress only through the rules that it asks for. Where what these rules depend on is
as it was, or waits, its route stays up to date.
-/

namespace TunnelIngress

namespace ControlLoop

variable {settings : TunnelSettings} {loop later : ControlLoop} {ingress : Ingress} {route : Route}

/-- For the rules that an ingress asks for, nothing stops waiting, and what changes waits. -/
structure Keeps (loop later : ControlLoop) (ingress : Ingress) : Prop where
  resolver : later.index.resolver = loop.index.resolver
  specs : ∀ id spec, loop.router.fleet.spec? id = some spec → later.router.fleet.spec? id = some spec
  serviceWaits : ∀ rule port, ingress.Asks loop.index.resolver rule port →
    loop.ServiceWaits rule.service → later.ServiceWaits rule.service
  secretWaits : ∀ rule port secret, ingress.Asks loop.index.resolver rule port →
    rule.secret = some secret → loop.Waits .secret secret → later.Waits .secret secret
  serves : ∀ rule port, ingress.Asks loop.index.resolver rule port →
    (∀ port number, loop.caches.Serves rule.service port number ↔
      later.caches.Serves rule.service port number) ∨ later.ServiceWaits rule.service
  certificate : ∀ rule port secret, ingress.Asks loop.index.resolver rule port →
    rule.secret = some secret →
      loop.caches.certificate? secret = later.caches.certificate? secret ∨ later.Waits .secret secret

theorem UpToDate.keep (upToDate : loop.UpToDate settings ingress route)
    (keeps : loop.Keeps later ingress) : later.UpToDate settings ingress route where
  options := upToDate.options
  asked := by
    rw [keeps.resolver]
    exact upToDate.asked
  served rule id hit := by
    obtain ⟨port, asks⟩ := upToDate.asked rule id hit
    rcases upToDate.served rule id hit with served | waits
    · obtain ⟨port, asks, serves⟩ := RoutePlan.mem_servedRules.1 served
      refine (keeps.serves rule port asks).imp_left fun same => ?_
      rw [keeps.resolver]
      exact RoutePlan.mem_servedRules.2 ⟨port, asks, (same _ _).1 serves⟩
    · exact .inr (keeps.serviceWaits rule port asks waits)
  made rule id hit := by
    obtain ⟨port, asks⟩ := upToDate.asked rule id hit
    rcases upToDate.made rule id hit with made | ⟨secret, named, waits⟩
    · cases named : rule.secret with
      | none =>
        left
        rw [named] at made
        exact keeps.specs id _ made
      | some secret =>
        refine (keeps.certificate rule port secret asks named).imp (fun same => ?_) fun waits =>
          ⟨secret, rfl, waits⟩
        have bytes : RoutePlan.certificateOf later.caches (some secret) =
            RoutePlan.certificateOf loop.caches rule.secret := by
          rw [named]
          exact congrArg (·.getD []) same.symm
        rw [bytes]
        exact keeps.specs id _ made
    · exact .inr ⟨secret, named, keeps.secretWaits rule port secret asks named waits⟩
  complete rule served missing := by
    rw [keeps.resolver] at served
    obtain ⟨port, asks, serves⟩ := RoutePlan.mem_servedRules.1 served
    rcases keeps.serves rule port asks with same | waits
    · have before := RoutePlan.mem_servedRules.2 ⟨port, asks, (same _ _).2 serves⟩
      rcases upToDate.complete rule before missing with waits | ⟨secret, named, cause⟩
      · exact .inl (keeps.serviceWaits rule port asks waits)
      · refine .inr ⟨secret, named, ?_⟩
        rcases keeps.certificate rule port secret asks named with same | waits
        · refine cause.imp (fun none => same ▸ none) fun waits => ?_
          exact keeps.secretWaits rule port secret asks named waits
        · exact .inr waits
    · exact .inl waits

end ControlLoop

end TunnelIngress
