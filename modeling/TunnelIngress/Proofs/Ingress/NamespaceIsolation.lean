import TunnelIngress.Proofs.Ingress.Demands
import TunnelIngress.Proofs.Ingress.IndexHistory
import TunnelIngress.Proofs.Ingress.ServedRules
import TunnelIngress.Proofs.Ingress.SingleChanges

/-!
# The namespace of an ingress

An ingress gives bare names, and services and secrets of these names are looked up in its own namespace.
From elsewhere a route has no more than the secrets that the operator configured. So whatever text an
ingress holds, the objects of other namespaces make no difference to its route.
-/

namespace TunnelIngress

/-- The operator chose a secret, for one host or for all that have no other. -/
def SecretResolver.Configures (resolver : SecretResolver) (secret : ResourceKey) : Prop :=
  resolver.default = some secret ∨ ∃ host, resolver.overrides.get? host = some secret

/-- Caches that have the same services, endpoints and secrets of one namespace, and the same secrets that
the operator chose. -/
structure Caches.AgreeIn (before after : Caches) (ns : String) (resolver : SecretResolver) : Prop where
  endpoints : ∀ endpoints : Endpoints, endpoints.metadata.ns = some ns →
    (endpoints ∈ before.endpoints.objects ↔ endpoints ∈ after.endpoints.objects)
  secrets : ∀ secret : Secret, secret.metadata.ns = some ns ∨ resolver.Configures (keyOf secret) →
    (secret ∈ before.secrets.objects ↔ secret ∈ after.secrets.objects)
  services : ∀ service : Service, service.metadata.ns = some ns →
    (service ∈ before.services.objects ↔ service ∈ after.services.objects)

/-- A rule that leads into a namespace, under a secret of this namespace or one chosen for its host. -/
structure Rule.Confined (rule : Rule) (resolver : SecretResolver) (ns : String) : Prop where
  service : rule.service.ns = ns
  secret : ∀ secret, rule.secret = some secret → secret.ns = ns ∨ resolver.default = some secret ∨
    resolver.overrides.get? rule.host = some secret

variable {before after : Caches} {resolver : SecretResolver} {ingress : Ingress} {rule : Rule}
  {host ns : String} {key secret : ResourceKey}

/-! ### The names that an ingress gives -/

theorem Ingress.ns_of_tlsSecrets (named : ingress.tlsSecrets.get? host = some secret) :
    secret.ns = ingress.metadata.ns.getD "" := by
  let Own (table : Table String ResourceKey) : Prop :=
    ∀ host secret, table.get? host = some secret → secret.ns = ingress.metadata.ns.getD ""
  suffices own : Own ingress.tlsSecrets from own host secret named
  -- The table is filled host by host, and every secret that goes in is of the namespace.
  refine List.foldlRecOn (motive := Own) _ _ (fun _ _ none => nomatch none) ?_
  intro table own entry mem host secret named
  split at named
  · exact own host secret named
  rw [Table.get?_insert] at named
  split at named
  · cases named
    obtain ⟨block, _, mem⟩ := List.mem_flatMap.1 mem
    split at mem
    · cases mem
    · split at mem
      · cases mem
      · obtain ⟨_, _, rfl⟩ := List.mem_map.1 mem
        rfl
  · exact own host secret named

theorem Ingress.Asks.confined {port : Option BackendPort} (asks : ingress.Asks resolver rule port) :
    rule.Confined resolver (ingress.metadata.ns.getD "") where
  service := asks.2.1
  secret secret named := by
    rw [asks.1, SecretResolver.resolve, Option.or_eq_some_iff, Option.or_eq_some_iff] at named
    rcases named with (own | ⟨_, override⟩) | ⟨_, default⟩
    · exact .inl (Ingress.ns_of_tlsSecrets own)
    · exact .inr (.inr override)
    · exact .inr (.inl default)

/-! ### What a namespace can see -/

namespace Caches.AgreeIn

theorem serves (agree : before.AgreeIn after ns resolver) (namespaced : before.Namespaced)
    (namespaced' : after.Namespaced) (home : key.ns = ns) (port : Option BackendPort) (number : Int32) :
    before.Serves key port number ↔ after.Serves key port number := by
  have services : before.services.find? key = after.services.find? key :=
    Watch.find?_congr namespaced.services namespaced'.services fun service own _ =>
      agree.services service (home ▸ own)
  have endpoints : before.endpoints.find? key = after.endpoints.find? key :=
    Watch.find?_congr namespaced.endpoints namespaced'.endpoints fun endpoints own _ =>
      agree.endpoints endpoints (home ▸ own)
  rw [Serves, services, endpoints, Serves]

theorem certificate (agree : before.AgreeIn after ns resolver) (namespaced : before.Namespaced)
    (namespaced' : after.Namespaced) (confined : rule.Confined resolver ns)
    (named : rule.secret = some secret) : before.certificate? secret = after.certificate? secret := by
  have same : before.secrets.find? secret = after.secrets.find? secret := by
    refine Watch.find?_congr namespaced.secrets namespaced'.secrets fun object own key => ?_
    rcases confined.secret secret named with home | default | override
    · exact agree.secrets object (.inl (home ▸ own))
    · exact agree.secrets object (.inr (.inl (key ▸ default)))
    · exact agree.secrets object (.inr (.inr ⟨_, key ▸ override⟩))
  rw [certificate?, same, certificate?]

end Caches.AgreeIn

namespace RoutePlan

/-- **Namespaces are isolated.** An ingress has the same route, rule for rule, whatever other namespaces
have, as long as its own namespace and the secrets that the operator chose are the same. The rules are
those that it asks for and that can be served, and each leads into the namespace of the ingress, under a
secret of this namespace or one chosen for the host. There is a route unless an annotation is beyond the
range of durations. -/
theorem namespace_isolated (settings : TunnelSettings) (home : ingress.metadata.ns = some ns)
    (namespaced : before.Namespaced) (namespaced' : after.Namespaced)
    (agree : before.AgreeIn after ns resolver) :
    ofIngress before resolver settings ingress = ofIngress after resolver settings ingress ∧
    (ingress.Readable ↔ ∃ plan, ofIngress before resolver settings ingress = .ok plan) ∧
    ∀ plan, ofIngress before resolver settings ingress = .ok plan → ∀ rule,
      (plan.links.contains rule = true ↔ ∃ port, ingress.Asks resolver rule port ∧
        before.Serves rule.service port rule.port) ∧
      (plan.links.contains rule = true → rule.Confined resolver ns) := by
  have own : ingress.metadata.ns.getD "" = ns := by rw [home, Option.getD_some]
  have confined (rule : Rule) (served : rule ∈ servedRules before resolver ingress) :
      rule.Confined resolver ns := by
    obtain ⟨_, asks, _⟩ := mem_servedRules.1 served
    exact own ▸ asks.confined
  refine ⟨ofIngress_congr ?_ ?_, ofIngress_ok_iff.symm, fun plan built rule => ?_⟩
  · intro key port number same
    exact agree.serves namespaced namespaced' (same.trans own) port number
  · intro rule served secret named
    exact agree.certificate namespaced namespaced' (confined rule served) named
  · obtain ⟨_, _, links⟩ := ofIngress_spec built
    have planned : plan.links.contains rule = true ↔ rule ∈ servedRules before resolver ingress := by
      rw [Table.contains_iff]
      constructor
      · rintro ⟨spec, hit⟩
        exact ((links rule spec).1 hit).1
      · exact fun served => ⟨_, (links rule _).2 ⟨served, rfl⟩⟩
    exact ⟨planned.trans mem_servedRules, fun there => confined rule (planned.1 there)⟩

/-- An ingress that writes keys of another namespace where names belong. -/
def reachingIngress : Ingress :=
  { metadata := { name := some "menu", ns := some "cafe" }
    spec := some
      { className := some "argo-tunnel"
        rules := some
          [⟨some "cafe.example", some
            [⟨some "/", "Prefix", { service := some ⟨"tea", some ⟨some "http", none⟩⟩ }⟩]⟩,
          ⟨some "bank.example", some
            [⟨some "/", "Prefix", { service := some ⟨"bank/vault", some ⟨some "http", none⟩⟩ }⟩]⟩]
        tls := some [⟨some ["cafe.example", "bank.example"], some "bank/key"⟩] }
    hasStatus := false }

def bankCaches : Caches :=
  { IngressIndex.cafeCaches with
    endpoints := IngressIndex.cafeCaches.endpoints.apply ⟨"vault", some "bank"⟩
      { metadata := { name := some "vault", ns := some "bank" }, subsets := some [some ["10.0.0.2"]] }
    secrets := IngressIndex.cafeCaches.secrets.apply ⟨"key", some "bank"⟩
      { metadata := { name := some "key", ns := some "bank" }
        data := some [("cert.pem", [1])]
        stringData := none }
    services := IngressIndex.cafeCaches.services.apply ⟨"vault", some "bank"⟩
      { metadata := { name := some "vault", ns := some "bank" }, spec := some (some [⟨some "http", 80⟩]) } }

/-- With the bank beside it or without, the cafe has one rule, under a secret of its own. -/
theorem namespace_isolated_cafe :
    ∃ plan, ofIngress IngressIndex.cafeCaches IngressIndex.wildcard {} reachingIngress = .ok plan ∧
      ofIngress bankCaches IngressIndex.wildcard {} reachingIngress = .ok plan ∧
      plan.links.keys = [{ IngressIndex.cafeRule with secret := some ⟨"cafe", "bank/key"⟩ }] ∧
      ∀ rule, plan.links.contains rule = true → rule.Confined IngressIndex.wildcard "cafe" := by
  have cafe : IngressIndex.cafeCaches.Namespaced :=
    ⟨Watch.placed_empty.insert rfl rfl, Watch.placed_empty, Watch.placed_empty,
      Watch.placed_empty.insert rfl rfl⟩
  have bank : bankCaches.Namespaced :=
    ⟨cafe.endpoints.insert rfl rfl, cafe.ingresses, cafe.secrets.insert rfl rfl,
      cafe.services.insert rfl rfl⟩
  have beside {α : Type} {old new : List α} {object added : α} (grown : new = old ++ [added])
      (other : object ≠ added) : object ∈ old ↔ object ∈ new := by simp [grown, other]
  have agree : IngressIndex.cafeCaches.AgreeIn bankCaches "cafe" IngressIndex.wildcard :=
    { endpoints := fun endpoints home => beside rfl (by rintro rfl; revert home; decide)
      secrets := fun secret chosen => beside rfl (by
        rintro rfl
        rcases chosen with home | default | ⟨host, override⟩
        · revert home
          decide
        · revert default
          decide
        · cases override)
      services := fun service home => beside rfl (by rintro rfl; revert home; decide) }
  have home : reachingIngress.metadata.ns = some "cafe" := rfl
  obtain ⟨same, readable, confined⟩ := namespace_isolated {} home cafe bank agree
  obtain ⟨plan, built⟩ := readable.1 ⟨{}, rfl⟩
  refine ⟨plan, built, same ▸ built, ?_, fun rule => (confined plan built rule).2⟩
  cases built
  decide

end RoutePlan

end TunnelIngress
