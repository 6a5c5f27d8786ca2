import TunnelIngress.Ingress.RoutePlan
import Mathlib.Data.Option.Basic

/-!
# What the rules of a route come from

A rule of a route has two sides. What an ingress asks for is a matter of the ingress alone, and whether
it can be served is a matter of the service it asks for. So a change to one service or secret concerns
only the rules that name it, and the index has all the ingresses that ask for such rules.
-/

namespace TunnelIngress

/-- A service has a port and its endpoints have a subset. -/
def Caches.Serves (caches : Caches) (key : ResourceKey) (port : Option BackendPort) (number : Int32) :
    Prop :=
  (caches.services.find? key).bind (·.portFor? port) = some number ∧
    (caches.endpoints.find? key).any (·.hasSubsets) = true

def Caches.certificate? (caches : Caches) (secret : ResourceKey) : Option (List UInt8) :=
  (caches.secrets.find? secret).bind (·.certificate?)

/-- An ingress asks for a rule, with the port it means. -/
def Ingress.Asks (ingress : Ingress) (resolver : SecretResolver) (rule : Rule)
    (port : Option BackendPort) : Prop :=
  rule.secret = resolver.resolve rule.host ingress.tlsSecrets ∧
    rule.service.ns = ingress.metadata.ns.getD "" ∧
    ∃ entry ∈ ingress.rules, nonEmptyName? entry.host = some rule.host ∧
      ∃ path ∈ entry.paths.getD [], path.isRoot = true ∧
        ∃ backend, path.backend.service = some backend ∧ backend.port = port ∧
          nonEmptyName? (some backend.name) = some rule.service.name

namespace RoutePlan

variable {caches : Caches} {resolver : SecretResolver} {ingress : Ingress} {rule : Rule}

theorem target?_iff {ns : String} {path : HttpPath} {key : ResourceKey} {number : Int32} :
    target? caches ns path = some (key, number) ↔
      path.isRoot = true ∧ key.ns = ns ∧ ∃ backend, path.backend.service = some backend ∧
        nonEmptyName? (some backend.name) = some key.name ∧ caches.Serves key backend.port number := by
  obtain ⟨keyNs, keyName⟩ := key
  simp only [target?, Caches.Serves, Option.pure_def, Option.bind_eq_bind, Option.bind_eq_some_iff,
    Option.some.injEq, Option.any_eq_true, Prod.mk.injEq, ResourceKey.mk.injEq]
  constructor
  · rintro ⟨_, root, backend, found, name, named, service, cached, port, wanted, endpoints, cached', _,
      subsets, ⟨rfl, rfl⟩, rfl⟩
    exact ⟨(Option.guard_eq_some' _).1 root, rfl, backend, found, named, ⟨service, cached, wanted⟩,
      endpoints, cached', (Option.guard_eq_some' _).1 subsets⟩
  · rintro ⟨root, rfl, backend, found, named, ⟨service, cached, wanted⟩, endpoints, cached', subsets⟩
    exact ⟨(), (Option.guard_eq_some' _).2 root, backend, found, keyName, named, service, cached, number,
      wanted, endpoints, cached', (), (Option.guard_eq_some' _).2 subsets, ⟨rfl, rfl⟩, rfl⟩

/-- **The rules of a route are those that its ingress asks for and that can be served.** -/
theorem mem_servedRules :
    rule ∈ servedRules caches resolver ingress ↔
      ∃ port, ingress.Asks resolver rule port ∧ caches.Serves rule.service port rule.port := by
  unfold servedRules Ingress.Asks
  simp only [List.mem_flatMap]
  constructor
  · rintro ⟨entry, mem, inside⟩
    cases named : nonEmptyName? entry.host with
    | none => simp [named] at inside
    | some host =>
      simp only [named, List.mem_filterMap, Option.map_eq_some_iff] at inside
      obtain ⟨path, mem', ⟨key, number⟩, target, rfl⟩ := inside
      obtain ⟨root, ns, backend, found, name, serves⟩ := target?_iff.1 target
      exact ⟨backend.port, ⟨rfl, ns, entry, mem, named, path, mem', root, backend, found, rfl, name⟩,
        serves⟩
  · rintro ⟨_, ⟨secret, ns, entry, mem, named, path, mem', root, backend, found, rfl, name⟩, serves⟩
    refine ⟨entry, mem, ?_⟩
    simp only [named, List.mem_filterMap, Option.map_eq_some_iff]
    refine ⟨path, mem', (rule.service, rule.port), ?_, ?_⟩
    · exact target?_iff.2 ⟨root, ns, backend, found, name, serves⟩
    · rw [← secret]

theorem ofIngress_spec {settings : TunnelSettings} {plan : RoutePlan}
    (built : ofIngress caches resolver settings ingress = .ok plan) :
    plan.key = keyOf ingress ∧
    TunnelOptions.ofAnnotations (ingress.metadata.annotations.getD []) = .ok plan.options ∧
    ∀ rule spec, plan.links.get? rule = some spec ↔ rule ∈ servedRules caches resolver ingress ∧
      spec = .new settings rule (certificateOf caches rule.secret) plan.options := by
  unfold ofIngress at built
  cases read : TunnelOptions.ofAnnotations (ingress.metadata.annotations.getD []) with
  | error fault => simp [read, bind, Except.bind] at built
  | ok options =>
    simp only [read, bind, Except.bind, pure, Except.pure, Except.ok.injEq] at built
    subst built
    refine ⟨rfl, rfl, fun rule spec => ?_⟩
    rw [Table.get?_ofList_map, Option.ite_none_right_eq_some, Option.some.injEq, eq_comm (b := spec)]

/-! ### What a plan reads -/

variable {before after : Caches} {ns : String}

theorem target?_congr (serves : ∀ key port number, key.ns = ns →
      (before.Serves key port number ↔ after.Serves key port number)) (path : HttpPath) :
    target? before ns path = target? after ns path := by
  ext ⟨key, number⟩
  rw [target?_iff, target?_iff]
  refine and_congr_right fun _ => and_congr_right fun home => exists_congr fun backend => ?_
  exact and_congr_right fun _ => and_congr_right fun _ => serves key backend.port number home

theorem servedRules_congr (serves : ∀ key port number, key.ns = ingress.metadata.ns.getD "" →
      (before.Serves key port number ↔ after.Serves key port number)) :
    servedRules before resolver ingress = servedRules after resolver ingress := by
  unfold servedRules
  simp only [target?_congr serves]

/-- A plan reads the services and endpoints of the namespace of its ingress, and the certificates of its
rules, and nothing else of the caches. -/
theorem ofIngress_congr {settings : TunnelSettings}
    (serves : ∀ key port number, key.ns = ingress.metadata.ns.getD "" →
      (before.Serves key port number ↔ after.Serves key port number))
    (certificate : ∀ rule ∈ servedRules before resolver ingress, ∀ secret, rule.secret = some secret →
      before.certificate? secret = after.certificate? secret) :
    ofIngress before resolver settings ingress = ofIngress after resolver settings ingress := by
  have given (rule : Rule) (served : rule ∈ servedRules before resolver ingress) :
      certificateOf before rule.secret = certificateOf after rule.secret := by
    cases named : rule.secret with
    | none => rfl
    | some secret => exact congrArg (·.getD []) (certificate rule served secret named)
  have links (options : TunnelOptions) :
      (servedRules before resolver ingress).map (fun rule =>
        (rule, LinkSpec.new settings rule (certificateOf before rule.secret) options)) =
      (servedRules after resolver ingress).map (fun rule =>
        (rule, LinkSpec.new settings rule (certificateOf after rule.secret) options)) := by
    rw [← servedRules_congr serves]
    exact List.map_congr_left fun rule served => by rw [given rule served]
  simp only [ofIngress, links]

end RoutePlan

/-! ### What the index has to know -/

theorem mem_pushNew {keys : List ResourceKey} {key other : ResourceKey} :
    other ∈ pushNew keys key ↔ other ∈ keys ∨ other = key := by
  unfold pushNew
  split
  · rename_i known
    refine ⟨.inl, ?_⟩
    rintro (mem | rfl)
    · exact mem
    · simpa using known
  · simp

theorem mem_pushAll {keys found : List ResourceKey} {key : ResourceKey} :
    key ∈ keys.foldl pushNew found ↔ key ∈ found ∨ key ∈ keys := by
  induction keys generalizing found with
  | nil => simp
  | cons first rest ih => rw [List.foldl_cons, ih, mem_pushNew, List.mem_cons, or_assoc]

namespace Ingress.Asks

variable {resolver : SecretResolver} {ingress : Ingress} {rule : Rule} {port : Option BackendPort}
  {className : String}

theorem service_needed (asks : ingress.Asks resolver rule port)
    (ours : ingress.hasClass className = true) : rule.service ∈ ingress.servicesNeeded className := by
  obtain ⟨_, ns, entry, mem, _, path, mem', _, backend, found, _, name⟩ := asks
  unfold Ingress.servicesNeeded
  rw [if_pos ours, mem_pushAll]
  refine .inr (List.mem_map.2 ⟨rule.service.name, ?_, by rw [← ns]⟩)
  exact List.mem_filterMap.2 ⟨path, List.mem_flatMap.2 ⟨entry, mem, mem'⟩, by rw [found]; exact name⟩

theorem secret_needed (asks : ingress.Asks resolver rule port)
    (ours : ingress.hasClass className = true) {secret : ResourceKey}
    (named : rule.secret = some secret) : secret ∈ ingress.secretsNeeded className resolver := by
  obtain ⟨resolved, _, entry, mem, host, _⟩ := asks
  unfold Ingress.secretsNeeded
  rw [if_pos ours, mem_pushAll]
  refine .inr (List.mem_filterMap.2 ⟨rule.host, ?_, resolved.symm.trans named⟩)
  exact List.mem_filterMap.2 ⟨entry, mem, host⟩

end Ingress.Asks

end TunnelIngress
