import TunnelIngress.Proofs.Control.KeptRoutes

/-!
# Worker runs of the control loop

A worker takes one key out of the queue. What was out of date because of that key is up to date when
the worker is done with it, and what is out of date because of other keys is still covered by them.
-/

namespace TunnelIngress

theorem Caches.Serves.has {caches : Caches} {kind : Kind} {key : ResourceKey}
    {port : Option BackendPort} {number : Int32} (serves : caches.Serves key port number)
    (concerned : kind = .endpoint ∨ kind = .service) : caches.has kind key = true := by
  obtain ⟨ported, subsets⟩ := serves
  rcases concerned with rfl | rfl
  · obtain ⟨endpoints, hit, _⟩ := (Option.any_eq_true _ _).1 subsets
    simp [Caches.has, hit]
  · obtain ⟨service, hit, _⟩ := Option.bind_eq_some_iff.1 ported
    simp [Caches.has, hit]

theorem Caches.certificate?_absent {caches : Caches} {secret : ResourceKey}
    (absent : caches.has .secret secret = false) : caches.certificate? secret = none := by
  have none : caches.secrets.find? secret = none := by simpa [has] using absent
  simp [certificate?, none]

namespace ControlLoop

variable {settings : TunnelSettings} {admission : Admission} {resolver : SecretResolver}
  {loop later : ControlLoop} {ingress : Ingress} {route : Route} {work : WorkKey}

theorem UpToDate.of_realizes {plan : RoutePlan}
    (built : RoutePlan.ofIngress loop.caches loop.index.resolver settings ingress = .ok plan)
    (realizes : route.Realizes loop.router.fleet plan) : loop.UpToDate settings ingress route := by
  obtain ⟨_, options, links⟩ := RoutePlan.ofIngress_spec built
  have planned {rule : Rule} {id : LinkId} (hit : route.links.get? rule = some id) :
      rule ∈ RoutePlan.servedRules loop.caches loop.index.resolver ingress ∧
        loop.router.fleet.spec? id = some (.new settings rule
          (RoutePlan.certificateOf loop.caches rule.secret) route.options) := by
    obtain ⟨spec, wanted, made⟩ := realizes.spec? hit
    obtain ⟨served, rfl⟩ := (links rule spec).1 wanted
    rw [realizes.options]
    exact ⟨served, made⟩
  refine ⟨realizes.options ▸ options, fun rule id hit => ?_, fun rule id hit => .inl (planned hit).1,
    fun rule id hit => .inl (planned hit).2, fun rule served missing => ?_⟩
  · obtain ⟨port, asks, _⟩ := RoutePlan.mem_servedRules.1 (planned hit).1
    exact ⟨port, asks⟩
  · have wanted := (links rule _).2 ⟨served, rfl⟩
    rw [realizes.none_iff.1 missing] at wanted
    cases wanted

/-- What a worker run leaves in the queue and does not touch. -/
structure Run (loop later : ControlLoop) (work : WorkKey) : Prop where
  watches : later.watches = loop.watches
  className : later.index.className = loop.index.className
  resolver : later.index.resolver = loop.index.resolver
  covers : ∀ ingress, loop.index.Covers ingress → later.index.Covers ingress
  queue : later.queue.Idle
  waiting : loop.queue.waiting = work.text :: later.queue.waiting
  plain : work.key.Plain
  delayed : later.delayed = loop.delayed
  idle : later.router.pending = none
  specs : ∀ id spec, loop.router.fleet.spec? id = some spec → later.router.fleet.spec? id = some spec

theorem Run.waits (run : loop.Run later work) {kind : Kind} {key : ResourceKey}
    (waits : loop.Waits kind key) : work = ⟨kind, key⟩ ∨ later.Waits kind key := by
  obtain ⟨plain, mem⟩ := waits
  rw [run.waiting] at mem
  rcases List.mem_cons.1 mem with same | mem
  · exact .inl (WorkKey.text_inj run.plain plain same.symm)
  · exact .inr ⟨plain, mem⟩

theorem Run.serviceWaits (run : loop.Run later work) {key : ResourceKey}
    (waits : loop.ServiceWaits key) :
    (work.kind = .endpoint ∨ work.kind = .service) ∧ work.key = key ∨ later.ServiceWaits key := by
  rcases waits with waits | waits
  · rcases run.waits waits with rfl | waits
    · exact .inl ⟨.inl rfl, rfl⟩
    · exact .inr (.inl waits)
  · rcases run.waits waits with rfl | waits
    · exact .inl ⟨.inr rfl, rfl⟩
    · exact .inr (.inr waits)

theorem Run.caches (run : loop.Run later work) : later.caches = loop.caches :=
  congrArg Watches.caches run.watches

theorem Run.wanted (run : loop.Run later work) (key : ResourceKey) :
    later.wanted key = loop.wanted key := by
  unfold ControlLoop.wanted Demand.wanted
  rw [run.caches, run.className]

/-- An ingress of which no rule needs the object of the taken key. -/
theorem Run.keeps (run : loop.Run later work)
    (none : ∀ rule port, ingress.Asks loop.index.resolver rule port →
      work.kind ≠ .ingress → rule.dependsOn work.kind work.key = false) : loop.Keeps later ingress where
  resolver := run.resolver
  specs := run.specs
  serviceWaits rule port asks waits := by
    refine (run.serviceWaits waits).resolve_left ?_
    rintro ⟨concerned, same⟩
    rcases concerned with concerned | concerned <;>
      simpa [Rule.dependsOn, concerned, same] using none rule port asks
  secretWaits rule port secret asks named waits := by
    refine (run.waits waits).resolve_left ?_
    rintro rfl
    simpa [Rule.dependsOn, named] using none rule port asks
  serves rule port asks := .inl fun _ _ => by rw [run.caches]
  certificate rule port secret asks named := .inl (by rw [run.caches])

/-- A worker run after which the routes are up to date, but for what still waits. -/
theorem Tracks.ran (tracks : loop.Tracks settings admission resolver) (run : loop.Run later work)
    (coherent : Routes.Coherent later.router.routes later.router.fleet settings)
    (routed : ∀ key ingress, loop.wanted key = some ingress → ¬ later.Waits .ingress key →
      ∃ route, later.router.routes.get? key = some route ∧ later.UpToDate settings ingress route)
    (unrouted : ∀ key, loop.wanted key = none → ¬ later.Waits .ingress key →
      later.router.routes.get? key = none) : later.Tracks settings admission resolver where
  className := run.className.trans tracks.className
  resolver := run.resolver.trans tracks.resolver
  queue := run.queue
  plain item mem := tracks.plain item (by rw [run.waiting]; exact List.mem_cons_of_mem _ mem)
  delayed := run.delayed.trans tracks.delayed
  idle := run.idle
  endpoints := run.watches ▸ tracks.endpoints
  ingresses := run.watches ▸ tracks.ingresses
  secrets := run.watches ▸ tracks.secrets
  services := run.watches ▸ tracks.services
  covered key ingress found := run.covers ingress (tracks.covered key ingress (run.caches ▸ found))
  coherent := coherent
  routed key ingress found := routed key ingress (run.wanted key ▸ found)
  unrouted key none := unrouted key (run.wanted key ▸ none)

/-! ### What a key calls for -/

theorem Tracks.keyOf_wanted (tracks : loop.Tracks settings admission resolver) {key : ResourceKey}
    (wanted : loop.wanted key = some ingress) : keyOf ingress = key :=
  Watch.keyOf_of_found tracks.ingresses (Option.filter_eq_some_iff.1 wanted).1

/-- The index knows a wanted ingress under the service and the secret of each rule that it asks for. -/
theorem Tracks.dependent (tracks : loop.Tracks settings admission resolver) {key : ResourceKey}
    (wanted : loop.wanted key = some ingress) {rule : Rule} {port : Option BackendPort}
    (asks : ingress.Asks loop.index.resolver rule port) {kind : Kind} {object : ResourceKey}
    (needs : rule.dependsOn kind object = true) (other : kind ≠ .ingress) :
    key ∈ (loop.index.lookup kind object).2 := by
  obtain ⟨hit, ours⟩ := Option.filter_eq_some_iff.1 wanted
  have covers := tracks.covered key ingress hit
  rw [← tracks.keyOf_wanted wanted]
  cases kind with
  | ingress => exact absurd rfl other
  | secret =>
    have named : rule.secret = some object := by simpa [Rule.dependsOn] using needs
    exact covers.secrets object (asks.secret_needed ours named)
  | endpoint =>
    have named : rule.service = object := by simpa [Rule.dependsOn] using needs
    exact named ▸ covers.services _ (asks.service_needed ours)
  | service =>
    have named : rule.service = object := by simpa [Rule.dependsOn] using needs
    exact named ▸ covers.services _ (asks.service_needed ours)

/-- The key of an ingress was taken. The routes of other ingresses are as they were. -/
theorem Tracks.ran_ingress (tracks : loop.Tracks settings admission resolver)
    (run : loop.Run later work) (taken : work.kind = .ingress)
    (coherent : Routes.Coherent later.router.routes later.router.fleet settings)
    (others : ∀ key, key ≠ work.key → later.router.routes.get? key = loop.router.routes.get? key)
    (routed : ∀ ingress, loop.wanted work.key = some ingress →
      ∃ route, later.router.routes.get? work.key = some route ∧ later.UpToDate settings ingress route)
    (unrouted : loop.wanted work.key = none → later.router.routes.get? work.key = none) :
    later.Tracks settings admission resolver := by
  have before {key : ResourceKey} (ne : key ≠ work.key) (still : ¬ later.Waits .ingress key) :
      ¬ loop.Waits .ingress key := by
    intro waits
    rcases run.waits waits with rfl | waits
    · exact ne rfl
    · exact still waits
  refine tracks.ran run coherent (fun key ingress wanted still => ?_) fun key none still => ?_
  · by_cases here : key = work.key
    · exact here ▸ routed ingress (here ▸ wanted)
    · obtain ⟨route, hit, upToDate⟩ := tracks.routed key ingress wanted (before here still)
      refine ⟨route, (others key here).trans hit, upToDate.keep (run.keeps ?_)⟩
      exact fun _ _ _ other => absurd taken other
  · by_cases here : key = work.key
    · exact here ▸ unrouted (here ▸ none)
    · exact (others key here).trans (tracks.unrouted key none (before here still))

/-- The key of a dependency was taken. The routes of ingresses that do not depend on it are as they
were, and there are no new routes. -/
theorem Tracks.ran_dependency (tracks : loop.Tracks settings admission resolver)
    (run : loop.Run later work) (taken : work.kind ≠ .ingress)
    (coherent : Routes.Coherent later.router.routes later.router.fleet settings)
    (others : ∀ key, key ∉ (loop.index.lookup work.kind work.key).2 →
      later.router.routes.get? key = loop.router.routes.get? key)
    (routed : ∀ key ingress route, key ∈ (loop.index.lookup work.kind work.key).2 →
      loop.wanted key = some ingress → loop.router.routes.get? key = some route →
        loop.UpToDate settings ingress route →
          ∃ route, later.router.routes.get? key = some route ∧ later.UpToDate settings ingress route)
    (unrouted : ∀ key, loop.router.routes.get? key = none → later.router.routes.get? key = none) :
    later.Tracks settings admission resolver := by
  have before {key : ResourceKey} (still : ¬ later.Waits .ingress key) : ¬ loop.Waits .ingress key := by
    intro waits
    rcases run.waits waits with rfl | waits
    · exact taken rfl
    · exact still waits
  refine tracks.ran run coherent (fun key ingress wanted still => ?_) fun key none still => ?_
  · obtain ⟨route, hit, upToDate⟩ := tracks.routed key ingress wanted (before still)
    by_cases concerned : key ∈ (loop.index.lookup work.kind work.key).2
    · exact routed key ingress route concerned wanted hit upToDate
    · refine ⟨route, (others key concerned).trans hit, upToDate.keep (run.keeps ?_)⟩
      intro rule port asks other
      rw [Bool.eq_false_iff]
      exact fun needs => concerned (tracks.dependent wanted asks needs other)
  · exact unrouted key (tracks.unrouted key none (before still))

/-- A route that loses the links which need a missing object. None of its rules can be served without
that object, or it lacks the certificate. -/
theorem UpToDate.without (upToDate : loop.UpToDate settings ingress route) (run : loop.Run later work)
    (taken : work.kind ≠ .ingress) (absent : loop.caches.has work.kind work.key = false) :
    later.UpToDate settings ingress (route.without work.kind work.key) := by
  have unserved {rule : Rule} (concerned : work.kind = .endpoint ∨ work.kind = .service)
      (same : work.key = rule.service) :
      rule ∉ RoutePlan.servedRules loop.caches loop.index.resolver ingress := by
    intro served
    obtain ⟨_, _, serves⟩ := RoutePlan.mem_servedRules.1 served
    rw [← same] at serves
    simp [serves.has concerned] at absent
  have uncertified {secret : ResourceKey} (concerned : work.kind = .secret) (same : work.key = secret) :
      loop.caches.certificate? secret = none := by
    rw [concerned, same] at absent
    exact Caches.certificate?_absent absent
  refine ⟨upToDate.options, fun rule id hit => ?_, fun rule id hit => ?_, fun rule id hit => ?_,
    fun rule served missing => ?_⟩
  · rw [run.resolver]
    exact upToDate.asked rule id (Route.get?_without.1 hit).1
  · obtain ⟨was, needless⟩ := Route.get?_without.1 hit
    rw [run.caches, run.resolver]
    refine (upToDate.served rule id was).imp_right fun waits => ?_
    refine (run.serviceWaits waits).resolve_left fun ⟨concerned, same⟩ => ?_
    rcases concerned with concerned | concerned <;>
      simp [Rule.dependsOn, concerned, same] at needless
  · obtain ⟨was, needless⟩ := Route.get?_without.1 hit
    rw [run.caches]
    refine (upToDate.made rule id was).imp (run.specs id _) fun ⟨secret, named, waits⟩ => ?_
    refine ⟨secret, named, (run.waits waits).resolve_left ?_⟩
    rintro rfl
    simp [Rule.dependsOn, named] at needless
  · rw [run.caches, run.resolver] at served
    rw [run.caches]
    cases was : route.links.get? rule with
    | none =>
      rcases upToDate.complete rule served was with waits | ⟨secret, named, missing | waits⟩
      · refine .inl ((run.serviceWaits waits).resolve_left fun ⟨concerned, same⟩ => ?_)
        exact unserved concerned same served
      · exact .inr ⟨secret, named, .inl missing⟩
      · refine .inr ⟨secret, named, (run.waits waits).imp_left ?_⟩
        rintro rfl
        exact uncertified rfl rfl
    | some id =>
      have needs : rule.dependsOn work.kind work.key = true := by
        rw [← Bool.not_eq_false]
        intro needless
        rw [Route.get?_without.2 ⟨was, needless⟩] at missing
        cases missing
      cases kind : work.kind with
      | ingress => exact absurd kind taken
      | secret =>
        have named : rule.secret = some work.key := by simpa [Rule.dependsOn, kind] using needs
        exact .inr ⟨work.key, named, .inl (uncertified kind rfl)⟩
      | endpoint =>
        have named : rule.service = work.key := by simpa [Rule.dependsOn, kind] using needs
        exact absurd served (unserved (.inl kind) named.symm)
      | service =>
        have named : rule.service = work.key := by simpa [Rule.dependsOn, kind] using needs
        exact absurd served (unserved (.inr kind) named.symm)

end ControlLoop

end TunnelIngress
