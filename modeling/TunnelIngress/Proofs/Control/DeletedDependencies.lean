import TunnelIngress.Proofs.Control.Convergence

/-!
# Deleted dependencies

When a service, its endpoints or a secret is deleted, the links that need it are dropped from the routes
where they are, and nothing is built anew. What is left of a route is what its ingress would get now,
but for the rules that name a deleted secret: these would come back with an empty certificate.
-/

namespace TunnelIngress

/-- The caches once an object is gone: it is not found any more, and all else is found as before. -/
structure Caches.Loses (before after : Caches) (kind : Kind) (key : ResourceKey) : Prop where
  gone : after.has kind key = false
  endpoints : ∀ other, (kind = .endpoint → other ≠ key) →
    after.endpoints.find? other = before.endpoints.find? other
  ingresses : ∀ other, (kind = .ingress → other ≠ key) →
    after.ingresses.find? other = before.ingresses.find? other
  secrets : ∀ other, (kind = .secret → other ≠ key) →
    after.secrets.find? other = before.secrets.find? other
  services : ∀ other, (kind = .service → other ≠ key) →
    after.services.find? other = before.services.find? other

theorem Cache.find?_delete {α : Type} (cache : Cache α) {key other : ResourceKey} (ne : other ≠ key) :
    (cache.delete ⟨key.name, some key.ns⟩).find? other = cache.find? other := by
  have apart : (⟨other.name, some other.ns⟩ : ObjectRef) ≠ ⟨key.name, some key.ns⟩ :=
    fun same => ne (Watch.ref_eq_iff.1 same)
  have bare : ({ name := other.name, ns := none } : ObjectRef) ≠ ⟨key.name, some key.ns⟩ := by simp
  simp only [find?, get?, delete, Table.get?_erase, if_neg apart, if_neg bare]

def Caches.delete (caches : Caches) (kind : Kind) (key : ResourceKey) : Caches :=
  match kind with
  | .endpoint => { caches with endpoints := caches.endpoints.delete ⟨key.name, some key.ns⟩ }
  | .ingress => { caches with ingresses := caches.ingresses.delete ⟨key.name, some key.ns⟩ }
  | .secret => { caches with secrets := caches.secrets.delete ⟨key.name, some key.ns⟩ }
  | .service => { caches with services := caches.services.delete ⟨key.name, some key.ns⟩ }

theorem Caches.loses_delete (caches : Caches) (kind : Kind) (key : ResourceKey)
    (gone : (caches.delete kind key).has kind key = false) :
    caches.Loses (caches.delete kind key) kind key where
  gone := gone
  endpoints other ne := by
    cases kind with
    | endpoint => exact Cache.find?_delete _ (ne rfl)
    | _ => rfl
  ingresses other ne := by
    cases kind with
    | ingress => exact Cache.find?_delete _ (ne rfl)
    | _ => rfl
  secrets other ne := by
    cases kind with
    | secret => exact Cache.find?_delete _ (ne rfl)
    | _ => rfl
  services other ne := by
    cases kind with
    | service => exact Cache.find?_delete _ (ne rfl)
    | _ => rfl

namespace Caches.Loses

variable {before after : Caches} {kind : Kind} {key : ResourceKey} {rule : Rule}

theorem serves_of_independent (loses : before.Loses after kind key)
    (free : rule.dependsOn kind key = false) (port : Option BackendPort) (number : Int32) :
    after.Serves rule.service port number ↔ before.Serves rule.service port number := by
  have endpoints : after.endpoints.find? rule.service = before.endpoints.find? rule.service := by
    apply loses.endpoints
    rintro rfl
    simpa [Rule.dependsOn] using free
  have services : after.services.find? rule.service = before.services.find? rule.service := by
    apply loses.services
    rintro rfl
    simpa [Rule.dependsOn] using free
  rw [Caches.Serves, endpoints, services, Caches.Serves]

theorem certificateOf_of_independent (loses : before.Loses after kind key)
    (free : rule.dependsOn kind key = false) :
    RoutePlan.certificateOf after rule.secret = RoutePlan.certificateOf before rule.secret := by
  cases named : rule.secret with
  | none => rfl
  | some secret =>
    have same : after.secrets.find? secret = before.secrets.find? secret := by
      apply loses.secrets
      rintro rfl rfl
      simp [Rule.dependsOn, named] at free
    simp [RoutePlan.certificateOf, same]

/-- A service that is gone, or has no endpoints any more, serves no rule. -/
theorem not_serves (loses : before.Loses after kind key) (needs : rule.dependsOn kind key = true)
    (ingress : kind ≠ .ingress) (secret : kind ≠ .secret) (port : Option BackendPort) (number : Int32) :
    ¬ after.Serves rule.service port number := by
  rintro ⟨service, endpoints⟩
  have gone := loses.gone
  cases kind with
  | endpoint =>
    have here : rule.service = key := by simpa [Rule.dependsOn] using needs
    rw [here] at endpoints
    cases hit : after.endpoints.find? key <;> simp [Caches.has, hit] at gone endpoints
  | service =>
    have here : rule.service = key := by simpa [Rule.dependsOn] using needs
    rw [here] at service
    cases hit : after.services.find? key <;> simp [Caches.has, hit] at gone service
  | ingress => exact ingress rfl
  | secret => exact secret rfl

theorem serves_of_secret (loses : before.Loses after .secret key) (service : ResourceKey)
    (port : Option BackendPort) (number : Int32) :
    after.Serves service port number ↔ before.Serves service port number := by
  rw [Caches.Serves, loses.endpoints service (by simp), loses.services service (by simp), Caches.Serves]

theorem certificateOf_secret (loses : before.Loses after .secret key)
    (needs : rule.dependsOn .secret key = true) : RoutePlan.certificateOf after rule.secret = [] := by
  have named : rule.secret = some key := by simpa [Rule.dependsOn] using needs
  have none : after.secrets.find? key = none := by simpa [Caches.has] using loses.gone
  simp [RoutePlan.certificateOf, named, none]

end Caches.Loses

/-! ### Plans without an object -/

namespace RoutePlan

/-- A plan without the tunnels that need an object. -/
def without (plan : RoutePlan) (kind : Kind) (object : ResourceKey) : RoutePlan :=
  { plan with links := plan.links.filter fun rule _ => !rule.dependsOn kind object }

theorem get?_without (plan : RoutePlan) (kind : Kind) (object : ResourceKey) (rule : Rule) :
    (plan.without kind object).links.get? rule =
      if rule.dependsOn kind object then none else plan.links.get? rule := by
  rw [without, Table.get?_filter]
  cases rule.dependsOn kind object <;> cases plan.links.get? rule <;> rfl

theorem ofIngress_again {caches : Caches} {resolver : SecretResolver} {settings : TunnelSettings}
    {ingress : Ingress} {plan : RoutePlan} (built : ofIngress caches resolver settings ingress = .ok plan)
    (later : Caches) : ∃ rebuilt, ofIngress later resolver settings ingress = .ok rebuilt :=
  ofIngress_ok_iff.2 (ofIngress_ok_iff.1 ⟨plan, built⟩)

end RoutePlan

theorem Route.Realizes.without {route : Route} {fleet : Fleet} {plan : RoutePlan}
    (realizes : route.Realizes fleet plan) (kind : Kind) (object : ResourceKey) :
    (route.without kind object).Realizes fleet (plan.without kind object) where
  key := realizes.key
  options := realizes.options
  links rule := by
    have left : (route.without kind object).links.get? rule =
        if rule.dependsOn kind object then none else route.links.get? rule := by
      rw [Route.without, Table.get?_filter]
      cases rule.dependsOn kind object <;> cases route.links.get? rule <;> rfl
    rw [left, RoutePlan.get?_without]
    split
    · rfl
    · exact realizes.links rule

/-- A plan is realized if another is that has the same tunnels. -/
theorem Route.Realizes.congr {route : Route} {fleet : Fleet} {plan other : RoutePlan}
    (realizes : route.Realizes fleet plan) (key : other.key = plan.key)
    (options : other.options = plan.options)
    (links : ∀ rule, other.links.get? rule = plan.links.get? rule) : route.Realizes fleet other where
  key := realizes.key.trans key.symm
  options := realizes.options.trans options.symm
  links rule := by rw [links, realizes.links]

namespace RoutePlan

variable {before after : Caches} {kind : Kind} {key : ResourceKey} {resolver : SecretResolver}
  {settings : TunnelSettings} {ingress : Ingress} {plan rebuilt : RoutePlan}

/-- The plans of an ingress before and after an object is deleted differ only in the rules that need it:
there is none left that needs a service or endpoints, and those that need a secret lose their
certificate. -/
theorem rebuilt_links (loses : before.Loses after kind key) (other : kind ≠ .ingress)
    (built : ofIngress before resolver settings ingress = .ok plan)
    (again : ofIngress after resolver settings ingress = .ok rebuilt) :
    rebuilt.key = plan.key ∧ rebuilt.options = plan.options ∧ ∀ rule, rebuilt.links.get? rule =
      if rule.dependsOn kind key then
        if kind = .secret then (plan.links.get? rule).map (fun spec => { spec with certificate := [] })
        else none
      else plan.links.get? rule := by
  obtain ⟨own, read, links⟩ := ofIngress_spec built
  obtain ⟨own', read', links'⟩ := ofIngress_spec again
  have options : rebuilt.options = plan.options := Except.ok.inj (read'.symm.trans read)
  refine ⟨own'.trans own.symm, options, fun rule => ?_⟩
  by_cases needs : rule.dependsOn kind key = true
  · rw [if_pos needs]
    by_cases secret : kind = .secret
    · subst secret
      have served : rule ∈ servedRules after resolver ingress ↔
          rule ∈ servedRules before resolver ingress := by
        simp only [mem_servedRules, loses.serves_of_secret]
      rw [if_pos rfl]
      ext spec
      rw [links', loses.certificateOf_secret needs, served, options, Option.map_eq_some_iff]
      constructor
      · rintro ⟨mem, rfl⟩
        exact ⟨_, (links rule _).2 ⟨mem, rfl⟩, rfl⟩
      · rintro ⟨was, wanted, rfl⟩
        obtain ⟨mem, rfl⟩ := (links rule was).1 wanted
        exact ⟨mem, rfl⟩
    · rw [if_neg secret, Option.eq_none_iff_forall_ne_some]
      intro spec wanted
      obtain ⟨port, _, serves⟩ := mem_servedRules.1 ((links' rule spec).1 wanted).1
      exact loses.not_serves needs other secret port rule.port serves
  · rw [if_neg needs]
    rw [Bool.not_eq_true] at needs
    have served : rule ∈ servedRules after resolver ingress ↔
        rule ∈ servedRules before resolver ingress := by
      simp only [mem_servedRules, loses.serves_of_independent needs]
    ext spec
    rw [links', links, served, options, loses.certificateOf_of_independent needs]

end RoutePlan

/-! ### Handling the key of a deleted object -/

theorem Demand.ofKey_gone {caches : Caches} {index : IngressIndex} {kind : Kind} {key place : ResourceKey}
    (settings : TunnelSettings) (other : kind ≠ .ingress) (gone : caches.has kind key = false)
    (listed : place ∈ (index.lookup kind key).2) :
    (ofKey caches index settings kind key).2 = .ok (.drop kind key (index.lookup kind key).2) := by
  have some_key : ¬ (index.lookup kind key).2.isEmpty = true := by
    rw [List.isEmpty_iff]
    exact List.ne_nil_of_mem listed
  rw [ofKey_dependency caches index settings key other]
  dsimp only
  rw [ofDependency, if_neg some_key, if_neg (by simp [gone])]

namespace Routes

variable {before caches : Caches} {index : IngressIndex} {settings : TunnelSettings} {kind : Kind}
  {key place : ResourceKey} {ingress : Ingress} {plan : RoutePlan} {session : RouterSession}
  {route : Route}

theorem plan_drop (fleet : Fleet) (routes : Routes) (other : kind ≠ .ingress) (key : ResourceKey)
    (keys : List ResourceKey) :
    (Mutation.plan fleet routes (.drop kind key keys)).later = [] ∧
      (Mutation.plan fleet routes (.drop kind key keys)).routes =
        (forEach routes keys fun routes place => dropDependents routes kind key place).1 := by
  cases kind with
  | ingress => exact absurd rfl other
  | _ => exact ⟨rfl, rfl⟩

theorem get?_carries_drop (other : kind ≠ .ingress) {keys : List ResourceKey} {later : RouterSession}
    (carries : RouterSession.Carries (session.begin (.drop kind key keys)) later)
    (listed : place ∈ keys) :
    later.routes.get? place = (session.routes.get? place).map (·.without kind key) := by
  obtain ⟨last, dropped⟩ := plan_drop session.fleet session.routes other key keys
  have kept : later.routes = (session.begin (.drop kind key keys)).routes := by
    apply (RouterSession.carries_routes carries _).1
    rintro pending ⟨⟩
    exact last
  calc later.routes.get? place
      = (Mutation.plan session.fleet session.routes (.drop kind key keys)).routes.get? place := by
        rw [kept]
        rfl
    _ = (session.routes.get? place).map (·.without kind key) := by
        rw [dropped, get?_dropAll, if_pos listed]

/-- **Dropping what needs a deleted object leaves what a rebuild would give.** Let a route be as its
ingress called for before an object was deleted that the index lists it under. Then the key of the object
calls for dropping links, and at any moment after that has begun the route is as its ingress calls for
now, without the rules that need the object. There is no such rule unless the object is a secret, and
then it is one that had a link before and would get one with an empty certificate. -/
theorem drop_rebuilds (other : kind ≠ .ingress) (loses : before.Loses caches kind key)
    (listed : place ∈ (index.lookup kind key).2)
    (cached : before.ingresses.find? place = some ingress)
    (built : RoutePlan.ofIngress before index.resolver settings ingress = .ok plan)
    (hit : session.routes.get? place = some route) (exact : route.Realizes session.fleet plan) :
    let keys := (index.lookup kind key).2
    (Demand.ofKey caches index settings kind key).2 = .ok (.drop kind key keys) ∧
    ∃ rebuilt, caches.ingresses.find? place = some ingress ∧
      RoutePlan.ofIngress caches index.resolver settings ingress = .ok rebuilt ∧
      (∀ later, RouterSession.Carries (session.begin (.drop kind key keys)) later →
        ∃ left, later.routes.get? place = some left ∧
          left.Realizes later.fleet (rebuilt.without kind key) ∧
          (kind ≠ .secret → left.Realizes later.fleet rebuilt)) ∧
      ∀ rule, rule.dependsOn kind key = true → kind = .secret → rebuilt.links.get? rule =
        (plan.links.get? rule).map fun spec => { spec with certificate := [] } := by
  obtain ⟨rebuilt, again⟩ := RoutePlan.ofIngress_again built caches
  obtain ⟨own, options, links⟩ := RoutePlan.rebuilt_links loses other built again
  have still : caches.ingresses.find? place = some ingress := by
    rw [loses.ingresses place fun same => absurd same other, cached]
  refine ⟨Demand.ofKey_gone settings other loses.gone listed, rebuilt, still, again, ?_, ?_⟩
  · intro later carries
    have there := get?_carries_drop other carries listed
    rw [hit] at there
    have kept := (exact.mono fun _ _ was => RouterSession.carries_spec carries was).without kind key
    refine ⟨_, there, kept.congr own options ?_, fun secret => kept.congr own options ?_⟩
    · intro rule
      simp only [RoutePlan.get?_without, links]
      split <;> rfl
    · intro rule
      rw [RoutePlan.get?_without, links, if_neg secret]
  · intro rule needs secret
    rw [links, if_pos needs, if_pos secret]

/-! ### A route with a certificate -/

def sharedSecret : SecretResolver :=
  { default := some ⟨"shop", "cert"⟩, overrides := ∅ }

def certifiedRule : Rule :=
  { ControlLoop.siteRule with secret := some ⟨"shop", "cert"⟩ }

def certifiedCaches : Caches :=
  { endpoints := Cache.empty.apply ⟨"web", some "shop"⟩ ControlLoop.webEndpoints
    ingresses := Cache.empty.apply ⟨"site", some "shop"⟩ ControlLoop.siteIngress
    secrets := Cache.empty.apply ⟨"cert", some "shop"⟩
      { metadata := ControlLoop.shopMetadata "cert", data := some [("cert.pem", [1])], stringData := none }
    services := Cache.empty.apply ⟨"web", some "shop"⟩ ControlLoop.webService }

def certifiedIndex : IngressIndex :=
  (IngressIndex.new "argo-tunnel" sharedSecret).upsert ControlLoop.siteIngress

def certifiedPlan : RoutePlan :=
  { key := ⟨"shop", "site"⟩
    options := {}
    links := Table.insert ∅ certifiedRule (.new {} certifiedRule [1] {}) }

/-- The route is in place, though its link has not been started. -/
def certified : RouterSession :=
  { fleet := (certifiedPlan.build .empty).1
    routes := Table.insert ∅ ⟨"shop", "site"⟩ (certifiedPlan.build .empty).2
    handed := [0]
    pending := none }

/-- Without its service the route has no link left, and its ingress calls for none. -/
theorem drop_rebuilds_service :
    let caches := certifiedCaches.delete .service ⟨"shop", "web"⟩
    let later := certified.begin (.drop .service ⟨"shop", "web"⟩ [⟨"shop", "site"⟩])
    ∃ rebuilt, RoutePlan.ofIngress caches sharedSecret {} ControlLoop.siteIngress = .ok rebuilt ∧
      rebuilt.links.get? certifiedRule = none ∧
      ∃ left, later.routes.get? ⟨"shop", "site"⟩ = some left ∧ left.Realizes later.fleet rebuilt := by
  have exact := (certifiedPlan.build_realizes .empty).2
  have loses := certifiedCaches.loses_delete .service ⟨"shop", "web"⟩ rfl
  obtain ⟨_, rebuilt, _, again, left, _⟩ :=
    @drop_rebuilds _ _ certifiedIndex {} .service _ ⟨"shop", "site"⟩ _ _ certified _ (by decide) loses
      (by decide) rfl rfl rfl exact
  obtain ⟨route, hit, _, realizes⟩ := left _ .refl
  have none : route.links.get? certifiedRule = none := by
    cases hit
    rfl
  exact ⟨rebuilt, again, (realizes (by decide)).none_iff.1 none, route, hit, realizes (by decide)⟩

/-- Without its secret the route has no link left either, but its ingress calls for one. -/
theorem drop_secret_not_rebuilt :
    ¬ ∀ (before caches : Caches) (index : IngressIndex) (settings : TunnelSettings) (kind : Kind)
      (key place : ResourceKey) (ingress : Ingress) (plan rebuilt : RoutePlan)
      (session later : RouterSession) (route left : Route),
      kind ≠ .ingress → before.Loses caches kind key → place ∈ (index.lookup kind key).2 →
      before.ingresses.find? place = some ingress →
      RoutePlan.ofIngress before index.resolver settings ingress = .ok plan →
      session.pending = none → session.routes.get? place = some route →
      route.Realizes session.fleet plan →
      RouterSession.Carries (session.begin (.drop kind key (index.lookup kind key).2)) later →
      later.pending = none →
      RoutePlan.ofIngress caches index.resolver settings ingress = .ok rebuilt →
      later.routes.get? place = some left → left.Realizes later.fleet rebuilt := by
  intro always
  have exact := (certifiedPlan.build_realizes .empty).2
  have carries : RouterSession.Carries
      (certified.begin (.drop .secret ⟨"shop", "cert"⟩ [⟨"shop", "site"⟩])) _ :=
    .tail (.single (.stop _ 0 ⟨[], [], [], []⟩ rfl)) (.finish _ rfl)
  have loses := certifiedCaches.loses_delete .secret ⟨"shop", "cert"⟩ rfl
  have realizes := always _ _ certifiedIndex {} .secret _ ⟨"shop", "site"⟩ _ _ _ certified _ _ _ (by decide)
    loses (by decide) rfl rfl rfl rfl exact carries rfl rfl rfl
  -- The link of the route is gone, and the rebuilt one would not be.
  have none := realizes.none_iff.1 (show Table.get? _ certifiedRule = none from rfl)
  revert none
  decide

end Routes

end TunnelIngress
