import TunnelIngress.Proofs.Control.LoopEvents
import TunnelIngress.Proofs.Control.LoopTurns
import TunnelIngress.Proofs.Tunnel.ChangeEnds

/-!
# Routes once the queue is empty

When no key waits nothing is out of date. Then the routes are those of the cached ingresses of the
controller's class, each with the links that its ingress calls for, though a link whose certificate is
not at hand may be missing. Worker runs alone can always empty the queue.
-/

namespace TunnelIngress

namespace ControlLoop

variable {settings : TunnelSettings} {admission : Admission} {resolver : SecretResolver}
  {loop later : ControlLoop}

theorem Tracks.step (tracks : loop.Tracks settings admission resolver)
    (step : Step settings admission loop later) : later.Tracks settings admission resolver := by
  cases step with
  | applied kind object plain outcome handled => exact tracks.applied plain handled
  | deleted kind object plain cached outcome handled => exact tracks.deleted plain cached handled
  | worked item taken took later handles => exact tracks.worked took handles
  | due item mem =>
    rw [tracks.delayed] at mem
    cases mem
  | daemons router goes => exact tracks.daemons goes

theorem Tracks.leads (tracks : loop.Tracks settings admission resolver)
    (leads : Leads settings admission loop later) : later.Tracks settings admission resolver := by
  induction leads with
  | refl => exact tracks
  | tail _ step ih => exact ih.step step

/-- With an empty queue a route is what its ingress calls for. -/
theorem UpToDate.plan {ingress : Ingress} {route : Route} (upToDate : loop.UpToDate settings ingress route)
    (rested : ∀ kind key, ¬ loop.Waits kind key) :
    ∃ plan, RoutePlan.ofIngress loop.caches loop.index.resolver settings ingress = .ok plan ∧
      plan.key = keyOf ingress ∧ route.options = plan.options ∧
      (∀ rule id, route.links.get? rule = some id → ∃ spec, plan.links.get? rule = some spec ∧
        loop.router.fleet.spec? id = some spec) ∧
      ∀ rule spec, plan.links.get? rule = some spec → route.links.get? rule = none →
        ∃ secret, rule.secret = some secret ∧ loop.caches.certificate? secret = none := by
  obtain ⟨plan, built⟩ := RoutePlan.ofIngress_ok_iff.2 ⟨route.options, upToDate.options⟩
  obtain ⟨key, options, links⟩ := RoutePlan.ofIngress_spec built
  have same : route.options = plan.options := Except.ok.inj (upToDate.options.symm.trans options)
  have served (place : ResourceKey) : ¬ loop.ServiceWaits place :=
    fun waits => waits.elim (rested _ _) (rested _ _)
  refine ⟨plan, built, key, same, fun rule id hit => ?_, fun rule spec wanted missing => ?_⟩
  · refine ⟨_, (links rule _).2 ⟨(upToDate.served rule id hit).resolve_right (served _), rfl⟩, ?_⟩
    rw [← same]
    refine (upToDate.made rule id hit).resolve_right ?_
    rintro ⟨secret, _, waits⟩
    exact rested _ _ waits
  · have wanted := ((links rule spec).1 wanted).1
    obtain ⟨secret, named, cause⟩ := (upToDate.complete rule wanted missing).resolve_left (served _)
    exact ⟨secret, named, cause.resolve_right (rested _ _)⟩

/-- **The routes converge.** From a start with nothing cached, whenever no key waits, there is a route
for each cached ingress of the controller's class and no other. Its options are those that the ingress
calls for, each of its links is for a rule of the plan made from what the caches hold now and has the
very tunnel of that plan, and a rule of the plan that has no link has a secret without a certificate at
hand. -/
theorem converged (run : Leads settings admission (start admission.ingressClass resolver) loop)
    (rested : loop.queue.waiting = []) :
    (∀ key, (∃ route, loop.router.routes.get? key = some route) ↔
      ∃ ingress, loop.caches.ingresses.find? key = some ingress ∧
        ingress.hasClass admission.ingressClass = true) ∧
    ∀ key route, loop.router.routes.get? key = some route →
      ∃ ingress plan, loop.caches.ingresses.find? key = some ingress ∧
        RoutePlan.ofIngress loop.caches resolver settings ingress = .ok plan ∧
        route.key = key ∧ plan.key = key ∧ route.options = plan.options ∧
        (∀ rule id, route.links.get? rule = some id → ∃ spec, plan.links.get? rule = some spec ∧
          loop.router.fleet.spec? id = some spec) ∧
        ∀ rule spec, plan.links.get? rule = some spec → route.links.get? rule = none →
          ∃ secret, rule.secret = some secret ∧ loop.caches.certificate? secret = none := by
  have tracks := (tracks_start settings admission resolver).leads run
  have still (kind : Kind) (key : ResourceKey) : ¬ loop.Waits kind key := by
    rintro ⟨_, mem⟩
    rw [rested] at mem
    cases mem
  have wanted_iff {key : ResourceKey} {ingress : Ingress} : loop.wanted key = some ingress ↔
      loop.caches.ingresses.find? key = some ingress ∧
        ingress.hasClass admission.ingressClass = true := by
    rw [← tracks.className]
    exact Option.filter_eq_some_iff
  have wanted_of {key : ResourceKey} {route : Route} (hit : loop.router.routes.get? key = some route) :
      ∃ ingress, loop.wanted key = some ingress := by
    cases wanted : loop.wanted key with
    | some ingress => exact ⟨ingress, rfl⟩
    | none => cases hit.symm.trans (tracks.unrouted key wanted (still _ _))
  refine ⟨fun key => ⟨fun ⟨route, hit⟩ => ?_, fun ⟨ingress, found⟩ => ?_⟩, fun key route hit => ?_⟩
  · obtain ⟨ingress, wanted⟩ := wanted_of hit
    exact ⟨ingress, wanted_iff.1 wanted⟩
  · obtain ⟨route, hit, _⟩ := tracks.routed key ingress (wanted_iff.2 found) (still _ _)
    exact ⟨route, hit⟩
  · obtain ⟨ingress, wanted⟩ := wanted_of hit
    obtain ⟨route', hit', upToDate⟩ := tracks.routed key ingress wanted (still _ _)
    obtain rfl := Option.some.inj (hit.symm.trans hit')
    obtain ⟨plan, built, own, rest⟩ := upToDate.plan still
    rw [tracks.resolver] at built
    exact ⟨ingress, plan, (wanted_iff.1 wanted).1, built, tracks.coherent.keyed key route hit,
      own.trans (tracks.keyOf_wanted wanted), rest⟩

/-! ### The way to an empty queue -/

/-- A worker can always take the next key and handle it to the end. -/
theorem Tracks.can_work (tracks : loop.Tracks settings admission resolver)
    (readable : ∀ key ingress, loop.caches.ingresses.find? key = some ingress → ingress.Readable)
    {item : String} {rest : List String} (waits : loop.queue.waiting = item :: rest) :
    ∃ later, Step settings admission loop later ∧ later.watches = loop.watches ∧
      later.queue.waiting = rest := by
  obtain ⟨taken, took⟩ := tracks.queue.can_take waits
  have left : (taken.finish item).1.waiting = rest := by
    have both := (tracks.queue.run took).2
    rw [waits] at both
    exact (List.cons.inj both).2.symm
  obtain ⟨work, plain, rfl⟩ := tracks.plain item (by simp [waits])
  have reads := WorkKey.read_text plain
  let held : ControlLoop := { loop with queue := taken }
  obtain ⟨index, demand, found⟩ : ∃ index demand, Demand.ofKey held.caches held.index settings work.kind
      work.key = (index, .ok demand) := Demand.ofKey_total settings work.kind work.key readable
  obtain ⟨⟨fleet, mutation⟩, built⟩ : ∃ change, demand.build held.router.fleet = change := ⟨_, rfl⟩
  let idle : RouterSession := { loop.router with fleet }
  cases mutation with
  | none =>
    have handles : Handles settings work.text held { held with index, router := idle } :=
      .unconcerned work reads plain.hasNamespace index demand found fleet built
    exact ⟨_, .worked _ taken took _ handles, rfl, left⟩
  | some mutation =>
    obtain ⟨router, carries, complete⟩ := (idle.begin mutation).can_complete
    have handles : Handles settings work.text held { held with index, router } :=
      .changed work reads plain.hasNamespace index demand found fleet mutation built idle .refl router
        carries complete
    exact ⟨_, .worked _ taken took _ handles, rfl, left⟩

/-- **The queue can be worked off.** At any moment, if no cached ingress has annotations beyond the range
of durations, worker runs alone lead to an empty queue. -/
theorem comes_to_rest (run : Leads settings admission (start admission.ingressClass resolver) loop)
    (readable : ∀ key ingress, loop.caches.ingresses.find? key = some ingress → ingress.Readable) :
    ∃ later, Leads settings admission loop later ∧ later.watches = loop.watches ∧
      later.queue.waiting = [] := by
  have tracks := (tracks_start settings admission resolver).leads run
  clear run
  generalize waits : loop.queue.waiting = items
  induction items generalizing loop with
  | nil => exact ⟨loop, .refl, rfl, waits⟩
  | cons item rest ih =>
    obtain ⟨next, step, same, left⟩ := tracks.can_work readable waits
    have readable' : ∀ key ingress, next.caches.ingresses.find? key = some ingress →
        ingress.Readable := by
      rw [show next.caches = loop.caches from congrArg Watches.caches same]
      exact readable
    obtain ⟨later, leads, same', rested⟩ := ih readable' (tracks.step step) left
    exact ⟨later, .head step leads, same'.trans same, rested⟩

/-! ### One ingress with its service -/

def shopMetadata (name : String) : Metadata :=
  { name := some name, ns := some "shop" }

def webService : Service :=
  { metadata := shopMetadata "web", spec := some (some [⟨none, 80⟩]) }

def webEndpoints : Endpoints :=
  { metadata := shopMetadata "web", subsets := some [some ["10.0.0.1"]] }

def siteIngress : Ingress :=
  { metadata := shopMetadata "site"
    spec := some
      { className := some "argo-tunnel"
        rules := some
          [⟨some "shop.example", some
            [⟨some "/", "Prefix", { service := some ⟨"web", some ⟨none, some 80⟩⟩ }⟩]⟩]
        tls := none }
    hasStatus := false }

def siteRule : Rule :=
  { host := "shop.example", port := 80, service := ⟨"shop", "web"⟩, secret := none }

def argoTunnel : Admission :=
  { ingressClass := "argo-tunnel", filterServices := false }

def noSecrets : SecretResolver :=
  { default := none, overrides := ∅ }

theorem plain_shopMetadata {name : String} (named : PlainText name) : (shopMetadata name).Plain :=
  ⟨⟨"shop", rfl, by decide⟩, name, rfl, named⟩

theorem plain_web : (⟨"shop", "web"⟩ : ResourceKey).Plain :=
  ⟨by decide, by decide⟩

theorem plain_site : (⟨"shop", "site"⟩ : ResourceKey).Plain :=
  ⟨by decide, by decide⟩

theorem reads_web (kind : Kind) :
    WorkKey.read (⟨kind, ⟨"shop", "web"⟩⟩ : WorkKey).text = .ok ⟨kind, ⟨"shop", "web"⟩⟩ :=
  WorkKey.read_text plain_web

theorem reads_site (kind : Kind) :
    WorkKey.read (⟨kind, ⟨"shop", "site"⟩⟩ : WorkKey).text = .ok ⟨kind, ⟨"shop", "site"⟩⟩ :=
  WorkKey.read_text plain_site

/-- The service, its endpoints and the ingress come, and each is handled in turn. -/
theorem leads_site :
    ∃ loop, Leads {} argoTunnel (start argoTunnel.ingressClass noSecrets) loop ∧
      loop.queue.waiting = [] ∧
      loop.caches.ingresses.find? ⟨"shop", "site"⟩ = some siteIngress ∧
      siteRule ∈ RoutePlan.servedRules loop.caches noSecrets siteIngress := by
  have fronted := (Relation.ReflTransGen.refl (r := Step {} argoTunnel)
    (a := start argoTunnel.ingressClass noSecrets))
    |>.tail (.applied .service (.service webService) (plain_shopMetadata plain_web.name) _ rfl)
    |>.tail (.worked "service/shop/web" _ rfl _
      (.unconcerned ⟨.service, ⟨"shop", "web"⟩⟩ (reads_web _) rfl _ .nothing rfl _ rfl))
    |>.tail (.applied .endpoint (.endpoint webEndpoints) (plain_shopMetadata plain_web.name) _ rfl)
    |>.tail (.worked "endpoint/shop/web" _ rfl _
      (.unconcerned ⟨.endpoint, ⟨"shop", "web"⟩⟩ (reads_web _) rfl _ .nothing rfl _ rfl))
  have carries := fronted
    |>.tail (.applied .ingress (.ingress siteIngress) (plain_shopMetadata plain_site.name) _ rfl)
    |>.tail (.worked "ingress/shop/site" _ rfl _
      (.changed ⟨.ingress, ⟨"shop", "site"⟩⟩ (reads_site _) rfl _ _ rfl _ _ rfl _ .refl _
        (.tail (.single (.start _ 0 [] [] rfl)) (.finish _ rfl)) rfl))
  exact ⟨_, carries, rfl, rfl, by decide⟩

/-- The host is served: a rule that needs no secret is not missing. -/
theorem converged_site :
    ∃ loop, Leads {} argoTunnel (start argoTunnel.ingressClass noSecrets) loop ∧
      loop.queue.waiting = [] ∧ ∃ route id, loop.router.routes.get? ⟨"shop", "site"⟩ = some route ∧
        route.links.get? siteRule = some id := by
  obtain ⟨loop, run, rested, cached, served⟩ := leads_site
  obtain ⟨routed, made⟩ := converged run rested
  obtain ⟨route, hit⟩ := (routed ⟨"shop", "site"⟩).2 ⟨siteIngress, cached, by decide⟩
  refine ⟨loop, run, rested, route, ?_⟩
  cases linked : route.links.get? siteRule with
  | some id => exact ⟨id, hit, rfl⟩
  | none =>
    obtain ⟨ingress, plan, cached', built, _, _, _, _, complete⟩ := made _ route hit
    obtain rfl := Option.some.inj (cached.symm.trans cached')
    have planned := ((RoutePlan.ofIngress_spec built).2.2 siteRule _).2 ⟨served, rfl⟩
    obtain ⟨_, named, _⟩ := complete siteRule _ planned linked
    cases named

end ControlLoop

end TunnelIngress
