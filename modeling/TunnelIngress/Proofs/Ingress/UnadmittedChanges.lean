import TunnelIngress.Proofs.Ingress.Demands
import TunnelIngress.Proofs.Ingress.IndexHistory
import TunnelIngress.Proofs.Ingress.ServedRules
import TunnelIngress.Proofs.Ingress.WatchedIngresses

/-!
# Changes that are not admitted

Admission decides which changes queue a key. What is made of an object is decided elsewhere, where routes
are built, and there an object that is not admitted is as good as none. So a change between such objects
changes what no ingress calls for, and nothing is lost when it queues no key.
-/

namespace TunnelIngress

/-! ### What is seen of objects that are not admitted -/

theorem Ingress.filter_none {admission : Admission} (ingress : Option Ingress)
    (refused : ingress.any (Admissible.admitted admission) = false) :
    ingress.filter (·.hasClass admission.ingressClass) = none := by
  cases ingress with
  | none => rfl
  | some ingress => simpa [Admissible.admitted, Option.filter] using refused

theorem Endpoints.subsets_none {admission : Admission} (endpoints : Option Endpoints)
    (refused : endpoints.any (Admissible.admitted admission) = false) :
    endpoints.any (·.hasSubsets) = false :=
  refused

theorem Secret.certificate_none {admission : Admission} (secret : Option Secret)
    (refused : secret.any (Admissible.admitted admission) = false) :
    (secret.bind (·.certificate?)) = none := by
  cases secret with
  | none => rfl
  | some secret => simpa [Admissible.admitted, Secret.hasCertificate] using refused

theorem Service.port_none {admission : Admission} (service : Option Service)
    (refused : service.any (Admissible.admitted admission) = false) :
    (fun port => service.bind (·.portFor? port)) = fun _ => none := by
  funext port
  cases service with
  | none => rfl
  | some service =>
    have none : service.ports = [] := by
      simp only [Option.any_some, Admissible.admitted, Service.hasPorts, Bool.or_eq_false_iff] at refused
      simpa using refused.2
    simp [Service.portFor?, none]

/-- Caches that differ only in objects that are not admitted. -/
structure Caches.Unseen (before after : Caches) (admission : Admission) : Prop where
  endpoints : ∀ key, ¬ Watch.Relevant admission (before.endpoints.find? key) (after.endpoints.find? key)
  ingresses : ∀ key, ¬ Watch.Relevant admission (before.ingresses.find? key) (after.ingresses.find? key)
  secrets : ∀ key, ¬ Watch.Relevant admission (before.secrets.find? key) (after.secrets.find? key)
  services : ∀ key, ¬ Watch.Relevant admission (before.services.find? key) (after.services.find? key)

namespace Caches.Unseen

variable {before after : Caches} {admission : Admission}

theorem serves (unseen : before.Unseen after admission) (key : ResourceKey) (port : Option BackendPort)
    (number : Int32) : before.Serves key port number ↔ after.Serves key port number := by
  have services : (before.services.find? key).bind (·.portFor? port) =
      (after.services.find? key).bind (·.portFor? port) :=
    congrFun (Watch.same_view (unseen.services key)
      (fun service port => service.bind (·.portFor? port)) Service.port_none) port
  have endpoints := Watch.same_view (unseen.endpoints key) (·.any (·.hasSubsets)) Endpoints.subsets_none
  rw [Serves, services, endpoints, Serves]

theorem certificate (unseen : before.Unseen after admission) (secret : ResourceKey) :
    before.certificate? secret = after.certificate? secret :=
  Watch.same_view (unseen.secrets secret) (·.bind (·.certificate?)) Secret.certificate_none

theorem wanted (unseen : before.Unseen after admission) {index later : IngressIndex}
    (className : index.className = admission.ingressClass) (same : later.className = index.className)
    (key : ResourceKey) : Demand.wanted before index key = Demand.wanted after later key := by
  unfold Demand.wanted
  rw [same, className]
  exact Watch.same_view (unseen.ingresses key) (·.filter (·.hasClass admission.ingressClass))
    Ingress.filter_none

theorem demand (unseen : before.Unseen after admission) {index later : IngressIndex}
    (className : index.className = admission.ingressClass) (same : later.className = index.className)
    (resolver : later.resolver = index.resolver) (settings : TunnelSettings) (key : ResourceKey) :
    Demand.ofIngress after later settings key = Demand.ofIngress before index settings key := by
  have wanted := unseen.wanted className same key
  have routes : RoutePlan.ofIngress before index.resolver settings =
      RoutePlan.ofIngress after later.resolver settings := by
    funext ingress
    rw [resolver]
    exact RoutePlan.ofIngress_congr (fun key port number _ => unseen.serves key port number)
      fun _ _ secret _ => unseen.certificate secret
  simp only [Demand.ofIngress, Demand.plans_eq, List.filterMap_cons, List.filterMap_nil, wanted, routes]

end Caches.Unseen

/-! ### What an event replaces -/

/-- An event may replace the cached object of a key: a single change that of its own, and the end of a
list any. -/
def WatchEvent.Reaches {α : Type} (keyed : α → ResourceKey) (key : ResourceKey) : WatchEvent α → Prop
  | apply object | delete object => keyed object = key
  | beginList | listItem _ => False
  | endList => True

theorem WatchEvent.reaches_map {α β : Type} (f : α → β) {keyed : β → ResourceKey} {key : ResourceKey}
    (event : WatchEvent α) : (event.map f).Reaches keyed key ↔ event.Reaches (keyed ∘ f) key := by
  cases event <;> rfl

theorem Watch.find?_unreached {α : Type} [Indexed α] {admission : Admission} {index : IngressIndex}
    {watch : Watch α} {outcome : Outcome α} {event : WatchEvent α} {key : ResourceKey}
    (placed : Placed watch.cache.entries)
    (named : ∀ object ∈ event.object?, (KubernetesObject.metadata object).ns.isSome)
    (handled : watch.handle admission index event = some outcome) (apart : ¬ event.Reaches keyOf key) :
    outcome.watch.cache.find? key = watch.cache.find? key := by
  cases event with
  | apply object =>
    obtain ⟨ref, own, rfl⟩ := handle_apply handled
    obtain rfl := ref_of_named own (named object rfl)
    exact (find?_apply placed own key).trans (if_neg (Ne.symm apart))
  | delete object =>
    obtain ⟨ref, own, rfl⟩ := handle_delete handled
    obtain rfl := ref_of_named own (named object rfl)
    exact (find?_delete placed _ key).trans (if_neg (Ne.symm apart))
  | beginList =>
    cases handled
    rfl
  | listItem object =>
    obtain ⟨ref, own, rfl⟩ := handle_listItem handled
    rfl
  | endList => exact absurd trivial apart

/-- A change that is not worth a work item queues none, unless the object that is deleted is another
version than the cached one. -/
theorem Watch.work_of_irrelevant {α : Type} [Indexed α] {admission : Admission} {index : IngressIndex}
    {watch : Watch α} {outcome : Outcome α} {event : WatchEvent α} {object : α}
    (placed : Placed watch.cache.entries)
    (named : ∀ object ∈ event.object?, (KubernetesObject.metadata object).ns.isSome)
    (handled : watch.handle admission index event = some outcome)
    (single : event = .apply object ∨
      event = .delete object ∧ watch.cache.find? (keyOf object) = some object)
    (irrelevant : ¬ Relevant admission (watch.cache.find? (keyOf object))
      (outcome.watch.cache.find? (keyOf object))) : outcome.work = [] := by
  rcases single with rfl | ⟨rfl, cached⟩
  · obtain ⟨ref, own, rfl⟩ := handle_apply handled
    obtain rfl := ref_of_named own (named object rfl)
    dsimp only at irrelevant
    rw [find?_apply placed own, if_pos rfl] at irrelevant
    exact changed_dropped index irrelevant
  · obtain ⟨ref, own, rfl⟩ := handle_delete handled
    obtain rfl := ref_of_named own (named object rfl)
    dsimp only at irrelevant
    rw [find?_delete placed, if_pos rfl, cached] at irrelevant
    exact deleted_dropped index irrelevant

def AnyObject.admitted (admission : Admission) : AnyObject → Bool
  | endpoint object => Admissible.admitted admission object
  | ingress object => Admissible.admitted admission object
  | secret object => Admissible.admitted admission object
  | service object => Admissible.admitted admission object

/-- The object of a kind that is cached under a key. -/
def Caches.object? (caches : Caches) (kind : Kind) (key : ResourceKey) : Option AnyObject :=
  match kind with
  | .endpoint => (caches.endpoints.find? key).map .endpoint
  | .ingress => (caches.ingresses.find? key).map .ingress
  | .secret => (caches.secrets.find? key).map .secret
  | .service => (caches.services.find? key).map .service

/-- There is no change from one object to another, or neither of the two is admitted. Either may be
absent. -/
def AnyObject.Unadmitted (admission : Admission) (before after : Option AnyObject) : Prop :=
  before = after ∨
    before.any (·.admitted admission) = false ∧ after.any (·.admitted admission) = false

namespace Watches

variable {admission : Admission} {index : IngressIndex} {watches : Watches} {outcome : Outcome}
  {event : WatchEvent AnyObject} {kind : Kind}

/-- The watch of one kind among all: an event of which no change is admitted makes none there that is
worth a work item, and queues none if it applies an object or deletes it as it was cached. -/
theorem irrelevant_of_unadmitted {α : Type} [Indexed α] (put : α → AnyObject)
    {cast : AnyObject → Option α} (inverse : ∀ any object, cast any = some object ↔ any = put object)
    (metadata : ∀ object, (put object).metadata = KubernetesObject.metadata object)
    (admits : ∀ object, (put object).admitted admission = Admissible.admitted admission object)
    {watch : Watch α} (placed : Watch.Placed watch.cache.entries)
    (named : ∀ object ∈ event.object?, object.metadata.ns.isSome) {store : Watch α → Watches}
    (handled : ((event.cast? cast).bind fun own => (watch.handle admission index own).bind fun single =>
      some (Outcome.of store single)) = some outcome) :
    ∃ single : Watch.Outcome α, outcome = .of store single ∧
      ((∀ key, event.Reaches (·.metadata.key) key → AnyObject.Unadmitted admission
        ((watch.cache.find? key).map put) ((single.watch.cache.find? key).map put)) →
      (∀ key, ¬ Watch.Relevant admission (watch.cache.find? key) (single.watch.cache.find? key)) ∧
      ∀ any, (event = .apply any ∨ event = .delete any ∧
        (watch.cache.find? any.metadata.key).map put = some any) → single.work = []) := by
  have injective : Function.Injective put := fun object other same =>
    Option.some.inj (((inverse _ _).2 rfl).symm.trans (same ▸ (inverse _ _).2 rfl))
  obtain ⟨own, casts, acts⟩ := Option.bind_eq_some_iff.1 handled
  obtain ⟨single, acted, rfl⟩ := single_of_handled acts
  obtain rfl := WatchEvent.of_cast? (fun any object => (inverse any object).1) casts
  have keyed (object : α) : (put object).metadata.key = keyOf object :=
    congrArg Metadata.key (metadata object)
  have named (object : α) (mem : object ∈ own.object?) :
      (KubernetesObject.metadata object).ns.isSome := by
    rw [← metadata]
    exact named _ (WatchEvent.object?_map put own ▸ Option.mem_map_of_mem put mem)
  refine ⟨single, rfl, fun unadmitted => ?_⟩
  have irrelevant (key : ResourceKey) :
      ¬ Watch.Relevant admission (watch.cache.find? key) (single.watch.cache.find? key) := by
    rintro ⟨differs, admitted⟩
    have reached : own.Reaches keyOf key := by
      by_contra apart
      exact differs (Watch.find?_unreached placed named acted apart).symm
    have reached : (own.map put).Reaches (·.metadata.key) key := by
      rw [WatchEvent.reaches_map]
      rwa [show (fun any : AnyObject => any.metadata.key) ∘ put = keyOf from funext keyed]
    rcases unadmitted key reached with same | ⟨refused, refused'⟩
    · exact differs (Option.map_injective injective same)
    · simp only [Option.any_map, admits] at refused refused'
      simp [refused, refused'] at admitted
  refine ⟨irrelevant, ?_⟩
  rintro any (applied | ⟨deleted, cached⟩)
  · cases own with
    | apply object => exact Watch.work_of_irrelevant placed named acted (.inl rfl) (irrelevant _)
    | _ => cases applied
  · cases own with
    | delete object =>
      cases deleted
      obtain ⟨other, hit, same⟩ := Option.map_eq_some_iff.1 cached
      rw [keyed, injective same] at hit
      exact Watch.work_of_irrelevant placed named acted (.inr ⟨rfl, hit⟩) (irrelevant _)
    | _ => cases deleted

theorem unseen_of_unadmitted (namespaced : watches.caches.Namespaced)
    (named : ∀ object ∈ event.object?, object.metadata.ns.isSome)
    (handled : watches.handle admission index kind event = some outcome)
    (unadmitted : ∀ key, event.Reaches (·.metadata.key) key → AnyObject.Unadmitted admission
      (watches.caches.object? kind key) (outcome.watches.caches.object? kind key)) :
    watches.caches.Unseen outcome.watches.caches admission ∧
      ∀ object, (event = .apply object ∨ event = .delete object ∧
        watches.caches.object? kind object.metadata.key = some object) → outcome.work = [] := by
  have same {α : Type} [Indexed α] (object : Option α) : ¬ Watch.Relevant admission object object :=
    fun relevant => relevant.1 rfl
  cases kind with
  | endpoint =>
    obtain ⟨single, rfl, settles⟩ := irrelevant_of_unadmitted .endpoint
      (fun any _ => by cases any <;> simp) (fun _ => rfl) (fun _ => rfl) namespaced.endpoints named handled
    obtain ⟨unseen, quiet⟩ := settles unadmitted
    exact ⟨⟨unseen, fun _ => same _, fun _ => same _, fun _ => same _⟩, quiet⟩
  | ingress =>
    obtain ⟨single, rfl, settles⟩ := irrelevant_of_unadmitted .ingress
      (fun any _ => by cases any <;> simp) (fun _ => rfl) (fun _ => rfl) namespaced.ingresses named handled
    obtain ⟨unseen, quiet⟩ := settles unadmitted
    exact ⟨⟨fun _ => same _, unseen, fun _ => same _, fun _ => same _⟩, quiet⟩
  | secret =>
    obtain ⟨single, rfl, settles⟩ := irrelevant_of_unadmitted .secret
      (fun any _ => by cases any <;> simp) (fun _ => rfl) (fun _ => rfl) namespaced.secrets named handled
    obtain ⟨unseen, quiet⟩ := settles unadmitted
    exact ⟨⟨fun _ => same _, fun _ => same _, unseen, fun _ => same _⟩, quiet⟩
  | service =>
    obtain ⟨single, rfl, settles⟩ := irrelevant_of_unadmitted .service
      (fun any _ => by cases any <;> simp) (fun _ => rfl) (fun _ => rfl) namespaced.services named handled
    obtain ⟨unseen, quiet⟩ := settles unadmitted
    exact ⟨⟨fun _ => same _, fun _ => same _, fun _ => same _, unseen⟩, quiet⟩

/-- **Admission loses nothing.** Let the index and the admission be for one class, and let an event replace
cached objects only where neither the one before nor the one after is admitted. Then every ingress calls
for the very same as before the event: the same route, with its options, rules and certificates, or the
removal of its route. A single change has to meet this under its own key alone, and the end of a list
under all keys. An object that is applied, or deleted as it was cached, then queues no key. -/
theorem unadmitted_unseen (settings : TunnelSettings) (className : index.className = admission.ingressClass)
    (namespaced : watches.caches.Namespaced)
    (named : ∀ object ∈ event.object?, object.metadata.ns.isSome)
    (handled : watches.handle admission index kind event = some outcome)
    (unadmitted : ∀ key, event.Reaches (·.metadata.key) key → AnyObject.Unadmitted admission
      (watches.caches.object? kind key) (outcome.watches.caches.object? kind key)) :
    (∀ place, Demand.ofIngress outcome.watches.caches outcome.index settings place =
      Demand.ofIngress watches.caches index settings place) ∧
    ∀ object, (event = .apply object ∨ event = .delete object ∧
      watches.caches.object? kind object.metadata.key = some object) → outcome.work = [] := by
  obtain ⟨same_class, same_resolver⟩ := handle_settings handled
  obtain ⟨unseen, quiet⟩ := unseen_of_unadmitted namespaced named handled unadmitted
  exact ⟨unseen.demand className same_class same_resolver settings, quiet⟩

/-- A cafe with an ingress whose secret is missing. -/
def cafeWatches : Watches :=
  { endpoints := ⟨IngressIndex.cafeCaches.endpoints, []⟩
    ingresses :=
      { cache := Cache.empty.apply ⟨"menu", some "cafe"⟩
          (IngressIndex.cafeIngress [⟨some ["cafe.example"], some "cert"⟩])
        listed := [] }
    secrets := .new
    services := ⟨IngressIndex.cafeCaches.services, []⟩ }

def blankSecret : Secret :=
  { metadata := { name := some "cert", ns := some "cafe" }
    data := some [("key.pem", [1])]
    stringData := none }

/-- The secret comes in, but without a certificate. No key is queued, and the route stays as it was. -/
theorem unadmitted_unseen_blank :
    let index := IngressIndex.new "argo-tunnel" IngressIndex.wildcard
    ∃ outcome plan, cafeWatches.handle ⟨"argo-tunnel", true⟩ index .secret
        (.apply (.secret blankSecret)) = some outcome ∧
      outcome.work = [] ∧
      outcome.watches.caches.object? .secret ⟨"cafe", "cert"⟩ = some (.secret blankSecret) ∧
      Demand.ofIngress cafeWatches.caches index {} ⟨"cafe", "menu"⟩ = .ok (.update plan) ∧
      Demand.ofIngress outcome.watches.caches outcome.index {} ⟨"cafe", "menu"⟩ = .ok (.update plan) ∧
      plan.links.keys = [IngressIndex.cafeRule] := by
  intro index
  have namespaced : cafeWatches.caches.Namespaced :=
    ⟨Watch.placed_empty.insert rfl rfl, Watch.placed_empty.insert rfl rfl, Watch.placed_empty,
      Watch.placed_empty.insert rfl rfl⟩
  obtain ⟨outcome, handled⟩ : ∃ outcome, cafeWatches.handle ⟨"argo-tunnel", true⟩ index .secret
      (.apply (.secret blankSecret)) = some outcome := ⟨_, rfl⟩
  obtain ⟨same, quiet⟩ := unadmitted_unseen {} rfl namespaced (by rintro _ ⟨⟩; rfl) handled (by
    rintro _ rfl
    cases handled
    exact .inr ⟨rfl, rfl⟩)
  obtain ⟨plan, built⟩ : ∃ plan, Demand.ofIngress cafeWatches.caches index {} ⟨"cafe", "menu"⟩ =
      .ok (.update plan) := ⟨_, rfl⟩
  refine ⟨outcome, plan, handled, quiet _ (.inl rfl), ?_, built, (same _).trans built, ?_⟩
  · cases handled
    rfl
  · cases built
    decide

end Watches

end TunnelIngress
