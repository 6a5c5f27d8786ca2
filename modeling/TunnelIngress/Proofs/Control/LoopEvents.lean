import TunnelIngress.Proofs.Control.KeptRoutes
import TunnelIngress.Proofs.Ingress.UnadmittedChanges

/-!
# Events of the control loop

An event changes one object in one cache. What then is out of date waits, as the key of the object is
queued, unless the change makes no difference to any route.
-/

namespace TunnelIngress

namespace ControlLoop

variable {settings : TunnelSettings} {admission : Admission} {resolver : SecretResolver}
  {loop : ControlLoop}

/-! ### Keys that are queued -/

theorem Tracks.waits_absorb (tracks : loop.Tracks settings admission resolver)
    (outcome : Watches.Outcome) {kind : Kind} {key : ResourceKey} (waits : loop.Waits kind key) :
    (loop.absorb outcome).Waits kind key :=
  ⟨waits.1, tracks.queue.mem_addAll.2 (.inl waits.2)⟩

theorem Tracks.queued_absorb (tracks : loop.Tracks settings admission resolver)
    {outcome : Watches.Outcome} {kind : Kind} {key : ResourceKey} (plain : key.Plain)
    (mem : ⟨kind, key⟩ ∈ outcome.work) : (loop.absorb outcome).Waits kind key :=
  ⟨plain, tracks.queue.mem_addAll.2 (.inr (List.mem_map_of_mem mem))⟩

theorem Tracks.plain_absorb (tracks : loop.Tracks settings admission resolver)
    {outcome : Watches.Outcome} (plain : ∀ work ∈ outcome.work, work.key.Plain) :
    ∀ item ∈ (loop.absorb outcome).queue.waiting, ∃ work : WorkKey, work.key.Plain ∧ item = work.text := by
  intro item mem
  rcases tracks.queue.mem_addAll.1 mem with mem | mem
  · exact tracks.plain item mem
  · obtain ⟨work, queued, rfl⟩ := List.mem_map.1 mem
    exact ⟨work, plain work queued, rfl⟩

/-- A change that can be seen waits. -/
theorem Tracks.seen_absorb {α β : Type} [Indexed α] (tracks : loop.Tracks settings admission resolver)
    {watch : Watch α} {outcome : Watch.Outcome α} {key : ResourceKey} {after : Option α}
    (change : Watch.Change admission watch outcome key after) (put : Watch α → Watches)
    (view : Option α → β)
    (blind : ∀ object, object.any (Admissible.admitted admission) = false → view object = view none)
    (place : ResourceKey) :
    view (watch.cache.find? place) = view (outcome.watch.cache.find? place) ∨
      (loop.absorb (.of put outcome)).Waits (KubernetesObject.kind α) place := by
  refine (change.same_or_queued view blind place).imp_right ?_
  rintro ⟨rfl, queued⟩
  exact tracks.queued_absorb change.plain queued

/-- A change of a dependency that waits, or that makes no difference. -/
theorem Tracks.absorb_dependency (tracks : loop.Tracks settings admission resolver)
    {outcome : Watches.Outcome} (index : outcome.index = loop.index)
    (ingresses : outcome.watches.ingresses = loop.watches.ingresses)
    (placed_endpoints : Watch.Placed outcome.watches.endpoints.cache.entries)
    (placed_secrets : Watch.Placed outcome.watches.secrets.cache.entries)
    (placed_services : Watch.Placed outcome.watches.services.cache.entries)
    (plain : ∀ work ∈ outcome.work, work.key.Plain)
    (serves : ∀ key, (∀ port number, loop.caches.Serves key port number ↔
      outcome.watches.caches.Serves key port number) ∨ (loop.absorb outcome).ServiceWaits key)
    (certificate : ∀ secret, loop.caches.certificate? secret =
      outcome.watches.caches.certificate? secret ∨ (loop.absorb outcome).Waits .secret secret) :
    (loop.absorb outcome).Tracks settings admission resolver := by
  have cached : (loop.absorb outcome).caches.ingresses = loop.caches.ingresses :=
    congrArg (·.cache) ingresses
  have same_index : (loop.absorb outcome).index = loop.index := index
  have same_wanted (key : ResourceKey) : (loop.absorb outcome).wanted key = loop.wanted key := by
    unfold wanted Demand.wanted
    rw [cached, same_index]
  have keeps (ingress : Ingress) : loop.Keeps (loop.absorb outcome) ingress :=
    { resolver := by rw [same_index]
      specs := fun _ _ was => was
      serviceWaits := fun _ _ _ waits =>
        waits.imp (tracks.waits_absorb outcome) (tracks.waits_absorb outcome)
      secretWaits := fun _ _ _ _ _ waits => tracks.waits_absorb outcome waits
      serves := fun rule _ _ => serves rule.service
      certificate := fun _ _ secret _ _ => certificate secret }
  exact
    { className := by rw [same_index, tracks.className]
      resolver := by rw [same_index, tracks.resolver]
      queue := tracks.queue.addAll _
      plain := tracks.plain_absorb plain
      delayed := tracks.delayed
      idle := tracks.idle
      endpoints := placed_endpoints
      ingresses := by
        change Watch.Placed outcome.watches.ingresses.cache.entries
        rw [ingresses]
        exact tracks.ingresses
      secrets := placed_secrets
      services := placed_services
      covered := by
        rw [cached, same_index]
        exact tracks.covered
      coherent := tracks.coherent
      routed := fun key ingress found still => by
        rw [same_wanted] at found
        obtain ⟨route, hit, upToDate⟩ := tracks.routed key ingress found fun waits =>
          still (tracks.waits_absorb outcome waits)
        exact ⟨route, hit, upToDate.keep (keeps ingress)⟩
      unrouted := fun key none still => by
        rw [same_wanted] at none
        exact tracks.unrouted key none fun waits => still (tracks.waits_absorb outcome waits) }

/-! ### One event of each kind -/

theorem Tracks.absorb_endpoints (tracks : loop.Tracks settings admission resolver)
    {outcome : Watch.Outcome Endpoints} {key : ResourceKey} {after : Option Endpoints}
    (change : Watch.Change admission loop.watches.endpoints outcome key after)
    (index : outcome.index = loop.index) :
    (loop.absorb (.of (fun endpoints => { loop.watches with endpoints }) outcome)).Tracks settings
      admission resolver := by
  refine tracks.absorb_dependency index rfl change.placed tracks.secrets tracks.services ?_ ?_
    fun secret => .inl rfl
  · exact fun work mem => (change.only work mem) ▸ change.plain
  · intro place
    rcases tracks.seen_absorb change (fun endpoints => { loop.watches with endpoints })
        (·.any (·.hasSubsets)) Endpoints.subsets_none place with same | waits
    · refine .inl fun port number => and_congr_right fun _ => ?_
      rw [← Bool.eq_iff_iff]
      exact same
    · exact .inr (.inl waits)

theorem Tracks.absorb_secrets (tracks : loop.Tracks settings admission resolver)
    {outcome : Watch.Outcome Secret} {key : ResourceKey} {after : Option Secret}
    (change : Watch.Change admission loop.watches.secrets outcome key after)
    (index : outcome.index = loop.index) :
    (loop.absorb (.of (fun secrets => { loop.watches with secrets }) outcome)).Tracks settings
      admission resolver := by
  refine tracks.absorb_dependency index rfl tracks.endpoints change.placed tracks.services ?_
    (fun place => .inl fun _ _ => .rfl) ?_
  · exact fun work mem => (change.only work mem) ▸ change.plain
  · exact tracks.seen_absorb change _ (·.bind (·.certificate?)) Secret.certificate_none

theorem Tracks.absorb_services (tracks : loop.Tracks settings admission resolver)
    {outcome : Watch.Outcome Service} {key : ResourceKey} {after : Option Service}
    (change : Watch.Change admission loop.watches.services outcome key after)
    (index : outcome.index = loop.index) :
    (loop.absorb (.of (fun services => { loop.watches with services }) outcome)).Tracks settings
      admission resolver := by
  refine tracks.absorb_dependency index rfl tracks.endpoints tracks.secrets change.placed ?_ ?_
    fun secret => .inl rfl
  · exact fun work mem => (change.only work mem) ▸ change.plain
  · intro place
    rcases tracks.seen_absorb change (fun services => { loop.watches with services })
        (fun service port => service.bind (·.portFor? port)) Service.port_none place with same | waits
    · refine .inl fun port number => and_congr_left fun _ => ?_
      exact Eq.congr_left (congrFun same port)
    · exact .inr (.inr waits)

/-- An ingress whose change does not wait was not wanted before, and is not now. -/
theorem Tracks.absorb_ingresses (tracks : loop.Tracks settings admission resolver)
    {outcome : Watch.Outcome Ingress} {key : ResourceKey} {after : Option Ingress}
    (change : Watch.Change admission loop.watches.ingresses outcome key after)
    (className : outcome.index.className = loop.index.className)
    (resolve : outcome.index.resolver = loop.index.resolver)
    (covers : ∀ ingress, after = some ingress → outcome.index.Covers ingress)
    (others : ∀ ingress, keyOf ingress ≠ key → loop.index.Covers ingress → outcome.index.Covers ingress) :
    (loop.absorb (.of (fun ingresses => { loop.watches with ingresses }) outcome)).Tracks settings
      admission resolver := by
  let later := loop.absorb (.of (fun ingresses => { loop.watches with ingresses }) outcome)
  have keeps (ingress : Ingress) : loop.Keeps later ingress :=
    { resolver := resolve
      specs := fun _ _ was => was
      serviceWaits := fun _ _ _ waits => waits.imp (tracks.waits_absorb _) (tracks.waits_absorb _)
      secretWaits := fun _ _ _ _ _ waits => tracks.waits_absorb _ waits
      serves := fun _ _ _ => .inl fun _ _ => .rfl
      certificate := fun _ _ _ _ _ => .inl rfl }
  have found (place : ResourceKey) : later.caches.ingresses.find? place =
      if place = key then after else loop.caches.ingresses.find? place := change.found place
  have same_wanted (place : ResourceKey) (still : ¬ later.Waits .ingress place) :
      later.wanted place = loop.wanted place := by
    have same := (tracks.seen_absorb change (fun ingresses => { loop.watches with ingresses })
      (·.filter (·.hasClass admission.ingressClass)) Ingress.filter_none place).resolve_right still
    unfold wanted Demand.wanted
    rw [show later.index.className = _ from className, tracks.className]
    exact same.symm
  have before (place : ResourceKey) (still : ¬ later.Waits .ingress place) :
      ¬ loop.Waits .ingress place := fun waits => still (tracks.waits_absorb _ waits)
  exact
    { className := className.trans tracks.className
      resolver := resolve.trans tracks.resolver
      queue := tracks.queue.addAll _
      plain := tracks.plain_absorb fun work mem => (change.only work mem) ▸ change.plain
      delayed := tracks.delayed
      idle := tracks.idle
      endpoints := tracks.endpoints
      ingresses := change.placed
      secrets := tracks.secrets
      services := tracks.services
      covered := fun place ingress hit => by
        have hit := (found place).symm.trans hit
        split at hit
        · exact covers ingress hit
        · rename_i ne
          refine others ingress ?_ (tracks.covered place ingress hit)
          rwa [Watch.keyOf_of_found tracks.ingresses hit]
      coherent := tracks.coherent
      routed := fun place ingress hit still => by
        rw [same_wanted place still] at hit
        obtain ⟨route, there, upToDate⟩ := tracks.routed place ingress hit (before place still)
        exact ⟨route, there, upToDate.keep (keeps ingress)⟩
      unrouted := fun place none still => by
        rw [same_wanted place still] at none
        exact tracks.unrouted place none (before place still) }

theorem Tracks.applied (tracks : loop.Tracks settings admission resolver) {kind : Kind}
    {object : AnyObject} (plain : object.metadata.Plain) {outcome : Watches.Outcome}
    (handled : loop.watches.handle admission loop.index kind (.apply object) = some outcome) :
    (loop.absorb outcome).Tracks settings admission resolver := by
  cases kind with
  | endpoint =>
    cases object with
    | endpoint object =>
      obtain ⟨single, acted, rfl⟩ := Watches.single_of_handled handled
      obtain ⟨change, index⟩ := Watch.apply_change tracks.endpoints plain acted
      exact tracks.absorb_endpoints change index
    | _ => cases handled
  | ingress =>
    cases object with
    | ingress object =>
      obtain ⟨single, acted, rfl⟩ := Watches.single_of_handled handled
      obtain ⟨change, index⟩ := Watch.apply_change tracks.ingresses plain acted
      have index : single.index = loop.index.upsert object := index
      refine tracks.absorb_ingresses change ?_ ?_ ?_ ?_
      · rw [index, IngressIndex.upsert_className]
      · rw [index, IngressIndex.upsert_resolver]
      · rintro _ ⟨⟩
        exact index ▸ loop.index.covers_upsert object
      · exact fun other ne covers => index ▸ covers.upsert ne
    | _ => cases handled
  | secret =>
    cases object with
    | secret object =>
      obtain ⟨single, acted, rfl⟩ := Watches.single_of_handled handled
      obtain ⟨change, index⟩ := Watch.apply_change tracks.secrets plain acted
      exact tracks.absorb_secrets change index
    | _ => cases handled
  | service =>
    cases object with
    | service object =>
      obtain ⟨single, acted, rfl⟩ := Watches.single_of_handled handled
      obtain ⟨change, index⟩ := Watch.apply_change tracks.services plain acted
      exact tracks.absorb_services change index
    | _ => cases handled

theorem Tracks.deleted (tracks : loop.Tracks settings admission resolver) {kind : Kind}
    {object : AnyObject} (plain : object.metadata.Plain) (cached : loop.caches.Holds object)
    {outcome : Watches.Outcome}
    (handled : loop.watches.handle admission loop.index kind (.delete object) = some outcome) :
    (loop.absorb outcome).Tracks settings admission resolver := by
  cases kind with
  | endpoint =>
    cases object with
    | endpoint object =>
      obtain ⟨single, acted, rfl⟩ := Watches.single_of_handled handled
      obtain ⟨change, index⟩ := Watch.delete_change tracks.endpoints plain cached acted
      exact tracks.absorb_endpoints change index
    | _ => cases handled
  | ingress =>
    cases object with
    | ingress object =>
      obtain ⟨single, acted, rfl⟩ := Watches.single_of_handled handled
      obtain ⟨change, index⟩ := Watch.delete_change tracks.ingresses plain cached acted
      have index : single.index = (loop.index.remove (keyOf object)).1 := index
      refine tracks.absorb_ingresses change ?_ ?_ (fun _ gone => nomatch gone) ?_
      · rw [index, IngressIndex.remove_className]
      · rw [index, IngressIndex.remove_resolver]
      · exact fun other ne covers => index ▸ covers.remove ne
    | _ => cases handled
  | secret =>
    cases object with
    | secret object =>
      obtain ⟨single, acted, rfl⟩ := Watches.single_of_handled handled
      obtain ⟨change, index⟩ := Watch.delete_change tracks.secrets plain cached acted
      exact tracks.absorb_secrets change index
    | _ => cases handled
  | service =>
    cases object with
    | service object =>
      obtain ⟨single, acted, rfl⟩ := Watches.single_of_handled handled
      obtain ⟨change, index⟩ := Watch.delete_change tracks.services plain cached acted
      exact tracks.absorb_services change index
    | _ => cases handled

end ControlLoop

end TunnelIngress
