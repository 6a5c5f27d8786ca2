import TunnelIngress.Proofs.Control.Convergence
import TunnelIngress.Proofs.Control.WorkerPool
import TunnelIngress.Proofs.Ingress.WatchedIngresses

/-!
# Routes of ingresses that are gone

A worker may hold a route of an ingress that has been deleted since. If the worker has the key of a
dependency, the route is not brought back. If it has the key of the ingress, the deletion has that key
handled once more after it. So once the key is settled there is no route.
-/

namespace TunnelIngress

theorem Demand.wanted_of_single {watches : Watches} {admission : Admission} {index : IngressIndex}
    {outcome : Watch.Outcome Ingress} {key : ResourceKey} {after : Option Ingress}
    (className : index.className = admission.ingressClass)
    (same_class : outcome.index.className = index.className)
    (found : ∀ other, outcome.watch.cache.find? other =
      if other = key then after else watches.ingresses.cache.find? other)
    (queued : Watch.Relevant admission (watches.ingresses.cache.find? key) after →
      ⟨.ingress, key⟩ ∈ outcome.work) (place : ResourceKey) :
    let later := Watches.Outcome.of (fun ingresses => { watches with ingresses }) outcome
    wanted later.watches.caches later.index place = wanted watches.caches index place ∨
      ⟨.ingress, place⟩ ∈ later.work := by
  intro later
  have view (caches : Caches) (index' : IngressIndex) (ours : index'.className = admission.ingressClass) :
      wanted caches index' place =
        (caches.ingresses.find? place).filter (·.hasClass admission.ingressClass) := by
    rw [wanted, ours]
  rw [view later.watches.caches later.index (same_class.trans className), view watches.caches index className]
  have seen : later.watches.caches.ingresses.find? place = _ := found place
  rw [seen]
  by_cases here : place = key
  · subst here
    rw [if_pos rfl]
    by_cases relevant : Watch.Relevant admission (watches.ingresses.cache.find? place) after
    · exact .inr (queued relevant)
    · exact .inl (Watch.same_view relevant (·.filter (·.hasClass admission.ingressClass))
        Ingress.filter_none).symm
  · rw [if_neg here]
    exact .inl rfl

def ingressItem (key : ResourceKey) : String :=
  (⟨.ingress, key⟩ : WorkKey).text

/-- A route that may come to a place where there is none is of the ingress that was handled. -/
def Draft.Own (draft : Draft) : Prop :=
  ∀ route, draft.mutation = .update route → route.key.Plain ∧ draft.item = ingressItem route.key

namespace WorkerPool

/-- An object with a namespace is applied, or deleted as it is cached. -/
def SingleChange (pool : WorkerPool) (_ : Kind) (event : WatchEvent AnyObject) : Prop :=
  ∃ object : AnyObject, object.metadata.ns.isSome ∧
    (event = .apply object ∨ event = .delete object ∧ pool.caches.Holds object)

/-- An item is to be handled: an event in progress is about to queue it, or it is queued, marked or being
processed. -/
def Unsettled (pool : WorkerPool) (item : String) : Prop :=
  item ∈ pool.announced ∨ item ∈ pool.work.queue.waiting ∨ item ∈ pool.work.queue.dirty ∨
    item ∈ pool.work.queue.processing

/-- Somebody is going to see to it that there is no route, or there is none and none is coming. -/
inductive Covered (pool : WorkerPool) (key : ResourceKey) : Prop where
  | announced (mem : ingressItem key ∈ pool.announced)
  | dirty (mem : ingressItem key ∈ pool.work.queue.dirty)
  | taken (worker : Nat) (busy : pool.errands worker = .taken (ingressItem key))
  | removing (worker : Nat) (draft : Draft) (ready : pool.errands worker = .built draft)
      (own : draft.item = ingressItem key) (removes : draft.mutation = .remove key)
  | absent (none : pool.router.routes.get? key = none)
      (unbuilt : ∀ worker draft route, pool.errands worker = .built draft →
        draft.mutation = .update route → route.key ≠ key)

structure Removes (admission : Admission) (pool : WorkerPool) : Prop where
  sound : pool.Sound
  running : pool.work.queue.shutDown = false
  className : pool.index.className = admission.ingressClass
  placed : Watch.Placed pool.watches.ingresses.cache.entries
  plain : ∀ key, ¬ key.Plain → pool.router.routes.get? key = none
  own : ∀ worker draft, pool.errands worker = .built draft → draft.Own
  covered : ∀ key, key.Plain → Demand.wanted pool.caches pool.index key = none → pool.Covered key

variable {settings : TunnelSettings} {admission : Admission} {pool later : WorkerPool} {worker : Nat}
  {item : String} {errand : Errand} {key : ResourceKey}

/-! ### What a worker makes of an item -/

/-- The item of an ingress that is not wanted has its route removed. -/
theorem Turn.removes (turn : Turn settings pool (ingressItem key) later errand) (plain : key.Plain)
    (unwanted : Demand.wanted pool.caches pool.index key = none) :
    ∃ draft, errand = .built draft ∧ draft.item = ingressItem key ∧ draft.mutation = .remove key := by
  have reads : WorkKey.read (ingressItem key) = .ok ⟨.ingress, key⟩ :=
    @WorkKey.read_text ⟨.ingress, key⟩ plain
  have calls : Demand.ofKey pool.caches pool.index settings .ingress key =
      (pool.index, .ok (.remove key)) :=
    congrArg (Prod.mk _) (Demand.ofIngress_unwanted settings unwanted)
  cases turn with
  | malformed error read => cases reads.symm.trans read
  | refused work read bare =>
    cases reads.symm.trans read
    simp [plain.hasNamespace] at bare
  | retried work read bare delay queue step =>
    cases reads.symm.trans read
    simp [plain.hasNamespace] at bare
  | died work read placed index fault found =>
    cases reads.symm.trans read
    cases calls.symm.trans found
  | unconcerned work read placed index demand found fleet built =>
    cases reads.symm.trans read
    cases calls.symm.trans found
    cases built
  | built work read placed index demand found fleet mutation built =>
    cases reads.symm.trans read
    cases calls.symm.trans found
    cases built
    exact ⟨_, rfl, rfl, rfl⟩

theorem Turn.own (turn : Turn settings pool item later errand)
    (placed : Watch.Placed pool.watches.ingresses.cache.entries) {draft : Draft}
    (ready : errand = .built draft) : draft.Own := by
  cases turn with
  | built work read named index demand found fleet mutation built =>
    cases ready
    rintro route rfl
    obtain ⟨plain, text⟩ := WorkKey.of_read read named
    by_cases ingress : work.kind = .ingress
    · obtain ⟨kind, key⟩ := work
      cases ingress
      have calls : Demand.ofIngress pool.caches pool.index settings key = .ok demand :=
        congrArg Prod.snd found
      rcases Demand.ofIngress_cases calls with ⟨ingress, plan, wanted, rfl, planned⟩ | ⟨_, rfl⟩
      · cases built
        have cached := (Option.filter_eq_some_iff.1 wanted).1
        have own : plan.key = key :=
          (RoutePlan.ofIngress_spec planned).1.trans (Watch.keyOf_of_found placed cached)
        change plan.key.Plain ∧ item = ingressItem plan.key
        rw [own]
        exact ⟨plain, text.symm⟩
      · cases built
    · rw [Demand.ofKey_dependency _ _ _ _ ingress] at found
      rcases Demand.ofDependency_cases (congrArg Prod.snd found) with
        ⟨_, rfl⟩ | ⟨plans, _, _, rfl⟩ | ⟨_, rfl⟩ <;> cases built
  | _ => cases ready

/-! ### Every step keeps the invariant -/

/-- No worker does anything, and no route comes. -/
theorem Covered.keep (covered : pool.Covered key) (errands : later.errands = pool.errands)
    (announced : ingressItem key ∈ pool.announced →
      ingressItem key ∈ later.announced ∨ ingressItem key ∈ later.work.queue.dirty)
    (dirty : ingressItem key ∈ pool.work.queue.dirty → ingressItem key ∈ later.work.queue.dirty)
    (absent : pool.router.routes.get? key = none → later.router.routes.get? key = none) :
    later.Covered key := by
  cases covered with
  | announced mem => exact (announced mem).elim .announced .dirty
  | dirty mem => exact .dirty (dirty mem)
  | taken worker busy => exact .taken worker (errands ▸ busy)
  | removing worker draft ready own removes => exact .removing worker draft (errands ▸ ready) own removes
  | absent none unbuilt => exact .absent (absent none) (errands ▸ unbuilt)

/-- A worker goes on that had nothing to do with the ingress. -/
theorem Covered.put (covered : pool.Covered key) (taken : pool.errands worker ≠ .taken (ingressItem key))
    (built : ∀ draft, pool.errands worker ≠ .built draft)
    (fresh : ∀ draft route, errand = .built draft → draft.mutation = .update route → route.key ≠ key) :
    (pool.put worker errand).Covered key := by
  have other {found : Nat} {was : Errand} (ready : pool.errands found = was)
      (not : pool.errands worker ≠ was) : (pool.put worker errand).errands found = was := by
    have ne : found ≠ worker := by
      rintro rfl
      exact not ready
    rw [errands_put, if_neg ne, ready]
  cases covered with
  | announced mem => exact .announced mem
  | dirty mem => exact .dirty mem
  | taken found busy => exact .taken found (other busy taken)
  | removing found draft ready own removes =>
    exact .removing found draft (other ready (built draft)) own removes
  | absent none unbuilt =>
    refine .absent none fun found draft route ready updates => ?_
    rw [errands_put] at ready
    split at ready
    · exact fresh draft route ready updates
    · exact unbuilt found draft route ready updates

theorem own_put (own : ∀ found draft, pool.errands found = .built draft → draft.Own)
    (fresh : ∀ draft, errand = .built draft → draft.Own) (found : Nat) (draft : Draft)
    (ready : (pool.put worker errand).errands found = .built draft) : draft.Own := by
  rw [errands_put] at ready
  split at ready
  · exact fresh draft ready
  · exact own found draft ready

/-- An event of an ingress announces its key if it makes a difference to what is wanted. -/
theorem Removes.changed (removes : Removes admission pool) {kind : Kind} {event : WatchEvent AnyObject}
    (may : pool.SingleChange kind event) {outcome : Watches.Outcome}
    (handled : pool.watches.handle admission pool.index kind event = some outcome) :
    Watch.Placed outcome.watches.ingresses.cache.entries ∧
      outcome.index.className = pool.index.className ∧
      ∀ key, Demand.wanted outcome.watches.caches outcome.index key =
        Demand.wanted pool.caches pool.index key ∨ ⟨.ingress, key⟩ ∈ outcome.work := by
  rcases Watches.ingress_or_other handled with ⟨same, index⟩ | ⟨own, single, rfl, rfl, acted, rfl⟩
  · rw [same, index]
    have cached : outcome.watches.caches.ingresses = pool.caches.ingresses := congrArg (·.cache) same
    refine ⟨removes.placed, rfl, fun key => .inl ?_⟩
    rw [Demand.wanted, cached, Demand.wanted]
  · have className : single.index.className = pool.index.className := (Watches.handle_settings handled).1
    obtain ⟨object, named, applied | ⟨deleted, cached⟩⟩ := may
    · cases own with
      | apply ingress =>
        cases applied
        obtain ⟨kept, found, queued⟩ := Watch.apply_found removes.placed named acted
        exact ⟨kept, className, Demand.wanted_of_single removes.className className found queued⟩
      | _ => cases applied
    · cases own with
      | delete ingress =>
        cases deleted
        obtain ⟨kept, found, queued⟩ := Watch.delete_found removes.placed named cached acted
        exact ⟨kept, className, Demand.wanted_of_single removes.className className found queued⟩
      | _ => cases deleted

theorem Removes.began (removes : Removes admission pool) {draft : Draft}
    (ready : pool.errands worker = .built draft)
    (sound : ((pool.begin worker draft).put worker (.changing draft.item)).Sound) :
    Removes admission ((pool.begin worker draft).put worker (.changing draft.item)) := by
  let later := (pool.begin worker draft).put worker (.changing draft.item)
  have own := removes.own worker draft ready
  have absent (key : ResourceKey) (none : pool.router.routes.get? key = none)
      (other : ∀ route, draft.mutation = .update route → route.key ≠ key) :
      later.router.routes.get? key = Option.none :=
    Routes.plan_absent none other
  have errands (found : Nat) : later.errands found =
      if found = worker then .changing draft.item else pool.errands found := rfl
  refine ⟨sound, removes.running, removes.className, removes.placed, ?_,
    own_put removes.own (fun _ built => nomatch built), ?_⟩
  · intro key odd
    refine absent key (removes.plain key odd) fun route updates same => ?_
    exact odd (same ▸ (own route updates).1)
  · intro key plain unwanted
    cases removes.covered key plain unwanted with
    | announced mem => exact .announced mem
    | dirty mem => exact .dirty mem
    | taken found busy =>
      refine .taken found ((errands found).trans ?_)
      rw [if_neg, busy]
      rintro rfl
      cases ready.symm.trans busy
    | removing found other ready' item removing =>
      by_cases here : found = worker
      · -- The route goes now. A worker with an update of it would have to be on the same item.
        subst here
        cases ready.symm.trans ready'
        refine .absent ?_ fun found other route works updates => ?_
        · change (draft.mutation.plan pool.router.fleet pool.router.routes).routes.get? key = _
          rw [removing]
          exact (Routes.get?_removeRoute _ key key).trans (if_pos rfl)
        · rw [show WorkerPool.errands _ found = _ from errands found] at works
          split at works
          · cases works
          · rename_i ne
            rintro rfl
            have same := (removes.own found other works route updates).2
            refine ne (@Sound.alone _ _ _ draft.item removes.sound ?_ ?_)
            · rw [works, item, ← same]
              rfl
            · rw [ready]
              rfl
      · exact .removing found other ((errands found).trans ((if_neg here).trans ready')) item removing
    | absent none unbuilt =>
      refine .absent (absent key none fun route => unbuilt worker draft route ready) ?_
      intro found other route works updates
      rw [show WorkerPool.errands _ found = _ from errands found] at works
      split at works
      · cases works
      · exact unbuilt found other route works updates

theorem Removes.turned (removes : Removes admission pool) (busy : pool.errands worker = .taken item)
    (turn : Turn settings pool item later errand) (sound : (later.put worker errand).Sound) :
    Removes admission (later.put worker errand) := by
  have keeps := turn.keeps
  have own (draft : Draft) (ready : errand = .built draft) : draft.Own := turn.own removes.placed ready
  refine ⟨sound, keeps.gains.shutDown.trans removes.running, keeps.className.trans removes.className,
    keeps.watches ▸ removes.placed, keeps.routes ▸ removes.plain, ?_, fun key plain unwanted => ?_⟩
  · refine own_put ?_ own
    rw [keeps.errands]
    exact removes.own
  · have unwanted : Demand.wanted pool.caches pool.index key = none := by
      rw [Demand.wanted, ← keeps.className, WorkerPool.caches, ← keeps.watches]
      exact unwanted
    -- Only a turn on the item of the ingress itself could bring its route, and that one removes it.
    by_cases here : item = ingressItem key
    · subst here
      obtain ⟨draft, rfl, same, removing⟩ := turn.removes plain unwanted
      exact .removing worker draft (if_pos rfl) same removing
    · have kept : later.Covered key := (removes.covered key plain unwanted).keep keeps.errands
        (fun mem => .inl (keeps.announced ▸ mem)) (keeps.gains.dirty _) (keeps.routes ▸ id)
      refine kept.put ?_ ?_ fun draft route ready updates same => here ?_
      · rw [keeps.errands, busy]
        exact fun taken => here (Errand.taken.inj taken)
      · rw [keeps.errands, busy]
        exact fun _ built => nomatch built
      · calc item = draft.item := (keeps.own (by rw [ready]; rfl)).symm
          _ = ingressItem key := by rw [(own draft ready route updates).2, same]

theorem Removes.step (removes : Removes admission pool)
    (step : Step settings admission SingleChange pool later) : Removes admission later := by
  have sound := removes.sound.step step
  cases step with
  | changed kind event may outcome handled =>
    obtain ⟨placed, className, wanted⟩ := removes.changed may handled
    refine ⟨sound, removes.running, className.trans removes.className, placed, removes.plain, removes.own,
      fun key plain unwanted => ?_⟩
    rcases wanted key with same | queued
    · exact (removes.covered key plain (same.symm.trans unwanted)).keep rfl
        (fun mem => .inl (List.mem_append_left _ mem)) id id
    · exact .announced (List.mem_append_right _ (List.mem_map_of_mem queued))
  | queued item next =>
    have running : (pool.work.add item).queue.shutDown = false :=
      (pool.work.queue.add_shutDown item).trans removes.running
    refine ⟨sound, running, removes.className, removes.placed, removes.plain, removes.own,
      fun key plain unwanted => ?_⟩
    refine (removes.covered key plain unwanted).keep rfl (fun mem => ?_)
      (fun mem => WorkQueue.mem_add_dirty.2 (.inl mem)) id
    by_cases here : ingressItem key = item
    · exact .inr (WorkQueue.mem_add_dirty.2 (.inr ⟨here, removes.running⟩))
    · exact .inl ((List.mem_erase_of_ne here).2 mem)
  | due item work step =>
    have gains := QueueSession.gains_due step
    refine ⟨sound, gains.shutDown.trans removes.running, removes.className, removes.placed, removes.plain,
      removes.own, fun key plain unwanted => ?_⟩
    exact (removes.covered key plain unwanted).keep rfl .inl (gains.dirty _) id
  | took worker idle item taken answer =>
    obtain ⟨_, shut, dirty⟩ := QueueSession.take_item answer worker
    refine ⟨sound, shut.trans removes.running, removes.className, removes.placed, removes.plain,
      own_put removes.own (fun _ built => nomatch built), fun key plain unwanted => ?_⟩
    by_cases here : ingressItem key = item
    · exact .taken worker (here ▸ if_pos rfl)
    · let queue : WorkerPool := { pool with work := pool.work.take worker }
      have kept : queue.Covered key := (removes.covered key plain unwanted).keep rfl .inl
        (fun mem => (dirty _).2 ⟨mem, here⟩) id
      exact kept.put (by simp [queue, idle]) (by simp [queue, idle]) fun _ _ built => nomatch built
  | left worker idle closed => cases closed.symm.trans removes.running
  | turned worker item busy later errand turn => exact removes.turned busy turn sound
  | began worker draft ready free => exact removes.began ready sound
  | carried router goes =>
    refine ⟨sound, removes.running, removes.className, removes.placed, ?_, removes.own, ?_⟩
    · exact fun key odd => RouterSession.goes_absent goes (removes.plain key odd)
    · exact fun key plain unwanted => (removes.covered key plain unwanted).keep rfl .inl id
        (RouterSession.goes_absent goes)
  | completed worker item busy done =>
    refine ⟨sound, removes.running, removes.className, removes.placed, removes.plain,
      own_put removes.own (fun _ built => nomatch built), fun key plain unwanted => ?_⟩
    exact (removes.covered key plain unwanted).put (by simp [busy]) (by simp [busy])
      fun _ _ built => nomatch built
  | finished worker item done =>
    have running : (pool.work.finish worker item).queue.shutDown = false :=
      (pool.work.queue.finish_shutDown item).trans removes.running
    refine ⟨sound, running, removes.className, removes.placed, removes.plain,
      own_put removes.own (fun _ built => nomatch built), fun key plain unwanted => ?_⟩
    let queue : WorkerPool := { pool with work := pool.work.finish worker item }
    have kept : queue.Covered key := (removes.covered key plain unwanted).keep rfl .inl
      (fun mem => (pool.work.queue.finish_dirty item).symm ▸ mem) id
    exact kept.put (by simp [queue, done]) (by simp [queue, done]) fun _ _ built => nomatch built

theorem removes_start (admission : Admission) (resolver : SecretResolver) (workers : Nat) :
    Removes admission (start admission.ingressClass resolver workers) where
  sound := sound_start _ _ _
  running := rfl
  className := rfl
  placed := Watch.placed_empty
  plain _ _ := rfl
  own worker draft ready := absurd ready (unbuilt_start worker draft)
  covered _ _ _ := .absent rfl fun worker draft _ ready => absurd ready (unbuilt_start worker draft)

theorem Removes.leads (removes : Removes admission pool)
    (leads : Leads settings admission SingleChange pool later) : Removes admission later := by
  induction leads with
  | refl => exact removes
  | tail _ step ih => exact ih.step step

theorem Removes.unrouted (removes : Removes admission pool)
    (unwanted : ∀ ingress, pool.caches.ingresses.find? key = some ingress →
      ingress.hasClass admission.ingressClass = false)
    (settled : ¬ pool.Unsettled (⟨.ingress, key⟩ : WorkKey).text) :
    pool.router.routes.get? key = none := by
  simp only [Unsettled, not_or] at settled
  obtain ⟨unannounced, _, clean, idle⟩ := settled
  by_cases plain : key.Plain
  · have none : Demand.wanted pool.caches pool.index key = none := by
      rw [Demand.wanted, removes.className, Option.filter_eq_none_iff]
      exact fun ingress cached => by simp [unwanted ingress cached]
    cases removes.covered key plain none with
    | announced mem => exact absurd mem unannounced
    | dirty mem => exact absurd mem clean
    | taken worker busy => exact absurd (removes.sound.processing (by rw [busy]; rfl)) idle
    | removing worker draft ready own removing =>
      exact absurd (removes.sound.processing (by rw [ready]; exact congrArg some own)) idle
    | absent none unbuilt => exact none
  · exact removes.plain key plain

/-- **An ingress that is gone is not routed.** Whenever an ingress is not cached, or not of the
controller's class, and its item is settled, there is no route for it, whatever routes of it workers may
still hold. -/
theorem unwanted_unrouted {resolver : SecretResolver} {workers : Nat}
    (run : Leads settings admission SingleChange (start admission.ingressClass resolver workers) pool)
    (unwanted : ∀ ingress, pool.caches.ingresses.find? key = some ingress →
      ingress.hasClass admission.ingressClass = false)
    (settled : ¬ pool.Unsettled (⟨.ingress, key⟩ : WorkKey).text) :
    pool.router.routes.get? key = none :=
  ((removes_start admission resolver workers).leads run).unrouted unwanted settled

/-- While no event is in progress, it is enough that the item is not queued, marked or being processed. -/
theorem unrouted_between_events {resolver : SecretResolver} {workers : Nat}
    (run : Leads settings admission SingleChange (start admission.ingressClass resolver workers) pool)
    (unwanted : ∀ ingress, pool.caches.ingresses.find? key = some ingress →
      ingress.hasClass admission.ingressClass = false)
    (between : pool.announced = []) (unqueued : ingressItem key ∉ pool.work.queue.waiting)
    (clean : ingressItem key ∉ pool.work.queue.dirty) (idle : ingressItem key ∉ pool.work.queue.processing) :
    pool.router.routes.get? key = none := by
  refine ((removes_start admission resolver workers).leads run).unrouted unwanted ?_
  rintro (mem | mem | mem | mem)
  · rw [between] at mem
    exact List.not_mem_nil mem
  · exact unqueued mem
  · exact clean mem
  · exact idle mem

section

open ControlLoop (argoTunnel noSecrets reads_site reads_web siteIngress webService)

/-- A worker on the service has built the route when the ingress is deleted, and gets its turn only after
another worker has removed the route. -/
theorem unwanted_unrouted_overtaken :
    ∃ pool stale, Leads {} argoTunnel SingleChange (start "argo-tunnel" noSecrets 2) pool ∧
      pool.changes.getLast? = some stale ∧
      (∃ route ∈ stale.mutation.brought, route.key = ⟨"shop", "site"⟩) ∧
      pool.router.routes.get? ⟨"shop", "site"⟩ = none := by
  have held := (Relation.ReflTransGen.refl (r := Step {} argoTunnel SingleChange)
    (a := start "argo-tunnel" noSecrets 2))
    |>.tail (.changed .service (.apply (.service webService)) ⟨_, rfl, .inl rfl⟩ _ rfl)
    |>.tail (.queued "service/shop/web" (by decide))
    |>.tail (.took 0 rfl "service/shop/web" _ rfl)
    |>.tail (.changed .ingress (.apply (.ingress siteIngress)) ⟨_, rfl, .inl rfl⟩ _ rfl)
    |>.tail (.queued "ingress/shop/site" (by decide))
    |>.tail (.turned 0 "service/shop/web" rfl _ _
      (.built ⟨.service, ⟨"shop", "web"⟩⟩ (reads_web _) rfl _ _ rfl _ _ rfl))
  have routed := held
    |>.tail (.took 1 rfl "ingress/shop/site" _ rfl)
    |>.tail (.turned 1 "ingress/shop/site" rfl _ _
      (.built ⟨.ingress, ⟨"shop", "site"⟩⟩ (reads_site _) rfl _ _ rfl _ _ rfl))
    |>.tail (.began 1 _ rfl rfl)
    |>.tail (.carried _ (.finish _ rfl))
    |>.tail (.completed 1 _ rfl fun _ => rfl)
    |>.tail (.finished 1 _ rfl)
  have removed := routed
    |>.tail (.changed .ingress (.delete (.ingress siteIngress)) ⟨_, rfl, .inr ⟨rfl, rfl⟩⟩ _ rfl)
    |>.tail (.queued "ingress/shop/site" (by decide))
    |>.tail (.took 1 rfl "ingress/shop/site" _ rfl)
    |>.tail (.turned 1 "ingress/shop/site" rfl _ _
      (.built ⟨.ingress, ⟨"shop", "site"⟩⟩ (reads_site _) rfl _ _ rfl _ _ rfl))
    |>.tail (.began 1 _ rfl rfl)
    |>.tail (.carried _ (.finish _ rfl))
    |>.tail (.completed 1 _ rfl fun _ => rfl)
    |>.tail (.finished 1 _ rfl)
  have overtaken := removed
    |>.tail (.began 0 _ rfl rfl)
    |>.tail (.carried _ (.finish _ rfl))
  refine ⟨_, _, overtaken, rfl, ⟨_, List.mem_singleton_self _, rfl⟩, ?_⟩
  apply unwanted_unrouted overtaken
  · exact fun ingress cached => nomatch (show none = some ingress from cached)
  · rintro (mem | mem | mem | mem) <;> exact absurd mem (by decide)

end

end WorkerPool

end TunnelIngress
