import TunnelIngress.Proofs.Control.WorkerPool
import TunnelIngress.Proofs.Ingress.IndexPostings
import TunnelIngress.Proofs.Ingress.WatchedIngresses
import TunnelIngress.Proofs.Tunnel.ChangeRuns
import TunnelIngress.Proofs.Tunnel.NewLinks

/-!
# The links of the changes in hand

Workers that build changes side by side make links of their own for them. So each change, when it begins
at last, brings new links, and the links of the routes stay in order.
-/

namespace TunnelIngress

/-! ### The places of what is brought -/

namespace Demand

variable {caches : Caches} {index : IngressIndex} {settings : TunnelSettings} {kind : Kind}
  {key : ResourceKey} {demand : Demand}

theorem keys_of_mapM {resolver : SecretResolver} {ingresses : List Ingress} {plans : List RoutePlan}
    (ok : ingresses.mapM (RoutePlan.ofIngress caches resolver settings) = .ok plans) :
    plans.map (·.key) = ingresses.map keyOf := by
  induction ingresses generalizing plans with
  | nil =>
    cases ok
    rfl
  | cons ingress rest ih =>
    rw [List.mapM_cons] at ok
    cases first : RoutePlan.ofIngress caches resolver settings ingress with
    | error fault => simp [first, bind, Except.bind] at ok
    | ok plan =>
      cases others : rest.mapM (RoutePlan.ofIngress caches resolver settings) with
      | error fault => simp [first, others, bind, Except.bind] at ok
      | ok more =>
        simp only [first, others, bind, Except.bind, pure, Except.pure, Except.ok.injEq] at ok
        rw [← ok, List.map_cons, List.map_cons, ih others, (RoutePlan.ofIngress_spec first).1]

/-- Each ingress is planned at most once. -/
theorem nodup_plans (placed : Watch.Placed caches.ingresses.entries) {keys : List ResourceKey}
    (nodup : keys.Nodup) {found : List RoutePlan} (ok : plans caches index settings keys = .ok found) :
    (found.map (·.key)).Nodup := by
  rw [plans_eq] at ok
  rw [keys_of_mapM ok]
  refine nodup.sublist ?_
  clear ok nodup
  induction keys with
  | nil => exact .slnil
  | cons key rest ih =>
    cases hit : wanted caches index key with
    | none =>
      rw [List.filterMap_cons_none hit]
      exact ih.cons key
    | some ingress =>
      have watched : Watch.Placed (Watch.mk caches.ingresses []).cache.entries := placed
      have own := Watch.keyOf_of_found watched (Option.filter_eq_some_iff.1 hit).1
      rw [List.filterMap_cons_some hit, List.map_cons, own]
      exact ih.cons_cons key

theorem ofKey_listed (settings : TunnelSettings) (listed : index.Listed) (caches : Caches) (kind : Kind)
    (key : ResourceKey) : (ofKey caches index settings kind key).1.Listed := by
  by_cases ingress : kind = .ingress
  · subst ingress
    exact listed
  · rw [ofKey_dependency _ _ _ _ ingress]
    exact (listed.lookup kind key).1

theorem nodup_brought (placed : Watch.Placed caches.ingresses.entries) (listed : index.Listed)
    {later : IngressIndex} (found : ofKey caches index settings kind key = (later, .ok demand))
    {fleet fleet' : Fleet} {mutation : Mutation} (built : demand.build fleet = (fleet', some mutation)) :
    (mutation.brought.map (·.key)).Nodup := by
  cases demand with
  | nothing => cases built
  | update plan =>
    cases built
    exact List.nodup_singleton _
  | refresh plans =>
    cases built
    change ((buildAll plans fleet).2.map (·.key)).Nodup
    rw [(values_buildAll plans fleet).2.2]
    have dependency : kind ≠ .ingress := by
      rintro rfl
      rcases ofIngress_cases (congrArg Prod.snd found) with ⟨_, _, _, other, _⟩ | ⟨_, other⟩
      · cases other
      · cases other
    rw [ofKey_dependency _ _ _ _ dependency] at found
    rcases ofDependency_cases (congrArg Prod.snd found) with
      ⟨_, other⟩ | ⟨found, _, ok, same⟩ | ⟨_, other⟩
    · cases other
    · cases same
      exact nodup_plans placed (listed.lookup kind key).2 ok
    · cases other
  | remove key =>
    cases built
    exact List.nodup_nil
  | drop kind object keys =>
    cases built
    exact List.nodup_nil

end Demand

/-! ### Changes that stay fresh -/

namespace RouterSession

variable {session later : RouterSession} {mutation other : Mutation}

theorem goes_handed (goes : Goes session later) :
    later.handed = session.handed ∧ session.fleet.links.length ≤ later.fleet.links.length := by
  cases goes with
  | build spec => exact ⟨rfl, (session.fleet.fades_add spec).size⟩
  | act id link later found acts => exact ⟨rfl, (Fleet.fades_put found acts.fades).size⟩
  | stop id pending next => exact ⟨rfl, (session.fleet.beginStop_spec id).2.size⟩
  | stopped id index pending before after next ended => exact ⟨rfl, (session.fleet.fades_endStop id).size⟩
  | start id start removals next => exact ⟨rfl, session.fleet.size_start id⟩
  | remove key removals next => exact ⟨rfl, Nat.le_refl _⟩
  | finish next => exact ⟨rfl, Nat.le_refl _⟩

theorem carries_handed (carries : Carries session later) :
    later.handed = session.handed ∧ session.fleet.links.length ≤ later.fleet.links.length := by
  induction carries with
  | refl => exact ⟨rfl, Nat.le_refl _⟩
  | tail _ goes ih =>
    obtain ⟨same, grown⟩ := goes_handed goes
    exact ⟨same.trans ih.1, Nat.le_trans ih.2 grown⟩

theorem Fresh.mono (fresh : session.Fresh mutation) (handed : later.handed = session.handed)
    (grown : session.fleet.links.length ≤ later.fleet.links.length) : later.Fresh mutation where
  keys := fresh.keys
  links := fresh.links
  known id mem := Nat.lt_of_lt_of_le (fresh.known id mem) grown
  new id mem := handed ▸ fresh.new id mem

/-- A change stays fresh when another begins that has no link in common with it. -/
theorem Fresh.begin (fresh : session.Fresh other)
    (apart : ∀ id ∈ other.brought.flatMap (·.links.values),
      id ∉ mutation.brought.flatMap (·.links.values)) :
    (session.begin mutation).Fresh other where
  keys := fresh.keys
  links := fresh.links
  known := fresh.known
  new id mem handed := (List.mem_append.1 handed).elim (fresh.new id mem) (apart id mem)

/-- A change that brings the links that were made last is fresh, as none of them was there before. -/
theorem Sound.fresh (sound : session.Sound) {fleet : Fleet} (grown : session.fleet.Fades fleet)
    (keys : (mutation.brought.map (·.key)).Nodup)
    (links : mutation.brought.flatMap (·.links.values) = fleet.since session.fleet.links.length ∨
      mutation.brought.flatMap (·.links.values) = []) :
    { session with fleet }.Fresh mutation := by
  rcases links with made | none
  · refine ⟨keys, ?_, fun id mem => ?_, fun id mem handed => ?_⟩
    · rw [made]
      exact List.nodup_range'
    · rw [made, Fleet.mem_since grown.size] at mem
      exact mem.2
    · rw [made, Fleet.mem_since grown.size] at mem
      exact Nat.not_lt_of_le mem.1 (sound.known id handed)
  · exact ⟨keys, none ▸ List.nodup_nil, by simp [none], by simp [none]⟩

end RouterSession

namespace WorkerPool

/-- The links that a change in hand is going to bring. -/
def linksOf (draft : Draft) : List LinkId :=
  draft.mutation.brought.flatMap (·.links.values)

/-- The routes, the cached ingresses and the index are in order, and each change in hand can begin. -/
structure Linked (pool : WorkerPool) : Prop where
  router : pool.router.Sound
  listed : pool.index.Listed
  cached : Watch.Placed pool.watches.ingresses.cache.entries
  buffered : Watch.Placed pool.watches.ingresses.cache.buffer
  fresh : ∀ worker draft, pool.errands worker = .built draft → pool.router.Fresh draft.mutation
  apart : ∀ first second draft draft', pool.errands first = .built draft →
    pool.errands second = .built draft' → first ≠ second → ∀ id ∈ linksOf draft, id ∉ linksOf draft'

variable {settings : TunnelSettings} {admission : Admission}
  {allowed : WorkerPool → Kind → WatchEvent AnyObject → Prop} {pool later : WorkerPool} {worker : Nat}
  {item : String} {errand : Errand}

/-- The links of a change are made when it is built. -/
theorem Turn.links (turn : Turn settings pool item later errand) (linked : pool.Linked) :
    ∃ fleet, later.router = { pool.router with fleet } ∧ pool.router.fleet.Fades fleet ∧
      later.index.Listed ∧ ∀ draft, errand = .built draft →
        (draft.mutation.brought.map (·.key)).Nodup ∧
          (linksOf draft = fleet.since pool.router.fleet.links.length ∨ linksOf draft = []) := by
  have counted {key : WorkKey} {index : IngressIndex} {result : Except Phrase.Fault Demand}
      (found : Demand.ofKey pool.caches pool.index settings key.kind key.key = (index, result)) :
      index.Listed := by
    have same := Demand.ofKey_listed settings linked.listed pool.caches key.kind key.key
    rwa [found] at same
  cases turn with
  | malformed error read => exact ⟨_, rfl, .refl _, linked.listed, fun _ ready => nomatch ready⟩
  | refused key read bare => exact ⟨_, rfl, .refl _, linked.listed, fun _ ready => nomatch ready⟩
  | retried key read bare delay work step =>
    exact ⟨_, rfl, .refl _, linked.listed, fun _ ready => nomatch ready⟩
  | died key read placed index fault found =>
    exact ⟨_, rfl, .refl _, counted found, fun _ ready => nomatch ready⟩
  | unconcerned key read placed index demand found fleet built =>
    refine ⟨fleet, rfl, ?_, counted found, fun _ ready => nomatch ready⟩
    have fades := demand.build_fades pool.router.fleet
    rwa [built] at fades
  | built key read placed index demand found fleet mutation built =>
    refine ⟨fleet, rfl, ?_, counted found, ?_⟩
    · have fades := demand.build_fades pool.router.fleet
      rwa [built] at fades
    · rintro draft ⟨⟩
      exact ⟨Demand.nodup_brought linked.cached linked.listed found built, (Demand.values_build built).2⟩

/-- What somebody else does leaves the changes in hand fresh, if it hands in no link. -/
theorem Linked.put (linked : pool.Linked) (none : ∀ draft, errand ≠ .built draft) :
    (pool.put worker errand).Linked where
  router := linked.router
  listed := linked.listed
  cached := linked.cached
  buffered := linked.buffered
  fresh found draft ready := by
    rw [errands_put] at ready
    split at ready
    · exact absurd ready (none draft)
    · exact linked.fresh found draft ready
  apart first second draft draft' ready ready' := by
    rw [errands_put] at ready ready'
    split at ready
    · exact absurd ready (none draft)
    · split at ready'
      · exact absurd ready' (none draft')
      · exact linked.apart first second draft draft' ready ready'

theorem Linked.turned (linked : pool.Linked) (turn : Turn settings pool item later errand) :
    (later.put worker errand).Linked := by
  have keeps := turn.keeps
  obtain ⟨fleet, router, grown, listed, brings⟩ := turn.links linked
  have fresh (found : Nat) (draft : Draft) (ready : pool.errands found = .built draft) :
      later.router.Fresh draft.mutation :=
    router ▸ (linked.fresh found draft ready).mono rfl grown.size
  -- The new links have higher numbers than all that were known.
  have new (draft : Draft) (ready : errand = .built draft) (id : LinkId) (mem : id ∈ linksOf draft) :
      pool.router.fleet.links.length ≤ id := by
    rcases (brings draft ready).2 with made | none
    · rw [made, Fleet.mem_since grown.size] at mem
      exact mem.1
    · rw [none] at mem
      cases mem
  refine ⟨?_, listed, keeps.watches ▸ linked.cached, keeps.watches ▸ linked.buffered, ?_, ?_⟩
  · change later.router.Sound
    rw [router]
    exact linked.router.fades grown
  · intro found draft ready
    change later.router.Fresh draft.mutation
    rw [errands_put, keeps.errands] at ready
    split at ready
    · obtain ⟨keys, links⟩ := brings draft ready
      exact router ▸ linked.router.fresh grown keys links
    · exact fresh found draft ready
  · intro first second draft draft' ready ready' ne id mem mem'
    rw [errands_put, keeps.errands] at ready ready'
    split at ready
    · split at ready'
      · rename_i here here'
        exact ne (here.trans here'.symm)
      · have old := (linked.fresh second draft' ready').known id mem'
        exact Nat.not_lt_of_le (new draft ready id mem) old
    · split at ready'
      · have old := (linked.fresh first draft ready).known id mem
        exact Nat.not_lt_of_le (new draft' ready' id mem') old
      · exact linked.apart first second draft draft' ready ready' ne id mem mem'

theorem Linked.began (linked : pool.Linked) {draft : Draft} (ready : pool.errands worker = .built draft)
    (free : pool.router.pending = none) :
    ((pool.begin worker draft).put worker (.changing draft.item)).Linked := by
  refine ⟨linked.router.begin free (linked.fresh worker draft ready), linked.listed, linked.cached,
    linked.buffered, ?_, ?_⟩
  · intro found other works
    rw [errands_put] at works
    split at works
    · cases works
    · rename_i ne
      exact (linked.fresh found other works).begin (linked.apart found worker other draft works ready ne)
  · intro first second other other' works works'
    rw [errands_put] at works works'
    split at works
    · cases works
    · split at works'
      · cases works'
      · exact linked.apart first second other other' works works'

theorem Linked.absorb (linked : pool.Linked) {kind : Kind} {event : WatchEvent AnyObject}
    {outcome : Watches.Outcome}
    (handled : pool.watches.handle admission pool.index kind event = some outcome)
    (named : ∀ object ∈ event.object?, object.metadata.ns.isSome) : (pool.absorb outcome).Linked := by
  rcases Watches.ingress_or_other handled with ⟨same, index⟩ | ⟨own, single, rfl, rfl, acted, rfl⟩
  · have listed : outcome.index.Listed := index ▸ linked.listed
    have cached : Watch.Placed outcome.watches.ingresses.cache.entries := same ▸ linked.cached
    have buffered : Watch.Placed outcome.watches.ingresses.cache.buffer := same ▸ linked.buffered
    exact ⟨linked.router, listed, cached, buffered, linked.fresh, linked.apart⟩
  · have listed := Watch.handle_index (·.Listed) (fun object _ listed => listed.upsert object)
      (fun object _ listed => listed.remove (keyOf object)) acted linked.listed
    have own_named (object : Ingress) (mem : object ∈ own.object?) :
        (KubernetesObject.metadata object).ns.isSome :=
      named (.ingress object) (WatchEvent.object?_map AnyObject.ingress own ▸ Option.mem_map_of_mem _ mem)
    obtain ⟨cached, buffered⟩ := Watch.handle_placed linked.cached linked.buffered own_named acted
    exact ⟨linked.router, listed, cached, buffered, linked.fresh, linked.apart⟩

theorem Linked.step (linked : pool.Linked) (step : Step settings admission allowed pool later)
    (named : ∀ kind event, allowed pool kind event →
      ∀ object ∈ event.object?, object.metadata.ns.isSome) : later.Linked := by
  cases step with
  | changed kind event may outcome handled => exact linked.absorb handled (named kind event may)
  | queued item next =>
    exact ⟨linked.router, linked.listed, linked.cached, linked.buffered, linked.fresh, linked.apart⟩
  | due item work step =>
    exact ⟨linked.router, linked.listed, linked.cached, linked.buffered, linked.fresh, linked.apart⟩
  | took worker idle item taken answer =>
    have same : { pool with work := pool.work.take worker }.Linked :=
      ⟨linked.router, linked.listed, linked.cached, linked.buffered, linked.fresh, linked.apart⟩
    exact same.put fun draft ready => nomatch ready
  | left worker idle closed => exact linked.put fun draft ready => nomatch ready
  | turned worker item busy later errand turn => exact linked.turned turn
  | began worker draft ready free => exact linked.began ready free
  | carried router goes =>
    obtain ⟨handed, grown⟩ := RouterSession.goes_handed goes
    exact ⟨linked.router.goes goes, linked.listed, linked.cached, linked.buffered,
      fun found draft ready => (linked.fresh found draft ready).mono handed grown, linked.apart⟩
  | completed worker item busy done => exact linked.put fun draft ready => nomatch ready
  | finished worker item done =>
    have same : { pool with work := pool.work.finish worker item }.Linked :=
      ⟨linked.router, linked.listed, linked.cached, linked.buffered, linked.fresh, linked.apart⟩
    exact same.put fun draft ready => nomatch ready

theorem linked_start (className : String) (resolver : SecretResolver) (workers : Nat) :
    (start className resolver workers).Linked where
  router := RouterSession.sound_new
  listed := IngressIndex.listed_new className resolver
  cached := Watch.placed_empty
  buffered := Watch.placed_empty
  fresh worker draft ready := absurd ready (unbuilt_start worker draft)
  apart first _ draft _ ready := absurd ready (unbuilt_start first draft)

end WorkerPool

end TunnelIngress
