import TunnelIngress.Proofs.Control.LoopRuns
import TunnelIngress.Proofs.Tunnel.ChangeRuns

/-!
# Runs that change the routes

What a key calls for is planned from the caches, and carried out on the routes. In the end the routes
are up to date with the key that was taken.
-/

namespace TunnelIngress

/-- The tunnels of a plan differ in their rules and certificates alone. -/
theorem RoutePlan.ofIngress_uniform {caches : Caches} {resolver : SecretResolver}
    {settings : TunnelSettings} {ingress : Ingress} {plan : RoutePlan}
    (built : RoutePlan.ofIngress caches resolver settings ingress = .ok plan) : plan.Uniform settings := by
  obtain ⟨_, _, links⟩ := RoutePlan.ofIngress_spec built
  exact fun rule spec wanted => ⟨_, ((links rule spec).1 wanted).2⟩

namespace ControlLoop

variable {settings : TunnelSettings} {admission : Admission} {resolver : SecretResolver}
  {loop later : ControlLoop} {work : WorkKey}

/-- The routes have changed as a demand calls for, with the links as they were when the change began. -/
inductive Turned (demand : Demand) (loop later : ControlLoop) : Prop where
  | unchanged (fleet : Fleet) (built : demand.build loop.router.fleet = (fleet, none))
      (routes : later.router.routes = loop.router.routes)
  | changed (fleet : Fleet) (mutation : Mutation)
      (built : demand.build loop.router.fleet = (fleet, some mutation)) (begun : Fleet)
      (before : ∀ id spec, fleet.spec? id = some spec → begun.spec? id = some spec)
      (after : ∀ id spec, begun.spec? id = some spec → later.router.fleet.spec? id = some spec)
      (routes : later.router.routes = (mutation.plan begun loop.router.routes).routes)

theorem Turned.nothing (turned : Turned .nothing loop later) :
    later.router.routes = loop.router.routes := by
  cases turned with
  | unchanged fleet built routes => exact routes
  | changed fleet mutation built begun before after routes => simp [Demand.build] at built

theorem Turned.update {plan : RoutePlan} (turned : Turned (.update plan) loop later)
    (coherent : Routes.Coherent loop.router.routes loop.router.fleet settings)
    (uniform : plan.Uniform settings) :
    Routes.Coherent later.router.routes later.router.fleet settings ∧
      ∃ placed, later.router.routes = Table.insert loop.router.routes plan.key placed ∧
        placed.Realizes later.router.fleet plan := by
  cases turned with
  | unchanged fleet built routes => simp [Demand.build] at built
  | changed fleet mutation built begun before after routes =>
    obtain ⟨fades, realizes⟩ := plan.build_realizes loop.router.fleet
    obtain ⟨rfl, rfl⟩ : fleet = (plan.build loop.router.fleet).1 ∧
        mutation = .update (plan.build loop.router.fleet).2 := by
      simpa [Demand.build, eq_comm] using built
    have known := coherent.mono fun id spec was => before id spec (fades.spec id spec was)
    obtain ⟨as_planned, later_coherent⟩ := Routes.put_realizes known uniform (realizes.mono before)
    rw [routes]
    exact ⟨later_coherent.mono after, _, rfl, as_planned.mono after⟩

theorem Turned.remove {key : ResourceKey} (turned : Turned (.remove key) loop later) :
    later.router.routes = (Routes.removeRoute loop.router.routes key).1 := by
  cases turned with
  | unchanged fleet built routes => simp [Demand.build] at built
  | changed fleet mutation built begun before after routes =>
    obtain rfl : mutation = .remove key := by
      simp only [Demand.build, Prod.mk.injEq, Option.some.injEq] at built
      exact built.2.symm
    exact routes

theorem Turned.refresh {plans : List RoutePlan} (turned : Turned (.refresh plans) loop later)
    (coherent : Routes.Coherent loop.router.routes loop.router.fleet settings)
    (uniform : ∀ plan ∈ plans, plan.Uniform settings) :
    Routes.Coherent later.router.routes later.router.fleet settings ∧
      (∀ key, key ∉ plans.map (·.key) →
        later.router.routes.get? key = loop.router.routes.get? key) ∧
      (∀ key, loop.router.routes.get? key = none → later.router.routes.get? key = none) ∧
      ∀ key route, loop.router.routes.get? key = some route → key ∈ plans.map (·.key) →
        ∃ plan ∈ plans, plan.key = key ∧ ∃ placed, later.router.routes.get? key = some placed ∧
          placed.Realizes later.router.fleet plan := by
  cases turned with
  | unchanged fleet built routes => simp [Demand.build] at built
  | changed fleet mutation built begun before after routes =>
    obtain ⟨fades, realize⟩ := Demand.buildAll_realizes plans loop.router.fleet
    obtain ⟨rfl, rfl⟩ : fleet = (Demand.buildAll plans loop.router.fleet).1 ∧
        mutation = .refresh (Demand.buildAll plans loop.router.fleet).2 := by
      simpa [Demand.build, eq_comm] using built
    have known := coherent.mono fun id spec was => before id spec (fades.spec id spec was)
    obtain ⟨later_coherent, others, none, placed⟩ :=
      Routes.refreshAll_realizes known uniform (realize.imp fun _ _ realizes => realizes.mono before)
    rw [routes]
    refine ⟨later_coherent.mono after, others, none, fun key route hit mem => ?_⟩
    obtain ⟨plan, mem, at_key, placed, there, realizes⟩ := placed key route hit mem
    exact ⟨plan, mem, at_key, placed, there, realizes.mono after⟩

theorem Turned.drop {kind : Kind} {object : ResourceKey} {keys : List ResourceKey}
    (turned : Turned (.drop kind object keys) loop later) (other : kind ≠ .ingress) :
    later.router.routes = (Routes.forEach loop.router.routes keys fun routes key =>
      Routes.dropDependents routes kind object key).1 := by
  cases turned with
  | unchanged fleet built routes => simp [Demand.build] at built
  | changed fleet mutation built begun before after routes =>
    obtain rfl : mutation = .drop kind object keys := by
      simp only [Demand.build, Prod.mk.injEq, Option.some.injEq] at built
      exact built.2.symm
    rw [routes]
    cases kind with
    | ingress => exact absurd rfl other
    | _ => rfl

theorem Tracks.turned_ingress (tracks : loop.Tracks settings admission resolver)
    (run : loop.Run later work) (taken : work.kind = .ingress) {demand : Demand}
    (ok : Demand.ofIngress loop.caches loop.index settings work.key = .ok demand)
    (turned : Turned demand loop later) : later.Tracks settings admission resolver := by
  rcases Demand.ofIngress_cases ok with ⟨ingress, plan, wanted, rfl, built⟩ | ⟨none, rfl⟩
  · obtain ⟨coherent, placed, routes, realizes⟩ :=
      turned.update tracks.coherent (RoutePlan.ofIngress_uniform built)
    have at_key : plan.key = work.key :=
      (RoutePlan.ofIngress_spec built).1.trans (tracks.keyOf_wanted wanted)
    rw [at_key] at routes
    refine tracks.ran_ingress run taken coherent (fun key ne => ?_) (fun other same => ?_) fun none => ?_
    · rw [routes, Table.get?_insert, if_neg ne]
    · obtain rfl := Option.some.inj (wanted.symm.trans same)
      refine ⟨placed, by rw [routes, Table.get?_insert, if_pos rfl], .of_realizes ?_ realizes⟩
      rw [run.caches, run.resolver]
      exact built
    · cases none.symm.trans wanted
  · have routes := turned.remove
    refine tracks.ran_ingress run taken ?_ (fun key ne => ?_) (fun other same => ?_) fun _ => ?_
    · rw [routes]
      exact (tracks.coherent.mono run.specs).removeRoute work.key
    · rw [routes, Routes.get?_removeRoute, if_neg ne]
    · cases none.symm.trans same
    · rw [routes, Routes.get?_removeRoute, if_pos rfl]

theorem Tracks.turned_dependency (tracks : loop.Tracks settings admission resolver)
    (run : loop.Run later work) (taken : work.kind ≠ .ingress) {demand : Demand}
    (ok : Demand.ofDependency loop.caches (loop.index.lookup work.kind work.key).1 settings work.kind
      work.key (loop.index.lookup work.kind work.key).2 = .ok demand)
    (turned : Turned demand loop later) : later.Tracks settings admission resolver := by
  rcases Demand.ofDependency_cases ok with ⟨none, rfl⟩ | ⟨plans, _, planned, rfl⟩ | ⟨absent, rfl⟩
  · have routes := turned.nothing
    refine tracks.ran_dependency run taken ?_ (fun key _ => by rw [routes]) ?_
      fun key none => by rw [routes, none]
    · rw [routes]
      exact tracks.coherent.mono run.specs
    · intro key ingress route mem
      rw [none] at mem
      cases mem
  · obtain ⟨sound, complete⟩ := Demand.mem_plans planned
    obtain ⟨coherent, others, gone, placed⟩ := turned.refresh tracks.coherent fun plan mem => by
      obtain ⟨_, _, _, _, built⟩ := sound plan mem
      exact RoutePlan.ofIngress_uniform built
    have wanted_iff (key : ResourceKey) : Demand.wanted loop.caches
        (loop.index.lookup work.kind work.key).1 key = loop.wanted key := by
      unfold ControlLoop.wanted Demand.wanted
      rw [IngressIndex.lookup_className]
    -- A plan stands under the key of its ingress, which is one of those that depend on the object.
    have source {plan : RoutePlan} (mem : plan ∈ plans) :
        plan.key ∈ (loop.index.lookup work.kind work.key).2 ∧
          ∃ ingress, loop.wanted plan.key = some ingress ∧
            RoutePlan.ofIngress later.caches later.index.resolver settings ingress = .ok plan := by
      obtain ⟨key, listed, ingress, wanted, built⟩ := sound plan mem
      rw [wanted_iff] at wanted
      obtain rfl : plan.key = key :=
        (RoutePlan.ofIngress_spec built).1.trans (tracks.keyOf_wanted wanted)
      rw [IngressIndex.lookup_resolver] at built
      rw [run.caches, run.resolver]
      exact ⟨listed, ingress, wanted, built⟩
    refine tracks.ran_dependency run taken coherent (fun key unlisted => ?_) ?_ gone
    · refine others key fun planned => unlisted ?_
      obtain ⟨plan, mem, rfl⟩ := List.mem_map.1 planned
      exact (source mem).1
    · intro key ingress route listed wanted hit _
      have planned : key ∈ plans.map (·.key) := by
        obtain ⟨plan, mem, built⟩ := complete key listed ingress ((wanted_iff key).trans wanted)
        refine List.mem_map.2 ⟨plan, mem, ?_⟩
        exact (RoutePlan.ofIngress_spec built).1.trans (tracks.keyOf_wanted wanted)
      obtain ⟨plan, mem, rfl, placed, there, realizes⟩ := placed key route hit planned
      obtain ⟨_, other, same, built⟩ := source mem
      obtain rfl := Option.some.inj (same.symm.trans wanted)
      exact ⟨placed, there, .of_realizes built realizes⟩
  · have routes := turned.drop taken
    refine tracks.ran_dependency run taken ?_ (fun key unlisted => ?_) ?_ fun key none => ?_
    · rw [routes]
      exact (tracks.coherent.mono run.specs).dropAll _ _ _
    · rw [routes, Routes.get?_dropAll, if_neg unlisted]
    · intro key ingress route listed wanted hit upToDate
      refine ⟨route.without work.kind work.key, ?_, upToDate.without run taken absent⟩
      rw [routes, Routes.get?_dropAll, if_pos listed, hit]
      rfl
    · rw [routes, Routes.get?_dropAll, none]
      simp

/-! ### A worker run -/

theorem Tracks.run (tracks : loop.Tracks settings admission resolver) {taken : WorkQueue}
    (took : loop.queue.take = (taken, .item work.text)) (plain : work.key.Plain) {demand : Demand}
    {index : IngressIndex}
    (found : Demand.ofKey loop.caches loop.index settings work.kind work.key = (index, .ok demand))
    {router : RouterSession} (idle : router.pending = none)
    (specs : ∀ id spec, loop.router.fleet.spec? id = some spec → router.fleet.spec? id = some spec) :
    loop.Run { loop with index, router, queue := (taken.finish work.text).1 } work := by
  obtain ⟨rest, waiting⟩ := tracks.queue.run took
  have indexed : index = (loop.index.lookup work.kind work.key).1 := by
    rw [← show (Demand.ofKey _ _ settings _ _).1 = index from congrArg Prod.fst found]
    cases work.kind <;> rfl
  subst indexed
  exact ⟨rfl, loop.index.lookup_className _, loop.index.lookup_resolver _,
    fun _ covers => covers.lookup _, rest, waiting, plain, rfl, idle, specs⟩

theorem Tracks.turned (tracks : loop.Tracks settings admission resolver) (run : loop.Run later work)
    {demand : Demand} {index : IngressIndex}
    (found : Demand.ofKey loop.caches loop.index settings work.kind work.key = (index, .ok demand))
    (turned : Turned demand loop later) : later.Tracks settings admission resolver := by
  by_cases taken : work.kind = .ingress
  · rw [taken] at found
    exact tracks.turned_ingress run taken (congrArg Prod.snd found) turned
  · rw [Demand.ofKey_dependency _ _ _ _ taken] at found
    exact tracks.turned_dependency run taken (congrArg Prod.snd found) turned

theorem Tracks.worked (tracks : loop.Tracks settings admission resolver) {item : String}
    {taken : WorkQueue} (took : loop.queue.take = (taken, .item item)) {done : ControlLoop}
    (handles : Handles settings item { loop with queue := taken } done) :
    { done with queue := (done.queue.finish item).1 }.Tracks settings admission resolver := by
  obtain ⟨work, plain, rfl⟩ := tracks.plain item (by
    rw [(tracks.queue.run took).2]
    exact List.mem_cons_self)
  have reads := WorkKey.read_text plain
  cases handles with
  | malformed error read => cases reads.symm.trans read
  | refused other read bare =>
    obtain rfl := Except.ok.inj (reads.symm.trans read)
    rw [plain.hasNamespace] at bare
    cases bare
  | unconcerned other read placed index demand found fleet built =>
    obtain rfl := Except.ok.inj (reads.symm.trans read)
    have fades := demand.build_fades loop.router.fleet
    rw [show demand.build loop.router.fleet = _ from built] at fades
    let router : RouterSession := { loop.router with fleet }
    have run := tracks.run took plain found (show router.pending = none from tracks.idle) fades.spec
    exact tracks.turned run found (.unchanged fleet built rfl)
  | changed other read placed index demand found fleet mutation built waiting waits router carries
      complete =>
    obtain rfl := Except.ok.inj (reads.symm.trans read)
    have fades := demand.build_fades loop.router.fleet
    rw [show demand.build loop.router.fleet = _ from built] at fades
    have last := Demand.build_last found built waiting.fleet loop.router.routes
    have idle : { loop.router with fleet }.pending = none := tracks.idle
    obtain ⟨routes, before, after⟩ := RouterSession.carried idle waits carries last
    have run := tracks.run took plain found complete fun id spec was =>
      after id spec (before id spec (fades.spec id spec was))
    exact tracks.turned run found (.changed fleet mutation built waiting.fleet before after routes)

/-- Daemons between two worker runs change no route and no tunnel. -/
theorem Tracks.daemons (tracks : loop.Tracks settings admission resolver) {router : RouterSession}
    (goes : loop.router.Goes router) : { loop with router }.Tracks settings admission resolver := by
  obtain ⟨idle, routes⟩ := RouterSession.carries_idle (.single goes) tracks.idle
  have specs (id : LinkId) (spec : LinkSpec) (was : loop.router.fleet.spec? id = some spec) :
      router.fleet.spec? id = some spec := RouterSession.goes_spec goes was
  have keeps (ingress : Ingress) : loop.Keeps { loop with router } ingress :=
    { resolver := rfl
      specs
      serviceWaits := fun _ _ _ waits => waits
      secretWaits := fun _ _ _ _ _ waits => waits
      serves := fun _ _ _ => .inl fun _ _ => .rfl
      certificate := fun _ _ _ _ _ => .inl rfl }
  exact
    { tracks with
      idle
      coherent := by
        rw [routes]
        exact tracks.coherent.mono specs
      routed := fun key ingress wanted still => by
        obtain ⟨route, hit, upToDate⟩ := tracks.routed key ingress wanted still
        exact ⟨route, by rw [routes]; exact hit, upToDate.keep (keeps ingress)⟩
      unrouted := fun key none still => by
        rw [routes]
        exact tracks.unrouted key none still }

end ControlLoop

end TunnelIngress
