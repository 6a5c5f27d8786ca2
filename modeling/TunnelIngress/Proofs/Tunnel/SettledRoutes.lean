import TunnelIngress.Proofs.Control.LoopTurns
import TunnelIngress.Proofs.Tunnel.NewLinks
import TunnelIngress.Proofs.Tunnel.RouteReplacement

/-!
# Changes that are in place already

A change that is made again, with links of its own that equal the first ones, finds everything in place:
the routes stay as they are, with the links they have, and only links that do not run are started.
-/

namespace TunnelIngress

namespace Table

variable {κ α : Type} [DecidableEq κ] {table other : Table κ α} {key : κ} {value : α}

/-- Tables with the same keys in the same order are equal when their lookups are. -/
theorem ext_of_keys (keys : table.keys = other.keys)
    (same : ∀ key ∈ table.keys, table.get? key = other.get? key) :
    table = other := by
  obtain ⟨entries, nodup⟩ := table
  obtain ⟨entries', nodup'⟩ := other
  suffices equal : entries = entries' by
    subst equal
    rfl
  refine List.ext_getElem (by simpa [Table.keys] using congrArg List.length keys) fun i here there => ?_
  have key : (entries[i]).1 = (entries'[i]).1 := by
    have at_place := congrArg (·[i]?) keys
    simpa [Table.keys, here, there] using at_place
  have value := same (entries[i]).1 (List.mem_map_of_mem (List.getElem_mem here))
  rw [get?_eq_some_iff.2 (List.getElem_mem here), key, get?_eq_some_iff.2 (List.getElem_mem there)] at value
  exact Prod.ext key (Option.some.inj value)

theorem keys_insert_of_mem (mem : key ∈ table.keys) : (table.insert key value).keys = table.keys := by
  have known : table.contains key = true := contains_iff.2 (mem_keys_iff.1 mem)
  simp only [insert, known, dif_pos, keys]
  exact map_fst_replace table.entries key value

/-- An entry that is there already changes nothing. -/
theorem insert_of_get? (there : table.get? key = some value) : table.insert key value = table := by
  have mem : key ∈ table.keys := mem_keys_iff.2 ⟨value, there⟩
  refine ext_of_keys (keys_insert_of_mem mem) fun found _ => ?_
  rw [get?_insert]
  split
  · rename_i same
    exact (same ▸ there).symm
  · rfl

end Table

theorem Table.keys_insert_new {κ α : Type} [DecidableEq κ] {table : Table κ α} {key : κ}
    (absent : key ∉ table.keys)
    (value : α) : (table.insert key value).keys = table.keys ++ [key] := by
  have new : ¬table.contains key = true := fun known =>
    absent (Table.mem_keys_iff.2 (Table.contains_iff.1 known))
  simp [Table.insert, new, Table.keys]

/-- Tunnels of one specification are the same. -/
theorem Fleet.same_of_spec? {fleet : Fleet} {a b : LinkId} {spec : LinkSpec}
    (first : fleet.spec? a = some spec)
    (second : fleet.spec? b = some spec) : fleet.same a b = true := by
  unfold Fleet.spec? at first second
  obtain ⟨link, found, rfl⟩ := Option.map_eq_some_iff.1 first
  obtain ⟨link', found', equal⟩ := Option.map_eq_some_iff.1 second
  simp [Fleet.same, found, found', LinkSpec.same, equal]

theorem Route.ext {route other : Route} (key : route.key = other.key)
    (options : route.options = other.options)
    (links : route.links = other.links) : route = other := by
  cases route
  cases other
  congr

/-- A route is as planned, with its rules in the order of the plan. -/
structure Route.Settled (route : Route) (fleet : Fleet) (plan : RoutePlan) : Prop where
  realizes : route.Realizes fleet plan
  order : route.links.keys = plan.links.keys

namespace RoutePlan

theorem keys_buildAll {entries : List (Rule × LinkSpec)} (built : Fleet × Table Rule LinkId)
    (new : (built.2.keys ++ entries.map (·.1)).Nodup) :
    (buildAll built entries).2.keys = built.2.keys ++ entries.map (·.1) := by
  induction entries generalizing built with
  | nil => exact (List.append_nil _).symm
  | cons entry rest ih =>
    let next := built.1.add entry.2
    have absent : entry.1 ∉ built.2.keys := fun mem =>
      (List.nodup_append.1 new).2.2 entry.1 mem entry.1 List.mem_cons_self rfl
    have keys : (built.2.insert entry.1 next.2).keys = built.2.keys ++ [entry.1] :=
      Table.keys_insert_new absent _
    have rest := ih (next.1, built.2.insert entry.1 next.2) (by simpa [keys] using new)
    rw [List.map_cons, List.append_cons, ← keys]
    exact rest

theorem build_settled (plan : RoutePlan) (fleet : Fleet) :
    (plan.build fleet).2.Settled (plan.build fleet).1 plan := by
  refine ⟨(plan.build_realizes fleet).2, ?_⟩
  rw [build_eq]
  exact keys_buildAll (fleet, ∅) plan.links.nodup

end RoutePlan

namespace Changeover

variable {fleet : Fleet} {old : Table Rule LinkId} {new : Route}

theorem settle_same {id fresh : LinkId} (equal : fleet.same id fresh = true) :
    settle fleet (some id) fresh = (id, ⟨[], if fleet.isStarted id then [] else [id]⟩) := by
  simp [settle, equal]

theorem keys_settleAll {entries : List (Rule × LinkId)} (done : Table Rule LinkId × Changeover)
    (known : ∀ entry ∈ entries, entry.1 ∈ done.1.keys) :
    (settleAll fleet old done entries).1.keys = done.1.keys := by
  induction entries generalizing done with
  | nil => rfl
  | cons entry rest ih =>
    have keys : (done.1.insert entry.1 (settle fleet (old.get? entry.1) entry.2).1).keys = done.1.keys :=
      Table.keys_insert_of_mem (known entry List.mem_cons_self)
    refine (ih _ fun other mem => ?_).trans keys
    exact keys.symm ▸ known other (List.mem_cons_of_mem _ mem)

/-- A replaced route has the rules of the new one in their order. -/
theorem keys_replace (fleet : Fleet) (old : Table Rule LinkId) (new : Route) :
    (replace fleet old new).1.links.keys = new.links.keys := by
  rw [replace_eq]
  exact keys_settleAll (new.links, none) fun entry mem => List.mem_map_of_mem mem

end Changeover

namespace Route

variable {placed new : Route} {fleet later : Fleet} {plan : RoutePlan}

theorem Settled.mono (settled : placed.Settled fleet plan)
    (kept : ∀ id spec, fleet.spec? id = some spec → later.spec? id = some spec) :
    placed.Settled later plan :=
  ⟨settled.realizes.mono kept, settled.order⟩

/-- Two routes of one plan have the same links, but for the links' numbers. -/
theorem Settled.same (settled : placed.Settled fleet plan) (again : new.Settled fleet plan) (rule : Rule) :
    placed.links.get? rule = none ∧ new.links.get? rule = none ∨
      ∃ id fresh, placed.links.get? rule = some id ∧ new.links.get? rule = some fresh ∧
        fleet.same id fresh = true := by
  cases here : placed.links.get? rule with
  | none =>
    exact .inl ⟨rfl, again.realizes.none_iff.2 (settled.realizes.none_iff.1 here)⟩
  | some id =>
    obtain ⟨spec, wanted, known⟩ := settled.realizes.spec? here
    cases there : new.links.get? rule with
    | none => cases (again.realizes.none_iff.1 there).symm.trans wanted
    | some fresh =>
      obtain ⟨spec', wanted', known'⟩ := again.realizes.spec? there
      cases wanted.symm.trans wanted'
      exact .inr ⟨id, fresh, rfl, rfl, Fleet.same_of_spec? known known'⟩

/-- A route that is replaced by one of the same plan keeps all its links. -/
theorem Settled.replace (settled : placed.Settled fleet plan) (again : new.Settled fleet plan) :
    (Changeover.replace fleet placed.links new).1 = placed ∧
      (Changeover.replace fleet placed.links new).2.stop = [] ∧
      ∀ id ∈ (Changeover.replace fleet placed.links new).2.start,
        (∃ rule, placed.links.get? rule = some id) ∧ fleet.isStarted id = false := by
  have same := settled.same again
  refine ⟨?_, ?_, ?_⟩
  · have links : (Changeover.replace fleet placed.links new).1.links = placed.links := by
      refine Table.ext_of_keys ?_ fun rule _ => ?_
      · rw [Changeover.keys_replace, again.order, settled.order]
      · rw [Changeover.replace_links]
        rcases same rule with ⟨none, lacks⟩ | ⟨id, fresh, had, brings, equal⟩
        · rw [none, lacks]
          rfl
        · rw [had, brings, Option.map_some, Changeover.settle_same equal]
    have key : new.key = placed.key := again.realizes.key.trans settled.realizes.key.symm
    have options : new.options = placed.options :=
      again.realizes.options.trans settled.realizes.options.symm
    exact Route.ext key options links
  · refine List.eq_nil_iff_forall_not_mem.2 fun id stop => ?_
    rcases Changeover.mem_stop_iff.1 stop with ⟨rule, had, lacks⟩ | ⟨rule, fresh, had, brings, differ⟩
    · rcases same rule with ⟨none, _⟩ | ⟨_, _, _, brings, _⟩
      · cases none.symm.trans had
      · cases lacks.symm.trans brings
    · rcases same rule with ⟨none, _⟩ | ⟨_, _, had', brings', equal⟩
      · cases none.symm.trans had
      · cases had.symm.trans had'
        cases brings.symm.trans brings'
        cases differ.symm.trans equal
  · intro id start
    obtain ⟨rule, fresh, brings, start⟩ := Changeover.mem_replace_start.1 start
    rcases same rule with ⟨_, lacks⟩ | ⟨kept, fresh', had, brings', equal⟩
    · cases lacks.symm.trans brings
    · cases brings.symm.trans brings'
      rw [had, Changeover.settle_same equal] at start
      by_cases started : fleet.isStarted kept = true
      · simp [started] at start
      · obtain rfl : id = kept := by simpa [started] using start
        exact ⟨⟨rule, had⟩, Bool.eq_false_iff.2 started⟩

end Route

namespace Routes

/-- A change that leaves the routes as they are, stops no link, and starts only links of some routes that do
not run. -/
structure Still (fleet : Fleet) (keys : List ResourceKey) (before after : Routes)
    (changes : Changeover) : Prop where
  routes : after = before
  stop : changes.stop = []
  start : ∀ id ∈ changes.start, (∃ key ∈ keys, ∃ rule, Holds before key rule id) ∧
    fleet.isStarted id = false

variable {routes : Routes} {fleet : Fleet} {keys : List ResourceKey} {placed new : Route} {plan : RoutePlan}

theorem Still.refl (fleet : Fleet) (keys : List ResourceKey) (routes : Routes) :
    Still fleet keys routes routes .none :=
  ⟨rfl, rfl, fun _ mem => nomatch mem⟩

theorem put_still (hit : routes.get? plan.key = some placed) (settled : placed.Settled fleet plan)
    (again : new.Settled fleet plan) :
    Still fleet [new.key] routes (putRoute routes fleet placed.links new).1
      (putRoute routes fleet placed.links new).2 := by
  obtain ⟨same, stop, start⟩ := settled.replace again
  have key : placed.key = plan.key := settled.realizes.key
  refine ⟨?_, stop, fun id mem => ?_⟩
  · let replaced := (Changeover.replace fleet placed.links new).1
    change Table.insert routes replaced.key replaced = routes
    rw [show replaced = placed from same, key]
    exact Table.insert_of_get? hit
  · obtain ⟨⟨rule, held⟩, rests⟩ := start id mem
    refine ⟨⟨new.key, List.mem_singleton_self _, rule, placed, ?_, held⟩, rests⟩
    rw [again.realizes.key]
    exact hit

theorem refreshRoute_still
    (settled : ∀ placed, routes.get? plan.key = some placed → placed.Settled fleet plan)
    (again : new.Settled fleet plan) :
    Still fleet [new.key] routes (refreshRoute routes fleet new).1 (refreshRoute routes fleet new).2 := by
  unfold refreshRoute
  rw [again.realizes.key]
  cases hit : routes.get? plan.key with
  | none => exact .refl fleet _ routes
  | some placed =>
    have still := put_still hit (settled placed hit) again
    rwa [again.realizes.key] at still

theorem Still.cons {α : Type} {item : α} {rest : List α} {change : Routes → α → Routes × Changeover}
    {keys' : List ResourceKey}
    (first : Still fleet keys routes (change routes item).1 (change routes item).2)
    (others : Still fleet keys' routes (forEach routes rest change).1 (forEach routes rest change).2) :
    Still fleet (keys ++ keys') routes (forEach routes (item :: rest) change).1
      (forEach routes (item :: rest) change).2 := by
  rw [forEach_cons, first.routes]
  refine ⟨others.routes, ?_, fun id mem => ?_⟩
  · rw [Changeover.append_stop, first.stop, others.stop]
    rfl
  · rw [Changeover.append_start, List.mem_append] at mem
    rcases mem with mem | mem
    · obtain ⟨⟨key, there, held⟩, rests⟩ := first.start id mem
      exact ⟨⟨key, List.mem_append_left _ there, held⟩, rests⟩
    · obtain ⟨⟨key, there, held⟩, rests⟩ := others.start id mem
      exact ⟨⟨key, List.mem_append_right _ there, held⟩, rests⟩

theorem refreshAll_still {plans : List RoutePlan} {news : List Route}
    (settled : ∀ plan ∈ plans, ∀ placed, routes.get? plan.key = some placed → placed.Settled fleet plan)
    (again : List.Forall₂ (fun plan new => Route.Settled new fleet plan) plans news) :
    let done := forEach routes news fun routes new => refreshRoute routes fleet new
    Still fleet (news.map (·.key)) routes done.1 done.2 := by
  induction again with
  | nil => exact .refl fleet _ routes
  | cons new _ ih =>
    exact .cons (refreshRoute_still (settled _ List.mem_cons_self) new)
      (ih fun plan mem => settled plan (List.mem_cons_of_mem _ mem))

theorem dropDependents_still {kind : Kind} {object key : ResourceKey}
    (without : ∀ route, routes.get? key = some route → route.without kind object = route) :
    Still fleet [] routes (dropDependents routes kind object key).1
      (dropDependents routes kind object key).2 := by
  unfold dropDependents
  cases hit : routes.get? key with
  | none => exact .refl fleet _ routes
  | some route =>
    have same := without route hit
    refine ⟨?_, ?_, fun _ mem => nomatch mem⟩
    · exact Table.insert_of_get? (hit.trans (congrArg some same.symm))
    · refine List.eq_nil_iff_forall_not_mem.2 fun id mem => ?_
      obtain ⟨rule, doomed⟩ := Table.mem_values_iff.1 mem
      rw [Table.get?_filter, Option.filter_eq_some_iff] at doomed
      have kept := (Route.get?_without.1 (same.symm ▸ doomed.1)).2
      cases doomed.2.symm.trans kept

theorem dropAll_still (fleet : Fleet) {kind : Kind} {object : ResourceKey} {keys : List ResourceKey}
    (without : ∀ key ∈ keys, ∀ route, routes.get? key = some route → route.without kind object = route) :
    let done := forEach routes keys fun routes key => dropDependents routes kind object key
    Still fleet [] routes done.1 done.2 := by
  induction keys with
  | nil => exact .refl fleet _ routes
  | cons key rest ih =>
    exact .cons (dropDependents_still (without key List.mem_cons_self))
      (ih fun other mem => without other (List.mem_cons_of_mem _ mem))

/-! ### What a change puts in place -/

variable {settings : TunnelSettings}

theorem placed_settled (coherent : Coherent routes fleet settings) (uniform : plan.Uniform settings)
    (settled : new.Settled fleet plan) :
    (Changeover.replace fleet (linksOf routes new.key) new).1.Settled fleet plan :=
  ⟨(put_realizes coherent uniform settled.realizes).1, (Changeover.keys_replace _ _ _).trans settled.order⟩

theorem refreshRoute_settled (coherent : Coherent routes fleet settings) (uniform : plan.Uniform settings)
    (settled : new.Settled fleet plan) {placed : Route}
    (hit : (refreshRoute routes fleet new).1.get? plan.key = some placed) : placed.Settled fleet plan := by
  have put := placed_settled coherent uniform settled
  unfold linksOf at put
  unfold refreshRoute at hit
  rw [settled.realizes.key] at hit put
  cases old : routes.get? plan.key with
  | none =>
    rw [old] at hit
    cases old.symm.trans hit
  | some route =>
    rw [old] at hit put
    have inserted := Table.get?_insert.symm.trans hit
    rw [if_pos settled.realizes.key.symm] at inserted
    exact Option.some.inj inserted ▸ put

/-- The routes that are there are as planned after they have all been brought anew. -/
theorem refreshAll_settled {plans : List RoutePlan} {news : List Route}
    (coherent : Coherent routes fleet settings)
    (nodup : (plans.map (·.key)).Nodup) (uniform : ∀ plan ∈ plans, plan.Uniform settings)
    (settled : List.Forall₂ (fun plan new => Route.Settled new fleet plan) plans news) :
    ∀ plan ∈ plans, ∀ placed,
      (forEach routes news fun routes new => refreshRoute routes fleet new).1.get? plan.key = some placed →
        placed.Settled fleet plan := by
  induction settled generalizing routes with
  | nil => exact fun _ mem => nomatch mem
  | @cons plan new plans news first others ih =>
    obtain ⟨absent, nodup⟩ := List.nodup_cons.1 nodup
    have uniforms : ∀ plan ∈ plans, plan.Uniform settings := fun plan mem =>
      uniform plan (List.mem_cons_of_mem _ mem)
    have here := uniform plan List.mem_cons_self
    have middle := (refreshRoute_realizes coherent here first.realizes).1
    intro found mem placed hit
    rw [forEach_cons] at hit
    rcases List.mem_cons.1 mem with rfl | mem
    · have realized := others.imp fun _ _ settled => settled.realizes
      have frame := (refreshAll_realizes middle uniforms realized).2.1
      exact refreshRoute_settled coherent here first ((frame _ absent).symm.trans hit)
    · exact ih middle nodup uniforms found mem placed hit

end Routes

namespace Demand

theorem buildAll_settled (plans : List RoutePlan) (fleet : Fleet) :
    List.Forall₂ (fun plan route => Route.Settled route (buildAll plans fleet).1 plan) plans
      (buildAll plans fleet).2 := by
  suffices general : ∀ built : Fleet × List Route,
      let done := plans.foldl (fun (built : Fleet × List Route) plan =>
        ((plan.build built.1).1, built.2 ++ [(plan.build built.1).2])) built
      built.1.Fades done.1 ∧ ∃ routes, done.2 = built.2 ++ routes ∧
        List.Forall₂ (fun plan route => Route.Settled route done.1 plan) plans routes by
    obtain ⟨_, routes, same, settled⟩ := general (fleet, [])
    rwa [show (buildAll plans fleet).2 = routes from same]
  induction plans with
  | nil => exact fun built => ⟨.refl _, [], (List.append_nil _).symm, .nil⟩
  | cons plan rest ih =>
    intro built done
    obtain ⟨fades, routes, same, settled⟩ :=
      ih ((plan.build built.1).1, built.2 ++ [(plan.build built.1).2])
    refine ⟨(plan.build_realizes built.1).1.trans fades, (plan.build built.1).2 :: routes, ?_,
      .cons ((plan.build_settled built.1).mono fades.spec) settled⟩
    rw [List.append_cons]
    exact same

/-- What a demand calls for is in place. -/
def InPlace (routes : Routes) (fleet : Fleet) : Demand → Prop
  | nothing => True
  | update plan => ∃ placed, routes.get? plan.key = some placed ∧ placed.Settled fleet plan
  | refresh plans =>
    ∀ plan ∈ plans, ∀ placed, routes.get? plan.key = some placed → placed.Settled fleet plan
  | remove key => routes.get? key = none
  | drop kind object keys => kind ≠ .ingress ∧
    ∀ key ∈ keys, ∀ route, routes.get? key = some route → route.without kind object = route

variable {demand : Demand} {routes : Routes} {early made fleet later : Fleet} {mutation : Mutation}

theorem InPlace.mono (inPlace : demand.InPlace routes fleet)
    (kept : ∀ id spec, fleet.spec? id = some spec → later.spec? id = some spec) :
    demand.InPlace routes later := by
  cases demand with
  | nothing => trivial
  | update plan =>
    obtain ⟨placed, hit, settled⟩ := inPlace
    exact ⟨placed, hit, settled.mono kept⟩
  | refresh plans => exact fun plan mem placed hit => (inPlace plan mem placed hit).mono kept
  | remove key => exact inPlace
  | drop kind object keys => exact inPlace

/-- **A change that is in place already changes no route.** -/
theorem InPlace.still (inPlace : demand.InPlace routes fleet)
    (built : demand.build early = (made, some mutation))
    (kept : ∀ id spec, made.spec? id = some spec → fleet.spec? id = some spec) :
    Routes.Still fleet (mutation.brought.map (·.key)) routes (mutation.plan fleet routes).routes
      (mutation.plan fleet routes).changes := by
  cases demand with
  | nothing => cases built
  | update plan =>
    cases built
    obtain ⟨placed, hit, settled⟩ := inPlace
    have again := (plan.build_settled early).mono kept
    have old : Routes.linksOf routes (plan.build early).2.key = placed.links := by
      rw [again.realizes.key, Routes.linksOf, hit]
      rfl
    have still := Routes.put_still hit settled again
    rw [← old] at still
    exact still
  | refresh plans =>
    cases built
    have again := (buildAll_settled plans early).imp fun _ _ settled => settled.mono kept
    exact Routes.refreshAll_still inPlace again
  | remove key =>
    cases built
    have absent : Routes.removeRoute routes key = (routes, .none) := by
      unfold Routes.removeRoute
      rw [show routes.get? key = none from inPlace]
    change Routes.Still fleet [] routes (Routes.removeRoute routes key).1 (Routes.removeRoute routes key).2
    rw [absent]
    exact .refl fleet [] routes
  | drop kind object keys =>
    cases built
    obtain ⟨dependency, without⟩ := inPlace
    have still := Routes.dropAll_still fleet without
    cases kind with
    | ingress => exact absurd rfl dependency
    | _ => exact still

/-- What a demand of a key is like: its tunnels are made in one way, and what it drops is no ingress. -/
def Planned (settings : TunnelSettings) : Demand → Prop
  | nothing => True
  | update plan => plan.Uniform settings
  | refresh plans => ∀ plan ∈ plans, plan.Uniform settings
  | remove _ => True
  | drop kind _ _ => kind ≠ .ingress

theorem ofKey_planned {caches : Caches} {index counted : IngressIndex} {settings : TunnelSettings}
    {kind : Kind} {key : ResourceKey}
    (found : ofKey caches index settings kind key = (counted, .ok demand)) :
    demand.Planned settings := by
  by_cases taken : kind = .ingress
  · subst taken
    rcases ofIngress_cases (congrArg Prod.snd found) with ⟨ingress, plan, _, rfl, built⟩ | ⟨_, rfl⟩
    · exact RoutePlan.ofIngress_uniform built
    · trivial
  · rw [ofKey_dependency _ _ _ _ taken] at found
    rcases ofDependency_cases (congrArg Prod.snd found) with ⟨_, rfl⟩ | ⟨plans, _, planned, rfl⟩ | ⟨_, rfl⟩
    · trivial
    · intro plan mem
      obtain ⟨_, _, _, _, built⟩ := (mem_plans planned).1 plan mem
      exact RoutePlan.ofIngress_uniform built
    · exact taken

/-- A change leaves the routes coherent, and puts in place what it is for. -/
theorem plan_inPlace {settings : TunnelSettings} (planned : demand.Planned settings)
    (coherent : Routes.Coherent routes fleet settings) (built : demand.build early = (made, some mutation))
    (kept : ∀ id spec, made.spec? id = some spec → fleet.spec? id = some spec)
    (nodup : (mutation.brought.map (·.key)).Nodup) :
    Routes.Coherent (mutation.plan fleet routes).routes fleet settings ∧
      demand.InPlace (mutation.plan fleet routes).routes fleet := by
  cases demand with
  | nothing => cases built
  | update plan =>
    cases built
    have settled := (plan.build_settled early).mono kept
    have key : (plan.build early).2.key = plan.key := settled.realizes.key
    have placed := Routes.placed_settled coherent planned settled
    refine ⟨(Routes.put_realizes coherent planned settled.realizes).2, _, ?_, placed⟩
    exact Table.get?_insert.trans (if_pos key.symm)
  | refresh plans =>
    cases built
    have settled := (buildAll_settled plans early).imp fun _ _ settled => settled.mono kept
    have keys : (buildAll plans early).2.map (·.key) = plans.map (·.key) :=
      (values_buildAll plans early).2.2
    have nodup : (plans.map (·.key)).Nodup := keys ▸ nodup
    refine ⟨?_, Routes.refreshAll_settled coherent nodup planned settled⟩
    exact (Routes.refreshAll_realizes coherent planned (settled.imp fun _ _ settled => settled.realizes)).1
  | remove key =>
    cases built
    exact ⟨coherent.removeRoute key, (Routes.get?_removeRoute routes key key).trans (if_pos rfl)⟩
  | drop kind object keys =>
    cases built
    have after : (Mutation.plan fleet routes (.drop kind object keys)).routes =
        (Routes.forEach routes keys fun routes key => Routes.dropDependents routes kind object key).1 := by
      cases kind with
      | ingress => exact absurd rfl planned
      | _ => rfl
    rw [after]
    refine ⟨coherent.dropAll kind object keys, planned, fun key mem route hit => ?_⟩
    rw [Routes.get?_dropAll, if_pos mem] at hit
    obtain ⟨old, _, rfl⟩ := Option.map_eq_some_iff.1 hit
    exact Route.without_without old kind object

end Demand

end TunnelIngress
