import TunnelIngress.Proofs.Tunnel.RouteBuilds

/-!
# Routes in their places

A route that is as planned stays so when it takes the place of another, though it may keep links of
that. Routes that lose links are still in order.
-/

namespace TunnelIngress

namespace Routes

/-- Routes stand under their keys, and their links have tunnels for their rules. -/
structure Coherent (routes : Routes) (fleet : Fleet) (settings : TunnelSettings) : Prop where
  keyed : ∀ key route, routes.get? key = some route → route.key = key
  made : ∀ key rule id, Holds routes key rule id →
    ∃ certificate options, fleet.spec? id = some (.new settings rule certificate options)

variable {routes : Routes} {fleet later : Fleet} {settings : TunnelSettings} {plan : RoutePlan}
  {new : Route}

theorem Coherent.mono (coherent : Coherent routes fleet settings)
    (kept : ∀ id spec, fleet.spec? id = some spec → later.spec? id = some spec) :
    Coherent routes later settings where
  keyed := coherent.keyed
  made key rule id holds := by
    obtain ⟨certificate, options, was⟩ := coherent.made key rule id holds
    exact ⟨certificate, options, kept id _ was⟩

/-- A new route takes its place. Where it keeps a link of the old one, that link is the same as the
one it gives up. -/
theorem put_realizes (coherent : Coherent routes fleet settings) (uniform : plan.Uniform settings)
    (realizes : new.Realizes fleet plan) :
    let placed := (Changeover.replace fleet (linksOf routes new.key) new).1
    placed.Realizes fleet plan ∧ Coherent (Table.insert routes new.key placed) fleet settings := by
  intro placed
  have as_planned : placed.Realizes fleet plan := by
    refine ⟨realizes.key, realizes.options, fun rule => ?_⟩
    rw [Changeover.replace_links, ← realizes.links rule]
    cases hit : new.links.get? rule with
    | none => rfl
    | some fresh =>
      simp only [Option.map_some, Option.some.injEq]
      obtain ⟨spec, wanted, made⟩ := realizes.spec? hit
      obtain ⟨certificate, rfl⟩ := uniform rule spec wanted
      rcases Changeover.settle_cases fleet ((linksOf routes new.key).get? rule) fresh with
        ⟨_, same⟩ | ⟨kept, was, equal, same⟩ | ⟨_, _, same⟩
      · rw [same]
      · obtain ⟨_, _, known⟩ := coherent.made _ _ _ (linksOf_iff.1 was)
        rw [same, Fleet.spec?_of_same equal known made]
      · rw [same]
  refine ⟨as_planned, ?_, ?_⟩
  · intro key route hit
    rw [Table.get?_insert] at hit
    split at hit
    · rename_i here
      cases hit
      exact here.symm
    · exact coherent.keyed key route hit
  · intro key rule id holds
    rw [holds_insert] at holds
    split at holds
    · obtain ⟨spec, wanted, made⟩ := as_planned.spec? holds
      obtain ⟨certificate, rfl⟩ := uniform rule spec wanted
      exact ⟨certificate, _, made⟩
    · exact coherent.made key rule id holds

/-- A route that is there is replaced, and one that is not there is not brought back. -/
theorem refreshRoute_realizes (coherent : Coherent routes fleet settings)
    (uniform : plan.Uniform settings) (realizes : new.Realizes fleet plan) :
    let after := (refreshRoute routes fleet new).1
    Coherent after fleet settings ∧ (∀ key, key ≠ plan.key → after.get? key = routes.get? key) ∧
      (routes.get? plan.key = none → after.get? plan.key = none) ∧
      ∀ route, routes.get? plan.key = some route →
        ∃ placed, after.get? plan.key = some placed ∧ placed.Realizes fleet plan := by
  obtain ⟨as_planned, later⟩ := put_realizes coherent uniform realizes
  rw [← realizes.key]
  unfold linksOf at as_planned later
  unfold refreshRoute
  cases hit : routes.get? new.key with
  | none => exact ⟨coherent, fun _ _ => rfl, fun _ => hit, fun _ => by simp⟩
  | some old =>
    simp only [hit, Option.map_some, Option.getD_some] at as_planned later
    refine ⟨later, fun key ne => ?_, by simp, fun _ _ => ⟨_, ?_, as_planned⟩⟩
    · exact Table.get?_insert.trans (if_neg ne)
    · exact Table.get?_insert.trans (if_pos rfl)

/-- Each route that is there is replaced, if it has a plan, by one that is as planned. -/
theorem refreshAll_realizes {plans : List RoutePlan} {news : List Route}
    (coherent : Coherent routes fleet settings) (uniform : ∀ plan ∈ plans, plan.Uniform settings)
    (realize : List.Forall₂ (fun plan new => Route.Realizes new fleet plan) plans news) :
    let after := (forEach routes news fun routes new => refreshRoute routes fleet new).1
    Coherent after fleet settings ∧
      (∀ key, key ∉ plans.map (·.key) → after.get? key = routes.get? key) ∧
      (∀ key, routes.get? key = none → after.get? key = none) ∧
      ∀ key route, routes.get? key = some route → key ∈ plans.map (·.key) →
        ∃ plan ∈ plans, plan.key = key ∧
          ∃ placed, after.get? key = some placed ∧ placed.Realizes fleet plan := by
  induction realize generalizing routes with
  | nil => exact ⟨coherent, fun _ _ => rfl, fun _ none => none, fun _ _ _ mem => nomatch mem⟩
  | @cons plan new plans news realizes _ ih =>
    intro after
    obtain ⟨middle, other, gone, there⟩ :=
      refreshRoute_realizes coherent (uniform plan List.mem_cons_self) realizes
    obtain ⟨coherent, others, none, placed⟩ :=
      ih middle fun plan mem => uniform plan (List.mem_cons_of_mem _ mem)
    have rest : after = (forEach (refreshRoute routes fleet new).1 news fun routes new =>
        refreshRoute routes fleet new).1 := by
      rw [show after = _ from congrArg Prod.fst (forEach_cons routes new news _)]
    rw [rest]
    refine ⟨coherent, fun key mem => ?_, fun key absent => ?_, fun key route hit mem => ?_⟩
    · rw [List.map_cons, List.mem_cons, not_or] at mem
      exact (others key mem.2).trans (other key mem.1)
    · refine none key ?_
      by_cases same : key = plan.key
      · exact same ▸ gone (same ▸ absent)
      · exact (other key same).trans absent
    · by_cases later : key ∈ plans.map (·.key)
      · obtain ⟨found, still⟩ : ∃ found, (refreshRoute routes fleet new).1.get? key = some found := by
          by_cases same : key = plan.key
          · obtain ⟨placed, at_key, _⟩ := there route (same ▸ hit)
            exact ⟨placed, same ▸ at_key⟩
          · exact ⟨route, (other key same).trans hit⟩
        obtain ⟨plan, mem, last⟩ := placed key found still later
        exact ⟨plan, List.mem_cons_of_mem _ mem, last⟩
      · obtain rfl := (List.mem_cons.1 mem).resolve_right later
        obtain ⟨placed, at_key, as_planned⟩ := there route hit
        exact ⟨plan, List.mem_cons_self, rfl, placed, (others _ later).trans at_key, as_planned⟩

end Routes

/-! ### Routes that lose links -/

/-- A route without the links that need an object. -/
def Route.without (route : Route) (kind : Kind) (object : ResourceKey) : Route :=
  { route with links := route.links.filter fun rule _ => !rule.dependsOn kind object }

theorem Route.without_without (route : Route) (kind : Kind) (object : ResourceKey) :
    (route.without kind object).without kind object = route.without kind object := by
  simp [without, Table.filter]

theorem Route.get?_without {route : Route} {kind : Kind} {object : ResourceKey} {rule : Rule}
    {id : LinkId} : (route.without kind object).links.get? rule = some id ↔
      route.links.get? rule = some id ∧ rule.dependsOn kind object = false := by
  simp [without, Table.get?_filter, Option.filter_eq_some_iff]

namespace Routes

variable {routes after : Routes} {fleet : Fleet} {settings : TunnelSettings}

theorem get?_dropDependents (routes : Routes) (kind : Kind) (object key other : ResourceKey) :
    (dropDependents routes kind object key).1.get? other =
      if other = key then (routes.get? key).map (·.without kind object) else routes.get? other := by
  unfold dropDependents
  cases hit : routes.get? key with
  | none =>
    dsimp only
    split
    · rename_i here
      exact here ▸ hit
    · rfl
  | some route => exact Table.get?_insert

theorem get?_dropAll (routes : Routes) (kind : Kind) (object : ResourceKey) (keys : List ResourceKey)
    (other : ResourceKey) :
    (forEach routes keys fun routes key => dropDependents routes kind object key).1.get? other =
      if other ∈ keys then (routes.get? other).map (·.without kind object) else routes.get? other := by
  induction keys generalizing routes with
  | nil => rfl
  | cons key rest ih =>
    rw [forEach_cons, ih, get?_dropDependents]
    by_cases here : other = key
    · subst here
      simp [Option.map_map, Function.comp_def, Route.without_without]
    · simp [here]

theorem get?_removeRoute (routes : Routes) (key other : ResourceKey) :
    (removeRoute routes key).1.get? other = if other = key then none else routes.get? other := by
  unfold removeRoute
  cases hit : routes.get? key with
  | none =>
    dsimp only
    split
    · rename_i here
      exact here ▸ hit
    · rfl
  | some route => exact Table.get?_erase

theorem refreshRoute_absent {key : ResourceKey} (absent : routes.get? key = none) (new : Route) :
    (refreshRoute routes fleet new).1.get? key = none := by
  unfold refreshRoute
  cases hit : routes.get? new.key with
  | none => exact absent
  | some old =>
    have ne : key ≠ new.key := by
      rintro rfl
      cases absent.symm.trans hit
    exact Table.get?_insert.trans ((if_neg ne).trans absent)

theorem refreshAll_absent {key : ResourceKey} (absent : routes.get? key = none) (news : List Route) :
    (forEach routes news fun routes new => refreshRoute routes fleet new).1.get? key = none := by
  induction news generalizing routes with
  | nil => exact absent
  | cons new rest ih =>
    rw [forEach_cons]
    exact ih (refreshRoute_absent absent new)

/-- Only an update brings a route where there is none. -/
theorem plan_absent {mutation : Mutation} {key : ResourceKey} (absent : routes.get? key = none)
    (other : ∀ route, mutation = .update route → route.key ≠ key) :
    (mutation.plan fleet routes).routes.get? key = none := by
  cases mutation with
  | update route => exact Table.get?_insert.trans ((if_neg (other route rfl).symm).trans absent)
  | refresh news => exact refreshAll_absent absent news
  | remove removed =>
    refine (get?_removeRoute routes removed key).trans ?_
    split
    · rfl
    · exact absent
  | drop kind object keys =>
    have dropped : (forEach routes keys fun routes key => dropDependents routes kind object key).1.get? key =
        none := by
      rw [get?_dropAll, absent]
      split <;> rfl
    cases kind with
    | ingress => exact absent
    | _ => exact dropped
  | halt => rfl

/-- Routes that are left, with links that are left, are still in order. -/
theorem Coherent.fewer (coherent : Coherent routes fleet settings)
    (fewer : ∀ key route, after.get? key = some route → ∃ old, routes.get? key = some old ∧
      route.key = old.key ∧ ∀ rule id, route.links.get? rule = some id → old.links.get? rule = some id) :
    Coherent after fleet settings where
  keyed key route hit := by
    obtain ⟨old, was, same, _⟩ := fewer key route hit
    exact same.trans (coherent.keyed key old was)
  made key rule id holds := by
    obtain ⟨route, hit, held⟩ := holds
    obtain ⟨old, was, _, links⟩ := fewer key route hit
    exact coherent.made key rule id ⟨old, was, links rule id held⟩

theorem Coherent.removeRoute (coherent : Coherent routes fleet settings) (key : ResourceKey) :
    Coherent (removeRoute routes key).1 fleet settings := by
  refine coherent.fewer fun other route hit => ?_
  rw [get?_removeRoute] at hit
  split at hit
  · cases hit
  · exact ⟨route, hit, rfl, fun _ _ held => held⟩

theorem Coherent.dropAll (coherent : Coherent routes fleet settings) (kind : Kind)
    (object : ResourceKey) (keys : List ResourceKey) :
    Coherent (forEach routes keys fun routes key => dropDependents routes kind object key).1 fleet
      settings := by
  refine coherent.fewer fun key route hit => ?_
  rw [get?_dropAll] at hit
  split at hit
  · obtain ⟨old, was, rfl⟩ := Option.map_eq_some_iff.1 hit
    exact ⟨old, was, rfl, fun _ _ held => (Route.get?_without.1 held).1⟩
  · exact ⟨route, hit, rfl, fun _ _ held => held⟩

end Routes

end TunnelIngress
