import TunnelIngress.Proofs.Tunnel.ChangeMoves
import TunnelIngress.Proofs.Tunnel.Supervision
import TunnelIngress.Ingress.Demand

/-!
# Routes as planned

A route is as planned when each of its links has the tunnel that the plan has for the rule, and that is
how routes are built.
-/

namespace TunnelIngress

theorem Fleet.Fades.trans {fleet middle later : Fleet} (first : fleet.Fades middle)
    (second : middle.Fades later) : fleet.Fades later :=
  ⟨Nat.le_trans first.size second.size, fun id spec was => second.spec id spec (first.spec id spec was),
    fun id => (second.slot id).trans (first.slot id), fun id => (second.starts id).trans (first.starts id),
    fun id index alive => first.alive id index (second.alive id index alive)⟩

theorem Fleet.add_spec? (fleet : Fleet) (spec : LinkSpec) :
    (fleet.add spec).1.spec? (fleet.add spec).2 = some spec := by
  simp [Fleet.add, Fleet.spec?, Fleet.get?, Link.new]

/-- Tunnels that are made in the same way for the same rule are equal when they are the same. -/
theorem Fleet.spec?_of_same {fleet : Fleet} {a b : LinkId} {settings : TunnelSettings} {rule : Rule}
    {certificate certificate' : List UInt8} {options options' : TunnelOptions}
    (same : fleet.same a b = true)
    (first : fleet.spec? a = some (.new settings rule certificate options))
    (second : fleet.spec? b = some (.new settings rule certificate' options')) :
    fleet.spec? a = fleet.spec? b := by
  unfold Fleet.spec? at *
  obtain ⟨link, found, spec⟩ := Option.map_eq_some_iff.1 first
  obtain ⟨link', found', spec'⟩ := Option.map_eq_some_iff.1 second
  simp only [Fleet.same, found, found', spec, spec', LinkSpec.same, LinkSpec.new, Bool.and_eq_true,
    beq_iff_eq] at same
  obtain ⟨⟨_, rfl⟩, rfl⟩ := same
  rw [first, second]

namespace Route

/-- The links of a route have the tunnels of a plan. -/
structure Realizes (route : Route) (fleet : Fleet) (plan : RoutePlan) : Prop where
  key : route.key = plan.key
  options : route.options = plan.options
  links : ∀ rule, (route.links.get? rule).map fleet.spec? = (plan.links.get? rule).map some

variable {route : Route} {fleet later : Fleet} {plan : RoutePlan}

theorem Realizes.mono (realizes : route.Realizes fleet plan)
    (kept : ∀ id spec, fleet.spec? id = some spec → later.spec? id = some spec) :
    route.Realizes later plan where
  key := realizes.key
  options := realizes.options
  links rule := by
    have before := realizes.links rule
    cases hit : route.links.get? rule with
    | none => simpa [hit] using before
    | some id =>
      cases wanted : plan.links.get? rule with
      | none => simp [hit, wanted] at before
      | some spec =>
        have was : fleet.spec? id = some spec := by simpa [hit, wanted] using before
        simp [kept id spec was]

theorem Realizes.spec? (realizes : route.Realizes fleet plan) {rule : Rule} {id : LinkId}
    (hit : route.links.get? rule = some id) :
    ∃ spec, plan.links.get? rule = some spec ∧ fleet.spec? id = some spec := by
  have links := realizes.links rule
  cases wanted : plan.links.get? rule with
  | none => simp [hit, wanted] at links
  | some spec => exact ⟨spec, rfl, by simpa [hit, wanted] using links⟩

theorem Realizes.none_iff (realizes : route.Realizes fleet plan) {rule : Rule} :
    route.links.get? rule = none ↔ plan.links.get? rule = none := by
  have links := congrArg Option.isNone (realizes.links rule)
  rw [Option.isNone_map, Option.isNone_map, Bool.eq_iff_iff] at links
  simpa using links

end Route

namespace RoutePlan

def buildAll (built : Fleet × Table Rule LinkId) (entries : List (Rule × LinkSpec)) :
    Fleet × Table Rule LinkId :=
  entries.foldl
    (fun (built : Fleet × Table Rule LinkId) entry =>
      let (fleet, id) := built.1.add entry.2
      (fleet, built.2.insert entry.1 id))
    built

theorem buildAll_fades (entries : List (Rule × LinkSpec)) (built : Fleet × Table Rule LinkId) :
    built.1.Fades (buildAll built entries).1 := by
  induction entries generalizing built with
  | nil => exact .refl _
  | cons entry rest ih =>
    let next := built.1.add entry.2
    exact (built.1.fades_add entry.2).trans (ih (next.1, built.2.insert entry.1 next.2))

theorem buildAll_other {entries : List (Rule × LinkSpec)} {rule : Rule}
    (absent : rule ∉ entries.map (·.1)) (built : Fleet × Table Rule LinkId) :
    (buildAll built entries).2.get? rule = built.2.get? rule := by
  induction entries generalizing built with
  | nil => rfl
  | cons entry rest ih =>
    rw [List.map_cons, List.mem_cons, not_or] at absent
    refine (ih absent.2 _).trans ?_
    rw [Table.get?_insert, if_neg absent.1]

theorem buildAll_entry {entries : List (Rule × LinkSpec)} {rule : Rule} {spec : LinkSpec}
    (nodup : (entries.map (·.1)).Nodup) (mem : (rule, spec) ∈ entries)
    (built : Fleet × Table Rule LinkId) :
    ∃ id, (buildAll built entries).2.get? rule = some id ∧
      (buildAll built entries).1.spec? id = some spec := by
  induction entries generalizing built with
  | nil => cases mem
  | cons entry rest ih =>
    rw [List.map_cons, List.nodup_cons] at nodup
    rcases List.mem_cons.1 mem with rfl | mem
    · refine ⟨(built.1.add spec).2, (buildAll_other nodup.1 _).trans ?_, ?_⟩
      · rw [Table.get?_insert, if_pos rfl]
      · exact (buildAll_fades rest _).spec _ _ (built.1.add_spec? spec)
    · exact ih nodup.2 mem _

theorem build_eq (plan : RoutePlan) (fleet : Fleet) :
    plan.build fleet =
      let (fleet, links) := buildAll (fleet, ∅) plan.links.entries
      (fleet, { key := plan.key, options := plan.options, links }) :=
  rfl

theorem build_realizes (plan : RoutePlan) (fleet : Fleet) :
    fleet.Fades (plan.build fleet).1 ∧ (plan.build fleet).2.Realizes (plan.build fleet).1 plan := by
  rw [build_eq]
  refine ⟨buildAll_fades plan.links.entries (fleet, ∅), rfl, rfl, fun rule => ?_⟩
  cases wanted : plan.links.get? rule with
  | none =>
    have absent : rule ∉ plan.links.entries.map (·.1) := by
      intro mem
      obtain ⟨spec, hit⟩ := Table.mem_keys_iff.1 mem
      simp [wanted] at hit
    have none := buildAll_other absent (fleet, ∅)
    simpa using none
  | some spec =>
    obtain ⟨id, hit, made⟩ :=
      buildAll_entry plan.links.nodup (Table.get?_eq_some_iff.1 wanted) (fleet, ∅)
    simp [hit, made]

/-- The tunnels of a plan are made in one way for all rules. -/
def Uniform (plan : RoutePlan) (settings : TunnelSettings) : Prop :=
  ∀ rule spec, plan.links.get? rule = some spec →
    ∃ certificate, spec = .new settings rule certificate plan.options

end RoutePlan

theorem Demand.buildAll_realizes (plans : List RoutePlan) (fleet : Fleet) :
    fleet.Fades (buildAll plans fleet).1 ∧
      List.Forall₂ (fun plan route => Route.Realizes route (buildAll plans fleet).1 plan) plans
        (buildAll plans fleet).2 := by
  suffices general : ∀ built : Fleet × List Route,
      let done := plans.foldl (fun (built : Fleet × List Route) plan =>
        ((plan.build built.1).1, built.2 ++ [(plan.build built.1).2])) built
      built.1.Fades done.1 ∧ ∃ routes, done.2 = built.2 ++ routes ∧
        List.Forall₂ (fun plan route => Route.Realizes route done.1 plan) plans routes by
    obtain ⟨fades, routes, same, realize⟩ := general (fleet, [])
    exact ⟨fades, by rwa [show (buildAll plans fleet).2 = routes from same]⟩
  induction plans with
  | nil => exact fun built => ⟨.refl _, [], (List.append_nil _).symm, .nil⟩
  | cons plan rest ih =>
    intro built done
    obtain ⟨made, realizes⟩ := plan.build_realizes built.1
    obtain ⟨fades, routes, same, realize⟩ := ih ((plan.build built.1).1, built.2 ++ [(plan.build built.1).2])
    refine ⟨made.trans fades, (plan.build built.1).2 :: routes, ?_, .cons (realizes.mono fades.spec) realize⟩
    rw [List.append_cons]
    exact same

theorem Demand.build_fades (demand : Demand) (fleet : Fleet) : fleet.Fades (demand.build fleet).1 := by
  cases demand with
  | update plan => exact (plan.build_realizes fleet).1
  | refresh plans => exact (buildAll_realizes plans fleet).1
  | _ => exact .refl fleet

end TunnelIngress
