import TunnelIngress.Proofs.Tunnel.LinkMoves
import TunnelIngress.Proofs.Tunnel.RouteBuilds
import Mathlib.Data.List.Range

/-!
# The links of built routes

Building routes makes links, each known by the next number, and the routes hold exactly these.
-/

namespace TunnelIngress

theorem Table.values_insert_new {κ α : Type} [DecidableEq κ] {table : Table κ α} {key : κ}
    (absent : table.get? key = none) (value : α) :
    (table.insert key value).values = table.values ++ [value] := by
  have new : ¬ table.contains key = true := by
    rw [contains_eq_isSome, absent]
    simp
  simp [insert, new, values]

/-- The links that were made from one size of a fleet on. -/
def Fleet.since (fleet : Fleet) (size : Nat) : List LinkId :=
  List.range' size (fleet.links.length - size)

theorem Fleet.mem_since {later : Fleet} {size : Nat} (grown : size ≤ later.links.length) {id : LinkId} :
    id ∈ later.since size ↔ size ≤ id ∧ id < later.links.length := by
  have all : size + (later.links.length - size) = later.links.length := Nat.add_sub_cancel' grown
  rw [since, List.mem_range'_1, all]

theorem Fleet.since_append {middle later : Fleet} {size : Nat} (first : size ≤ middle.links.length)
    (second : middle.links.length ≤ later.links.length) :
    middle.since size ++ later.since middle.links.length = later.since size := by
  obtain ⟨made, half⟩ := Nat.exists_eq_add_of_le first
  obtain ⟨more, whole⟩ := Nat.exists_eq_add_of_le second
  have all : later.links.length - size = made + more := by omega
  rw [since, since, since, all, show middle.links.length - size = made by omega,
    show later.links.length - middle.links.length = more by omega, half, List.range'_append_1]

namespace RoutePlan

theorem values_buildAll {entries : List (Rule × LinkSpec)} (nodup : (entries.map (·.1)).Nodup)
    (built : Fleet × Table Rule LinkId) (absent : ∀ entry ∈ entries, built.2.get? entry.1 = none) :
    (buildAll built entries).1.links.length = built.1.links.length + entries.length ∧
      (buildAll built entries).2.values =
        built.2.values ++ List.range' built.1.links.length entries.length := by
  induction entries generalizing built with
  | nil => exact ⟨rfl, (List.append_nil _).symm⟩
  | cons entry rest ih =>
    obtain ⟨new, nodup⟩ := List.nodup_cons.1 nodup
    let next : Fleet × Table Rule LinkId :=
      ((built.1.add entry.2).1, built.2.insert entry.1 built.1.links.length)
    have grown : next.1.links.length = built.1.links.length + 1 := by
      simp [next, Fleet.add]
    obtain ⟨size, values⟩ := ih nodup next fun other mem => by
      have ne : other.1 ≠ entry.1 := fun same => new (List.mem_map.2 ⟨other, mem, same⟩)
      rw [Table.get?_insert, if_neg ne]
      exact absent other (List.mem_cons_of_mem _ mem)
    constructor
    · calc (buildAll built (entry :: rest)).1.links.length
          = next.1.links.length + rest.length := size
        _ = built.1.links.length + (rest.length + 1) := by omega
    · calc (buildAll built (entry :: rest)).2.values
          = next.2.values ++ List.range' next.1.links.length rest.length := values
        _ = built.2.values ++ List.range' built.1.links.length (rest.length + 1) := by
          rw [Table.values_insert_new (absent entry List.mem_cons_self), grown, List.append_assoc]
          rfl

theorem values_build (plan : RoutePlan) (fleet : Fleet) :
    fleet.links.length ≤ (plan.build fleet).1.links.length ∧
      (plan.build fleet).2.links.values = (plan.build fleet).1.since fleet.links.length := by
  obtain ⟨size, values⟩ := values_buildAll plan.links.nodup (fleet, ∅) fun _ _ => rfl
  have size : (plan.build fleet).1.links.length = fleet.links.length + plan.links.entries.length := size
  refine ⟨by omega, ?_⟩
  rw [Fleet.since, size, Nat.add_sub_cancel_left]
  exact values

end RoutePlan

namespace Demand

theorem values_buildAll (plans : List RoutePlan) (fleet : Fleet) :
    fleet.links.length ≤ (buildAll plans fleet).1.links.length ∧
      (buildAll plans fleet).2.flatMap (·.links.values) =
        (buildAll plans fleet).1.since fleet.links.length ∧
      (buildAll plans fleet).2.map (·.key) = plans.map (·.key) := by
  suffices general : ∀ built : Fleet × List Route,
      let done := plans.foldl (fun (built : Fleet × List Route) plan =>
        ((plan.build built.1).1, built.2 ++ [(plan.build built.1).2])) built
      built.1.links.length ≤ done.1.links.length ∧ ∃ routes, done.2 = built.2 ++ routes ∧
        routes.flatMap (·.links.values) = done.1.since built.1.links.length ∧
        routes.map (·.key) = plans.map (·.key) by
    obtain ⟨size, routes, same, values, keys⟩ := general (fleet, [])
    rw [show (buildAll plans fleet).2 = routes from same]
    exact ⟨size, values, keys⟩
  induction plans with
  | nil => exact fun built => ⟨Nat.le_refl _, [], (List.append_nil _).symm, by simp [Fleet.since], rfl⟩
  | cons plan rest ih =>
    intro built done
    obtain ⟨grown, first⟩ := plan.values_build built.1
    obtain ⟨size, routes, same, values, keys⟩ :=
      ih ((plan.build built.1).1, built.2 ++ [(plan.build built.1).2])
    refine ⟨Nat.le_trans grown size, (plan.build built.1).2 :: routes, ?_, ?_, ?_⟩
    · rw [List.append_cons]
      exact same
    · rw [List.flatMap_cons, first, values]
      exact Fleet.since_append grown size
    · rw [List.map_cons, List.map_cons, keys]
      rfl

/-- The links that a demand brings are those that were made for it. -/
theorem values_build {demand : Demand} {fleet later : Fleet} {mutation : Mutation}
    (built : demand.build fleet = (later, some mutation)) :
    fleet.links.length ≤ later.links.length ∧
      (mutation.brought.flatMap (·.links.values) = later.since fleet.links.length ∨
        mutation.brought.flatMap (·.links.values) = []) := by
  cases demand with
  | nothing => cases built
  | update plan =>
    cases built
    obtain ⟨grown, values⟩ := plan.values_build fleet
    exact ⟨grown, .inl ((List.flatMap_singleton _ _).trans values)⟩
  | refresh plans =>
    cases built
    obtain ⟨grown, values, _⟩ := values_buildAll plans fleet
    exact ⟨grown, .inl values⟩
  | remove key =>
    cases built
    exact ⟨Nat.le_refl _, .inr rfl⟩
  | drop kind object keys =>
    cases built
    exact ⟨Nat.le_refl _, .inr rfl⟩

end Demand

end TunnelIngress
