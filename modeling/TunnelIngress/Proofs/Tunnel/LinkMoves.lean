import TunnelIngress.Proofs.Tunnel.Changeovers
import Mathlib.Data.List.Nodup
import Mathlib.Data.List.Pairwise

/-!
# How a change moves links

What a change does to the links that the routes hold: which come in, which go, and that those that go
are the ones to be stopped. Links never serve two rules.
-/

namespace TunnelIngress

def Mutation.brought : Mutation → List Route
  | update route => [route]
  | refresh routes => routes
  | _ => []

namespace Routes

def Holds (routes : Routes) (key : ResourceKey) (rule : Rule) (id : LinkId) : Prop :=
  ∃ route, routes.get? key = some route ∧ route.links.get? rule = some id

/-- No link serves two rules. -/
def Distinct (routes : Routes) : Prop :=
  ∀ key rule key' rule' id, Holds routes key rule id → Holds routes key' rule' id →
    key = key' ∧ rule = rule'

/-- One of some new routes has a link for a rule. -/
def Brings (fresh : List Route) (key : ResourceKey) (rule : Rule) (id : LinkId) : Prop :=
  ∃ route ∈ fresh, route.key = key ∧ route.links.get? rule = some id

/-- New routes have keys of their own, and links of their own that no route holds. -/
structure Apart (routes : Routes) (fresh : List Route) : Prop where
  keys : (fresh.map (·.key)).Nodup
  links : (fresh.flatMap (·.links.values)).Nodup
  new : ∀ key rule key' rule' id, Brings fresh key rule id → ¬ Holds routes key' rule' id

/-- What a change does to the links that the routes hold: links stay in their place or are brought,
the ones that go are to be stopped, and what a new route holds then runs or is to be started. -/
structure Moves (fleet : Fleet) (fresh : List Route) (keys : List ResourceKey) (before after : Routes)
    (changes : Changeover) : Prop where
  frame : ∀ key ∉ keys, after.get? key = before.get? key
  new : ∀ key rule id, Holds after key rule id → Holds before key rule id ∨ Brings fresh key rule id
  left : ∀ key rule id, Holds before key rule id → Holds after key rule id ∨ id ∈ changes.stop
  stopped : ∀ id ∈ changes.stop, (∃ key ∈ keys, ∃ rule, Holds before key rule id) ∧
    ∀ key rule, ¬ Holds after key rule id
  started : ∀ id ∈ changes.start, ∃ route ∈ fresh, ∃ rule, Holds after route.key rule id
  runs : ∀ route ∈ fresh, ∀ rule id, Holds after route.key rule id →
    id ∈ changes.start ∨ fleet.isStarted id = true

variable {fleet : Fleet} {before after : Routes} {fresh : List Route} {keys : List ResourceKey}
  {changes : Changeover}

/-! ### Links in one place -/

theorem mem_brought_iff {id : LinkId} :
    id ∈ fresh.flatMap (·.links.values) ↔ ∃ key rule, Brings fresh key rule id := by
  simp only [List.mem_flatMap, Table.mem_values_iff, Brings]
  constructor
  · rintro ⟨route, mem, rule, hit⟩
    exact ⟨route.key, rule, route, mem, rfl, hit⟩
  · rintro ⟨_, rule, route, mem, _, hit⟩
    exact ⟨route, mem, rule, hit⟩

theorem Apart.brings_eq (apart : Apart before fresh) {key key' : ResourceKey} {rule rule' : Rule}
    {id : LinkId} (brings : Brings fresh key rule id) (brings' : Brings fresh key' rule' id) :
    key = key' ∧ rule = rule' := by
  obtain ⟨route, mem, rfl, hit⟩ := brings
  obtain ⟨route', mem', rfl, hit'⟩ := brings'
  obtain ⟨each, disjoint⟩ := List.nodup_flatMap.1 apart.links
  have same : route = route' := by
    by_contra ne
    have symm : Std.Symm (Function.onFun List.Disjoint fun route : Route => route.links.values) :=
      ⟨fun _ _ disjoint _ mem mem' => disjoint mem' mem⟩
    exact disjoint.forall mem mem' ne (Table.mem_values_iff.2 ⟨_, hit⟩) (Table.mem_values_iff.2 ⟨_, hit'⟩)
  subst same
  have entry := List.inj_on_of_nodup_map (each route mem) (Table.get?_eq_some_iff.1 hit)
    (Table.get?_eq_some_iff.1 hit') rfl
  exact ⟨rfl, congrArg Prod.fst entry⟩

theorem Moves.distinct (moves : Moves fleet fresh keys before after changes)
    (distinct : Distinct before) (apart : Apart before fresh) : Distinct after := by
  intro key rule key' rule' id holds holds'
  rcases moves.new key rule id holds with held | brought
  · rcases moves.new key' rule' id holds' with held' | brought'
    · exact distinct key rule key' rule' id held held'
    · exact absurd held (apart.new _ _ _ _ id brought')
  · rcases moves.new key' rule' id holds' with held' | brought'
    · exact absurd held' (apart.new _ _ _ _ id brought)
    · exact apart.brings_eq brought brought'

def links (routes : Routes) : List LinkId :=
  routes.values.flatMap (·.links.values)

theorem mem_links_iff {id : LinkId} : id ∈ links before ↔ ∃ key rule, Holds before key rule id := by
  simp only [links, List.mem_flatMap, Table.mem_values_iff, Holds]
  constructor
  · rintro ⟨route, ⟨key, hit⟩, rule, held⟩
    exact ⟨key, rule, route, hit, held⟩
  · rintro ⟨key, rule, route, hit, held⟩
    exact ⟨route, ⟨key, hit⟩, rule, held⟩

theorem Distinct.nodup_links (distinct : Distinct before) : (links before).Nodup := by
  have entries (table : Table ResourceKey Route) : table.entries.Nodup := .of_map _ table.nodup
  rw [links, List.nodup_flatMap]
  constructor
  · intro route mem
    obtain ⟨key, hit⟩ := Table.mem_values_iff.1 mem
    refine List.Nodup.map_on ?_ (.of_map _ route.links.nodup)
    rintro ⟨rule, id⟩ here ⟨rule', _⟩ there rfl
    have held := Table.get?_eq_some_iff.2 here
    have held' := Table.get?_eq_some_iff.2 there
    obtain ⟨_, rfl⟩ := distinct _ _ _ _ id ⟨route, hit, held⟩ ⟨route, hit, held'⟩
    rfl
  · rw [Table.values, List.pairwise_map]
    refine (entries before).imp_of_mem ?_
    rintro ⟨key, route⟩ ⟨key', route'⟩ here there ne id mem mem'
    obtain ⟨rule, held⟩ := Table.mem_values_iff.1 mem
    obtain ⟨rule', held'⟩ := Table.mem_values_iff.1 mem'
    have hit := Table.get?_eq_some_iff.2 here
    have hit' := Table.get?_eq_some_iff.2 there
    obtain ⟨rfl, _⟩ := distinct _ _ _ _ id ⟨route, hit, held⟩ ⟨route', hit', held'⟩
    obtain rfl : route = route' := by simpa [hit] using hit'
    exact ne rfl

/-! ### One change after the other -/

theorem Moves.refl (fleet : Fleet) (keys : List ResourceKey) (routes : Routes)
    (absent : ∀ route ∈ fresh, routes.get? route.key = none) :
    Moves fleet fresh keys routes routes .none where
  frame _ _ := rfl
  new _ _ _ held := .inl held
  left _ _ _ held := .inl held
  stopped id stop := by simp [Changeover.none] at stop
  started id start := by simp [Changeover.none] at start
  runs route mem rule id held := by
    obtain ⟨found, hit, _⟩ := held
    simp [absent route mem] at hit

theorem holds_congr {key : ResourceKey} (same : after.get? key = before.get? key) {rule : Rule}
    {id : LinkId} : Holds after key rule id ↔ Holds before key rule id := by
  simp only [Holds, same]

/-- The second change does not touch the routes that the first one brought. -/
theorem Moves.trans {middle : Routes} {fresh' : List Route} {keys' : List ResourceKey}
    {changes' : Changeover} (first : Moves fleet fresh keys before middle changes)
    (second : Moves fleet fresh' keys' middle after changes')
    (apart : ∀ route ∈ fresh, route.key ∉ keys')
    (new : ∀ key rule key' rule' id, Brings fresh' key rule id → ¬ Holds before key' rule' id) :
    Moves fleet (fresh ++ fresh') (keys ++ keys') before after (changes ++ changes') where
  frame key absent := by
    rw [List.mem_append, not_or] at absent
    rw [second.frame key absent.2, first.frame key absent.1]
  new key rule id held := by
    rcases second.new key rule id held with held | ⟨route, mem, brought⟩
    · refine (first.new key rule id held).imp_right ?_
      rintro ⟨route, mem, brought⟩
      exact ⟨route, List.mem_append_left _ mem, brought⟩
    · exact .inr ⟨route, List.mem_append_right _ mem, brought⟩
  left key rule id held := by
    rw [Changeover.append_stop, List.mem_append]
    rcases first.left key rule id held with held | stop
    · exact (second.left key rule id held).imp_right .inr
    · exact .inr (.inl stop)
  stopped id stop := by
    rw [Changeover.append_stop, List.mem_append] at stop
    rcases stop with stop | stop
    · obtain ⟨⟨key, mem, rule, held⟩, gone⟩ := first.stopped id stop
      refine ⟨⟨key, List.mem_append_left _ mem, rule, held⟩, fun key' rule' held' => ?_⟩
      rcases second.new key' rule' id held' with held' | brought
      · exact gone key' rule' held'
      · exact new key' rule' key rule id brought held
    · obtain ⟨⟨key, mem, rule, held⟩, gone⟩ := second.stopped id stop
      refine ⟨⟨key, List.mem_append_right _ mem, rule, ?_⟩, gone⟩
      rcases first.new key rule id held with held | ⟨route, brought, rfl, _⟩
      · exact held
      · exact absurd mem (apart route brought)
  started id start := by
    rw [Changeover.append_start, List.mem_append] at start
    rcases start with start | start
    · obtain ⟨route, mem, rule, held⟩ := first.started id start
      have same := second.frame route.key (apart route mem)
      exact ⟨route, List.mem_append_left _ mem, rule, (holds_congr same).2 held⟩
    · obtain ⟨route, mem, rule, held⟩ := second.started id start
      exact ⟨route, List.mem_append_right _ mem, rule, held⟩
  runs route mem rule id held := by
    rw [Changeover.append_start, List.mem_append]
    rcases List.mem_append.1 mem with mem | mem
    · have same := second.frame route.key (apart route mem)
      exact (first.runs route mem rule id ((holds_congr same).1 held)).imp_left .inl
    · exact (second.runs route mem rule id held).imp_left .inr

end Routes

end TunnelIngress
