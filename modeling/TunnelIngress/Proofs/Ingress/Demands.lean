import TunnelIngress.Ingress.Demand

/-!
# What a key calls for

The demand of an ingress and that of a dependency, by what the caches and the index hold.
-/

namespace TunnelIngress

theorem mapM_ok {α β ε : Type} {f : α → Except ε β} {items : List α} {results : List β}
    (done : items.mapM f = .ok results) :
    (∀ result ∈ results, ∃ item ∈ items, f item = .ok result) ∧
      ∀ item ∈ items, ∃ result ∈ results, f item = .ok result := by
  induction items generalizing results with
  | nil =>
    cases done
    simp
  | cons item rest ih =>
    rw [List.mapM_cons] at done
    cases first : f item with
    | error fault => simp [first, bind, Except.bind] at done
    | ok result =>
      cases others : rest.mapM f with
      | error fault => simp [first, others, bind, Except.bind] at done
      | ok more =>
        simp only [first, others, bind, Except.bind, pure, Except.pure, Except.ok.injEq] at done
        subst done
        obtain ⟨sound, complete⟩ := ih others
        refine ⟨fun found mem => ?_, fun given mem => ?_⟩
        · rcases List.mem_cons.1 mem with rfl | mem
          · exact ⟨item, List.mem_cons_self, first⟩
          · obtain ⟨given, mem, same⟩ := sound found mem
            exact ⟨given, List.mem_cons_of_mem _ mem, same⟩
        · rcases List.mem_cons.1 mem with rfl | mem
          · exact ⟨result, List.mem_cons_self, first⟩
          · obtain ⟨found, mem, same⟩ := complete given mem
            exact ⟨found, List.mem_cons_of_mem _ mem, same⟩

theorem mapM_total {α β ε : Type} {f : α → Except ε β} {items : List α}
    (total : ∀ item ∈ items, ∃ result, f item = .ok result) :
    ∃ results, items.mapM f = .ok results := by
  induction items with
  | nil => exact ⟨[], rfl⟩
  | cons item rest ih =>
    obtain ⟨result, first⟩ := total item List.mem_cons_self
    obtain ⟨results, others⟩ := ih fun item mem => total item (List.mem_cons_of_mem _ mem)
    exact ⟨result :: results, by simp [List.mapM_cons, first, others, bind, Except.bind, pure, Except.pure]⟩

/-- The annotations of an ingress are within the range of durations. -/
def Ingress.Readable (ingress : Ingress) : Prop :=
  ∃ options, TunnelOptions.ofAnnotations (ingress.metadata.annotations.getD []) = .ok options

/-- Whether an ingress has a plan is a matter of its annotations alone. -/
theorem RoutePlan.ofIngress_ok_iff {caches : Caches} {resolver : SecretResolver}
    {settings : TunnelSettings} {ingress : Ingress} :
    (∃ plan, ofIngress caches resolver settings ingress = .ok plan) ↔ ingress.Readable := by
  unfold ofIngress Ingress.Readable
  cases TunnelOptions.ofAnnotations (ingress.metadata.annotations.getD []) with
  | error fault => simp [bind, Except.bind]
  | ok options => simp [bind, Except.bind, pure, Except.pure]

namespace Demand

variable {caches : Caches} {index : IngressIndex} {settings : TunnelSettings} {keys : List ResourceKey}
  {key : ResourceKey} {kind : Kind} {demand : Demand}

/-- An ingress that is cached and of the controller's class. -/
def wanted (caches : Caches) (index : IngressIndex) (key : ResourceKey) : Option Ingress :=
  (caches.ingresses.find? key).filter (·.hasClass index.className)

theorem plans_eq : plans caches index settings keys =
    (keys.filterMap (wanted caches index)).mapM (RoutePlan.ofIngress caches index.resolver settings) := by
  unfold plans wanted
  rw [List.filter_filterMap]

theorem mem_plans {found : List RoutePlan} (ok : plans caches index settings keys = .ok found) :
    (∀ plan ∈ found, ∃ key ∈ keys, ∃ ingress, wanted caches index key = some ingress ∧
      RoutePlan.ofIngress caches index.resolver settings ingress = .ok plan) ∧
    ∀ key ∈ keys, ∀ ingress, wanted caches index key = some ingress →
      ∃ plan ∈ found, RoutePlan.ofIngress caches index.resolver settings ingress = .ok plan := by
  rw [plans_eq] at ok
  obtain ⟨sound, complete⟩ := mapM_ok ok
  constructor
  · intro plan mem
    obtain ⟨ingress, mem, built⟩ := sound plan mem
    obtain ⟨key, mem, hit⟩ := List.mem_filterMap.1 mem
    exact ⟨key, mem, ingress, hit, built⟩
  · intro key mem ingress hit
    exact complete ingress (List.mem_filterMap.2 ⟨key, mem, hit⟩)

theorem ofIngress_cases (ok : ofIngress caches index settings key = .ok demand) :
    (∃ ingress plan, wanted caches index key = some ingress ∧ demand = .update plan ∧
      RoutePlan.ofIngress caches index.resolver settings ingress = .ok plan) ∨
    wanted caches index key = none ∧ demand = .remove key := by
  unfold ofIngress at ok
  rw [plans_eq] at ok
  cases hit : wanted caches index key with
  | none =>
    simp only [List.filterMap_cons, List.filterMap_nil, hit, List.mapM_nil, pure, Except.pure, bind,
      Except.bind, Except.ok.injEq] at ok
    exact .inr ⟨rfl, ok.symm⟩
  | some ingress =>
    cases built : RoutePlan.ofIngress caches index.resolver settings ingress with
    | error fault => simp [hit, built, bind, Except.bind] at ok
    | ok plan =>
      simp only [List.filterMap_cons, List.filterMap_nil, hit, List.mapM_cons, List.mapM_nil, built, pure,
        Except.pure, bind, Except.bind, Except.ok.injEq] at ok
      exact .inl ⟨ingress, plan, rfl, ok.symm, built⟩

/-- An object that some ingresses depend on calls for their routes, or for dropping what needs it. -/
theorem ofDependency_cases {dependents : List ResourceKey}
    (ok : ofDependency caches index settings kind key dependents = .ok demand) :
    dependents = [] ∧ demand = .nothing ∨
    (∃ found, caches.has kind key = true ∧ plans caches index settings dependents = .ok found ∧
      demand = .refresh found) ∨
    caches.has kind key = false ∧ demand = .drop kind key dependents := by
  unfold ofDependency at ok
  split at ok
  · rename_i none
    cases ok
    exact .inl ⟨List.isEmpty_iff.1 none, rfl⟩
  · split at ok
    · rename_i there
      cases planned : plans caches index settings dependents with
      | error fault => simp [planned, Except.map] at ok
      | ok found =>
        simp only [planned, Except.map, Except.ok.injEq] at ok
        exact .inr (.inl ⟨found, there, rfl, ok.symm⟩)
    · rename_i absent
      cases ok
      exact .inr (.inr ⟨by simpa using absent, rfl⟩)

theorem ofKey_dependency (caches : Caches) (index : IngressIndex) (settings : TunnelSettings)
    (key : ResourceKey) (other : kind ≠ .ingress) : ofKey caches index settings kind key =
      ((index.lookup kind key).1, ofDependency caches (index.lookup kind key).1 settings kind key
        (index.lookup kind key).2) := by
  cases kind with
  | ingress => exact absurd rfl other
  | _ => rfl

/-- Lookups only count. -/
theorem ofKey_className (caches : Caches) (index : IngressIndex) (settings : TunnelSettings) (kind : Kind)
    (key : ResourceKey) : (ofKey caches index settings kind key).1.className = index.className := by
  cases kind <;> rfl

theorem ofIngress_unwanted (settings : TunnelSettings) (unwanted : wanted caches index key = none) :
    ofIngress caches index settings key = .ok (.remove key) := by
  unfold ofIngress
  rw [plans_eq, List.filterMap_cons, unwanted]
  rfl

/-- No key calls for the removal of routes one after the other. -/
theorem build_last {found : IngressIndex} (ok : ofKey caches index settings kind key = (found, .ok demand))
    {fleet later : Fleet} {mutation : Mutation} (built : demand.build fleet = (later, some mutation))
    (begun : Fleet) (routes : Routes) : (mutation.plan begun routes).later = [] := by
  by_cases taken : kind = .ingress
  · subst taken
    have ok : ofIngress caches index settings key = .ok demand := congrArg Prod.snd ok
    rcases ofIngress_cases ok with ⟨_, plan, _, rfl, _⟩ | ⟨_, rfl⟩
    · cases built
      rfl
    · cases built
      rfl
  · rw [ofKey_dependency _ _ _ _ taken] at ok
    rcases ofDependency_cases (congrArg Prod.snd ok) with ⟨_, rfl⟩ | ⟨plans, _, _, rfl⟩ | ⟨_, rfl⟩
    · cases built
    · cases built
      rfl
    · cases built
      cases kind with
      | ingress => exact absurd rfl taken
      | _ => rfl

/-- A key calls for something unless annotations of an ingress are beyond the range of durations. -/
theorem ofKey_total (settings : TunnelSettings) (kind : Kind) (key : ResourceKey)
    (readable : ∀ key ingress, caches.ingresses.find? key = some ingress → ingress.Readable) :
    ∃ found demand, ofKey caches index settings kind key = (found, .ok demand) := by
  have planned (index : IngressIndex) (keys : List ResourceKey) :
      ∃ found, plans caches index settings keys = .ok found := by
    rw [plans_eq]
    refine mapM_total fun ingress mem => ?_
    obtain ⟨key, _, hit⟩ := List.mem_filterMap.1 mem
    exact RoutePlan.ofIngress_ok_iff.2 (readable key ingress (Option.filter_eq_some_iff.1 hit).1)
  by_cases taken : kind = .ingress
  · subst taken
    obtain ⟨found, ok⟩ := planned index [key]
    refine ⟨index, ?_⟩
    simp only [ofKey, ofIngress, ok, bind, Except.bind]
    cases found with
    | nil => exact ⟨.remove key, rfl⟩
    | cons plan _ => exact ⟨.update plan, rfl⟩
  · rw [ofKey_dependency _ _ _ _ taken]
    obtain ⟨found, ok⟩ := planned (index.lookup kind key).1 (index.lookup kind key).2
    refine ⟨(index.lookup kind key).1, ?_⟩
    unfold ofDependency
    split
    · exact ⟨.nothing, rfl⟩
    · split
      · exact ⟨.refresh found, by rw [ok]; rfl⟩
      · exact ⟨.drop kind key _, rfl⟩

end Demand

end TunnelIngress
