import TunnelIngress.Proofs.Ingress.WatchEvents
import TunnelIngress.Proofs.Resource.KeyText

/-!
# A change of one object

An object that is applied or deleted changes what the cache returns for its own key and for no other,
and its key is queued when the change is worth it.
-/

namespace TunnelIngress

/-- The metadata of an object that has a namespace and a name fit for a key. -/
structure Metadata.Plain (metadata : Metadata) : Prop where
  ns : ∃ ns, metadata.ns = some ns ∧ PlainText ns
  name : ∃ name, metadata.name = some name ∧ PlainText name

theorem Metadata.Plain.key {metadata : Metadata} (plain : metadata.Plain) : metadata.key.Plain := by
  obtain ⟨⟨ns, placed, plain_ns⟩, name, named, plain_name⟩ := plain
  exact ⟨by simpa [Metadata.key, ResourceKey.ofMetadata, placed] using plain_ns,
    by simpa [Metadata.key, ResourceKey.ofMetadata, named] using plain_name⟩

theorem Metadata.Plain.named {metadata : Metadata} (plain : metadata.Plain) : metadata.ns.isSome := by
  obtain ⟨ns, placed, _⟩ := plain.ns
  simp [placed]

namespace Watch

variable {α : Type} [Indexed α] {admission : Admission} {index : IngressIndex} {watch : Watch α}
  {outcome : Outcome α} {object : α} {key : ResourceKey}

/-- What an event does that changes the object of one key. -/
structure Change (admission : Admission) (watch : Watch α) (outcome : Outcome α) (key : ResourceKey)
    (after : Option α) : Prop where
  plain : key.Plain
  placed : Placed outcome.watch.cache.entries
  found : ∀ other, outcome.watch.cache.find? other = if other = key then after else watch.cache.find? other
  queued : Relevant admission (watch.cache.find? key) after →
    ⟨KubernetesObject.kind α, key⟩ ∈ outcome.work
  only : ∀ work ∈ outcome.work, work = ⟨KubernetesObject.kind α, key⟩

theorem find?_of_placed {cache : Cache α} (placed : Placed cache.entries) (key : ResourceKey) :
    cache.find? key = cache.entries.get? ⟨key.name, some key.ns⟩ :=
  get?_of_placed placed _

theorem ref_eq_iff {key other : ResourceKey} :
    (⟨other.name, some other.ns⟩ : ObjectRef) = ⟨key.name, some key.ns⟩ ↔ other = key := by
  obtain ⟨ns, name⟩ := key
  obtain ⟨ns', name'⟩ := other
  simp [and_comm]

theorem changed_only {before : Option α} {work : WorkKey}
    (mem : work ∈ (changed admission index before object).2) : work = workOf object := by
  unfold changed at mem
  dsimp only at mem
  split at mem
  · cases mem
  · split at mem
    · exact List.mem_singleton.1 mem
    · cases mem

theorem changed_index {before : Option α} :
    (changed admission index before object).1 = Indexed.index object index := by
  unfold changed
  dsimp only
  split
  · rfl
  · split <;> rfl

theorem ref_of_named {ref : ObjectRef} (own : refOf? object = some ref)
    (named : (KubernetesObject.metadata object).ns.isSome) :
    ref = ⟨(keyOf object).name, some (keyOf object).ns⟩ := by
  obtain ⟨name, hit, rfl⟩ := Option.map_eq_some_iff.1 own
  obtain ⟨ns, there⟩ := Option.isSome_iff_exists.1 named
  simp [keyOf, Metadata.key, ResourceKey.ofMetadata, hit, there]

theorem named_of_placed {table : Table ObjectRef α} (placed : Placed table) {ref : ObjectRef}
    (hit : table.get? ref = some object) : (KubernetesObject.metadata object).ns.isSome := by
  obtain ⟨own, named⟩ := placed ref object hit
  obtain ⟨_, _, rfl⟩ := Option.map_eq_some_iff.1 own
  exact named

/-- Where every object has a namespace, the lookup of a key finds the object that has this key. -/
theorem find?_eq_some_iff {cache : Cache α} (placed : Placed cache.entries) :
    cache.find? key = some object ↔ object ∈ cache.objects ∧ keyOf object = key := by
  rw [find?_of_placed placed, Cache.objects, Table.mem_values_iff]
  constructor
  · intro hit
    exact ⟨⟨_, hit⟩, congrArg WorkKey.key (workOf_eq (placed _ object hit).1)⟩
  · rintro ⟨⟨ref, hit⟩, rfl⟩
    exact ref_of_named (placed ref object hit).1 (named_of_placed placed hit) ▸ hit

/-- Caches that have the same objects of a key find the same under it. -/
theorem find?_congr {before after : Cache α} (placed : Placed before.entries)
    (placed' : Placed after.entries)
    (agree : ∀ object, (KubernetesObject.metadata object).ns = some key.ns → keyOf object = key →
      (object ∈ before.objects ↔ object ∈ after.objects)) : before.find? key = after.find? key := by
  have spaced {cache : Cache α} (placed : Placed cache.entries) {object : α}
      (mem : object ∈ cache.objects) :
      (KubernetesObject.metadata object).ns = some (keyOf object).ns := by
    obtain ⟨ref, hit⟩ := Table.mem_values_iff.1 mem
    obtain ⟨ns, there⟩ := Option.isSome_iff_exists.1 (named_of_placed placed hit)
    simp [keyOf, Metadata.key, ResourceKey.ofMetadata, there]
  ext object
  rw [find?_eq_some_iff placed, find?_eq_some_iff placed']
  refine and_congr_left fun own => ⟨fun mem => ?_, fun mem => ?_⟩
  · exact (agree object (own ▸ spaced placed mem) own).1 mem
  · exact (agree object (own ▸ spaced placed' mem) own).2 mem

theorem keyOf_of_found (placed : Placed watch.cache.entries)
    (found : watch.cache.find? key = some object) : keyOf object = key :=
  ((find?_eq_some_iff placed).1 found).2

theorem find?_apply {cache : Cache α} (placed : Placed cache.entries)
    (own : refOf? object = some ⟨key.name, some key.ns⟩) (other : ResourceKey) :
    (cache.apply ⟨key.name, some key.ns⟩ object).find? other =
      if other = key then some object else cache.find? other := by
  have kept : Placed (cache.apply ⟨key.name, some key.ns⟩ object).entries := placed.insert own rfl
  rw [find?_of_placed kept, Cache.apply, Table.get?_insert, find?_of_placed placed]
  simp only [ref_eq_iff]

theorem find?_delete {cache : Cache α} (placed : Placed cache.entries) (key other : ResourceKey) :
    (cache.delete ⟨key.name, some key.ns⟩).find? other =
      if other = key then none else cache.find? other := by
  have kept : Placed (cache.delete ⟨key.name, some key.ns⟩).entries := placed.erase _
  rw [find?_of_placed kept, Cache.delete, Table.get?_erase, find?_of_placed placed]
  simp only [ref_eq_iff]

theorem apply_found (placed : Placed watch.cache.entries)
    (named : (KubernetesObject.metadata object).ns.isSome)
    (handled : watch.handle admission index (.apply object) = some outcome) :
    Placed outcome.watch.cache.entries ∧
      (∀ other, outcome.watch.cache.find? other =
        if other = keyOf object then some object else watch.cache.find? other) ∧
      (Relevant admission (watch.cache.find? (keyOf object)) (some object) →
        ⟨KubernetesObject.kind α, keyOf object⟩ ∈ outcome.work) := by
  obtain ⟨ref, own, rfl⟩ := handle_apply handled
  obtain rfl := ref_of_named own named
  refine ⟨placed.insert own rfl, find?_apply placed own, fun relevant => ?_⟩
  have found : watch.cache.get? ⟨(keyOf object).name, some (keyOf object).ns⟩ =
      watch.cache.find? (keyOf object) := rfl
  rw [found, changed_work admission index _ object relevant]
  exact List.mem_singleton_self _

theorem delete_found (placed : Placed watch.cache.entries)
    (named : (KubernetesObject.metadata object).ns.isSome)
    (cached : watch.cache.find? (keyOf object) = some object)
    (handled : watch.handle admission index (.delete object) = some outcome) :
    Placed outcome.watch.cache.entries ∧
      (∀ other, outcome.watch.cache.find? other =
        if other = keyOf object then none else watch.cache.find? other) ∧
      (Relevant admission (watch.cache.find? (keyOf object)) none →
        ⟨KubernetesObject.kind α, keyOf object⟩ ∈ outcome.work) := by
  obtain ⟨ref, own, rfl⟩ := handle_delete handled
  obtain rfl := ref_of_named own named
  refine ⟨placed.erase _, find?_delete placed _, fun relevant => ?_⟩
  have admitted : Admissible.admitted admission object = true := by
    simpa [Relevant, cached] using relevant
  simp [deleted, admitted, workOf]

theorem apply_change (placed : Placed watch.cache.entries)
    (plain : (KubernetesObject.metadata object).Plain)
    (handled : watch.handle admission index (.apply object) = some outcome) :
    Change admission watch outcome (keyOf object) (some object) ∧
      outcome.index = Indexed.index object index := by
  obtain ⟨kept, found, queued⟩ := apply_found placed plain.named handled
  obtain ⟨_, _, rfl⟩ := handle_apply handled
  exact ⟨⟨plain.key, kept, found, queued, fun work mem => changed_only mem⟩, changed_index⟩

theorem delete_change (placed : Placed watch.cache.entries)
    (plain : (KubernetesObject.metadata object).Plain)
    (cached : watch.cache.find? (keyOf object) = some object)
    (handled : watch.handle admission index (.delete object) = some outcome) :
    Change admission watch outcome (keyOf object) none ∧
      outcome.index = Indexed.unindex object index := by
  obtain ⟨kept, found, queued⟩ := delete_found placed plain.named cached handled
  obtain ⟨_, _, rfl⟩ := handle_delete handled
  refine ⟨⟨plain.key, kept, found, queued, fun work mem => ?_⟩, rfl⟩
  unfold deleted at mem
  dsimp only at mem
  split at mem
  · exact List.mem_singleton.1 mem
  · cases mem

theorem of_irrelevant {before after : Option α} (irrelevant : ¬ Relevant admission before after) :
    before = after ∨ before.any (Admissible.admitted admission) = false ∧
      after.any (Admissible.admitted admission) = false := by
  by_cases same : before = after
  · exact .inl same
  · simpa [Relevant, same] using irrelevant

theorem changed_dropped {before : Option α} (index : IngressIndex)
    (irrelevant : ¬ Relevant admission before (some object)) :
    (changed admission index before object).2 = [] := by
  unfold changed
  rcases of_irrelevant irrelevant with rfl | ⟨refused, refused'⟩
  · simp [Indexed.same_iff]
  · have refused' : Admissible.admitted admission object = false := refused'
    simp [refused, refused']

theorem deleted_dropped (index : IngressIndex) (irrelevant : ¬ Relevant admission (some object) none) :
    (deleted admission index object).2 = [] := by
  have refused : Admissible.admitted admission object = false := by simpa [Relevant] using irrelevant
  simp [deleted, refused]

/-- What is seen of an object that is not admitted is what is seen when there is none. Then a change that
is not worth a work item is not seen. -/
theorem same_view {β : Type} {before after : Option α} (irrelevant : ¬ Relevant admission before after)
    (view : Option α → β)
    (blind : ∀ object, object.any (Admissible.admitted admission) = false → view object = view none) :
    view before = view after := by
  rcases of_irrelevant irrelevant with same | ⟨refused, refused'⟩
  · rw [same]
  · rw [blind _ refused, blind _ refused']

theorem Change.same_or_queued {β : Type} {after : Option α}
    (change : Change admission watch outcome key after) (view : Option α → β)
    (blind : ∀ object, object.any (Admissible.admitted admission) = false → view object = view none)
    (place : ResourceKey) :
    view (watch.cache.find? place) = view (outcome.watch.cache.find? place) ∨
      place = key ∧ ⟨KubernetesObject.kind α, place⟩ ∈ outcome.work := by
  rw [change.found]
  by_cases here : place = key
  · subst here
    rw [if_pos rfl]
    by_cases relevant : Relevant admission (watch.cache.find? place) after
    · exact .inr ⟨rfl, change.queued relevant⟩
    · exact .inl (same_view relevant view blind)
  · rw [if_neg here]
    exact .inl rfl

end Watch

end TunnelIngress
