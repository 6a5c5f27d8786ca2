import TunnelIngress.Ingress.Watch

/-!
# What watch events do

The outcome of each event of a watch, and which keys it queues.
-/

namespace TunnelIngress

namespace Watch

variable {α : Type} [Indexed α]

/-- An object stands under its own reference, which names a namespace. -/
def Placed (table : Table ObjectRef α) : Prop :=
  ∀ ref object, table.get? ref = some object → refOf? object = some ref ∧ ref.ns.isSome

/-- A change of an object, of which there may be none before or after, that is worth a work item. -/
def Relevant (admission : Admission) (before after : Option α) : Prop :=
  before ≠ after ∧ (before.any (Admissible.admitted admission) = true ∨
    after.any (Admissible.admitted admission) = true)

/-! ### The cache and the buffer -/

theorem Placed.insert {table : Table ObjectRef α} (placed : Placed table) {ref : ObjectRef} {object : α}
    (own : refOf? object = some ref) (named : ref.ns.isSome) : Placed (table.insert ref object) := by
  intro other found hit
  rw [Table.get?_insert] at hit
  split at hit
  · rename_i same
    cases hit
    exact same ▸ ⟨own, named⟩
  · exact placed other found hit

theorem Placed.erase {table : Table ObjectRef α} (placed : Placed table) (ref : ObjectRef) :
    Placed (table.erase ref) := by
  intro other found hit
  rw [Table.get?_erase] at hit
  split at hit
  · cases hit
  · exact placed other found hit

theorem placed_empty : Placed (∅ : Table ObjectRef α) := by
  simp [Placed]

theorem ref_of_placed {object : α} {ref : ObjectRef} (own : refOf? object = some ref)
    (placed : (KubernetesObject.metadata object).ns.isSome) : ref.ns.isSome := by
  simp only [refOf?, Option.map_eq_some_iff] at own
  obtain ⟨name, _, rfl⟩ := own
  exact placed

/-- Where every object has a namespace, a lookup finds nothing without one. -/
theorem get?_of_placed {cache : Cache α} (placed : Placed cache.entries) (ref : ObjectRef) :
    cache.get? ref = cache.entries.get? ref := by
  have none : cache.entries.get? { ref with ns := none } = none := by
    rw [Option.eq_none_iff_forall_ne_some]
    intro object hit
    simpa using (placed _ object hit).2
  rw [Cache.get?, none, Option.or_none]

theorem workOf_eq {object : α} {key : ResourceKey}
    (own : refOf? object = some ⟨key.name, some key.ns⟩) :
    workOf object = ⟨KubernetesObject.kind α, key⟩ := by
  simp only [refOf?, Option.map_eq_some_iff, ObjectRef.mk.injEq] at own
  obtain ⟨name, named, rfl, ns⟩ := own
  simp [workOf, keyOf, Metadata.key, ResourceKey.ofMetadata, named, ns]

/-! ### What an event queues -/

/-- A change is queued unless it is no change, or neither side is admitted. -/
theorem changed_work (admission : Admission) (index : IngressIndex) (old : Option α) (new : α) :
    Relevant admission old (some new) → (changed admission index old new).2 = [workOf new] := by
  rintro ⟨differs, admitted⟩
  have other : (old.any fun before => Indexed.same before new) = false := by
    rw [Bool.eq_false_iff]
    intro same
    rw [Option.any_eq_true] at same
    obtain ⟨before, rfl, same⟩ := same
    exact differs (congrArg some ((Indexed.same_iff before new).1 same))
  have worth : (old.any (Admissible.admitted admission) ||
      Admissible.admitted admission new) = true := by
    simpa [Bool.or_eq_true] using admitted
  simp [changed, other, worth]

theorem deletedAll_work (admission : Admission) (index : IngressIndex) (gone : List α) :
    (deletedAll admission index gone).2 =
      (gone.filter (Admissible.admitted admission)).map workOf := by
  suffices general : ∀ (work : List WorkKey) (index : IngressIndex),
      (gone.foldl (fun (done : IngressIndex × List WorkKey) object =>
        ((deleted admission done.1 object).1, done.2 ++ (deleted admission done.1 object).2))
        (index, work)).2 =
        work ++ (gone.filter (Admissible.admitted admission)).map workOf from
    (general [] index).trans (List.nil_append _)
  intro work index
  induction gone generalizing work index with
  | nil => simp
  | cons object rest ih =>
    rw [List.foldl_cons, ih]
    by_cases admitted : Admissible.admitted admission object = true <;>
      simp [deleted, admitted]

/-! ### The outcomes of single changes -/

variable {admission : Admission} {index : IngressIndex} {watch : Watch α} {outcome : Outcome α} {object : α}

theorem handle_apply (handled : watch.handle admission index (.apply object) = some outcome) :
    ∃ ref, refOf? object = some ref ∧ outcome =
      { watch := { watch with cache := watch.cache.apply ref object }
        index := (changed admission index (watch.cache.get? ref) object).1
        work := (changed admission index (watch.cache.get? ref) object).2 } := by
  obtain ⟨ref, own, handled⟩ := Option.bind_eq_some_iff.1 handled
  exact ⟨ref, own, (Option.some.inj handled).symm⟩

theorem handle_delete (handled : watch.handle admission index (.delete object) = some outcome) :
    ∃ ref, refOf? object = some ref ∧ outcome =
      { watch := { watch with cache := watch.cache.delete ref }
        index := (deleted admission index object).1
        work := (deleted admission index object).2 } := by
  obtain ⟨ref, own, handled⟩ := Option.bind_eq_some_iff.1 handled
  exact ⟨ref, own, (Option.some.inj handled).symm⟩

theorem handle_listItem (handled : watch.handle admission index (.listItem object) = some outcome) :
    ∃ ref, refOf? object = some ref ∧ outcome =
      { watch := { cache := watch.cache.listItem ref object, listed := ref :: watch.listed }
        index := (changed admission index (watch.cache.get? ref) object).1
        work := (changed admission index (watch.cache.get? ref) object).2 } := by
  obtain ⟨ref, own, handled⟩ := Option.bind_eq_some_iff.1 handled
  exact ⟨ref, own, (Option.some.inj handled).symm⟩

end Watch

/-- Every cached object has a namespace, and stands under its own reference, as events of objects with a
namespace leave it. -/
structure Caches.Namespaced (caches : Caches) : Prop where
  endpoints : Watch.Placed caches.endpoints.entries
  ingresses : Watch.Placed caches.ingresses.entries
  secrets : Watch.Placed caches.secrets.entries
  services : Watch.Placed caches.services.entries

end TunnelIngress
