import TunnelIngress.Proofs.Control.IdleQueue
import TunnelIngress.Proofs.Ingress.Relist
import TunnelIngress.Proofs.Ingress.SingleChanges
import Mathlib.Data.List.Nodup

/-!
# A list as a series of changes

A list compares its objects with a cache that stays as it was until the list is complete, and only its end
finds what is gone. As long as no worker takes a turn, that leaves the cache, the index and the queue as
the single changes would that the list stands for.
-/

namespace TunnelIngress

/-- A watch beside the index and the queue that it feeds. -/
structure WatchFeed (α : Type) where
  watch : Watch α
  index : IngressIndex
  queue : WorkQueue

/-- An object with a namespace is found under its own reference only. -/
theorem Cache.get?_apply_other {α : Type} {cache : Cache α} {ref other : ObjectRef} (object : α)
    (spaced : ref.ns.isSome)
    (ne : other ≠ ref) : (cache.apply ref object).get? other = cache.get? other := by
  have bare : ({ other with ns := none } : ObjectRef) ≠ ref := by
    rintro rfl
    cases spaced
  simp only [get?, apply, Table.get?_insert, if_neg ne, if_neg bare]

theorem WorkQueue.addAll_append (queue : WorkQueue) (items more : List String) :
    queue.addAll (items ++ more) = (queue.addAll items).addAll more :=
  List.foldl_append

namespace Watch

variable {α : Type} [Indexed α] {admission : Admission}

/-- Every object stands under its own reference. -/
def Filed (table : Table ObjectRef α) : Prop :=
  ∀ ref object, table.get? ref = some object → refOf? object = some ref

theorem Filed.insert {table : Table ObjectRef α} (filed : Filed table) {ref : ObjectRef} {object : α}
    (own : refOf? object = some ref) : Filed (table.insert ref object) := by
  intro other found hit
  rw [Table.get?_insert] at hit
  split at hit
  · rename_i same
    cases hit
    exact same ▸ own
  · exact filed other found hit

theorem Filed.erase {table : Table ObjectRef α} (filed : Filed table) (ref : ObjectRef) :
    Filed (table.erase ref) := by
  intro other found hit
  rw [Table.get?_erase] at hit
  split at hit
  · cases hit
  · exact filed other found hit

/-- Whatever events come, objects stand under their own references. -/
theorem Filed.handle {watch : Watch α} {index : IngressIndex} {event : WatchEvent α}
    {outcome : Outcome α} (cached : Filed watch.cache.entries) (buffered : Filed watch.cache.buffer)
    (handled : watch.handle admission index event = some outcome) :
    Filed outcome.watch.cache.entries ∧ Filed outcome.watch.cache.buffer := by
  have empty : Filed (∅ : Table ObjectRef α) := by simp [Filed]
  cases event with
  | apply object =>
    obtain ⟨ref, own, rfl⟩ := handle_apply handled
    exact ⟨cached.insert own, buffered⟩
  | delete object =>
    obtain ⟨ref, own, rfl⟩ := handle_delete handled
    exact ⟨cached.erase ref, buffered⟩
  | beginList =>
    cases handled
    exact ⟨cached, empty⟩
  | listItem object =>
    obtain ⟨ref, own, rfl⟩ := handle_listItem handled
    exact ⟨cached, buffered.insert own⟩
  | endList =>
    cases handled
    exact ⟨buffered, empty⟩

theorem deletedAll_cons (index : IngressIndex) (object : α) (rest : List α) :
    deletedAll admission index (object :: rest) =
      let first := deleted admission index object
      let others := deletedAll admission first.1 rest
      (others.1, first.2 ++ others.2) := by
  suffices general : ∀ (work : List WorkKey) (index : IngressIndex),
      rest.foldl (fun (done : IngressIndex × List WorkKey) object =>
        ((deleted admission done.1 object).1, done.2 ++ (deleted admission done.1 object).2))
        (index, work) = ((deletedAll admission index rest).1,
          work ++ (deletedAll admission index rest).2) from
    general _ _
  induction rest with
  | nil => simp [deletedAll]
  | cons next rest ih =>
    intro work index
    have once : deletedAll admission index (next :: rest) = _ := ih _ _
    rw [List.foldl_cons, ih, once]
    exact Prod.ext rfl (List.append_assoc work _ _)

/-- The cached objects that are none of some objects, in the order of the cache. -/
def unlisted (watch : Watch α) (objects : List α) : List α :=
  watch.cache.objects.filter fun object => refOf? object ∉ objects.map refOf?

theorem refOf?_of_mem {cache : Cache α} (filed : Filed cache.entries) {object : α}
    (mem : object ∈ cache.objects) :
    ∃ ref, refOf? object = some ref ∧ cache.entries.get? ref = some object := by
  obtain ⟨ref, hit⟩ := Table.mem_values_iff.1 mem
  exact ⟨ref, filed ref object hit, hit⟩

theorem mem_unlisted {watch : Watch α} (filed : Filed watch.cache.entries) {objects : List α}
    {ref : ObjectRef} : some ref ∈ (watch.unlisted objects).map refOf? ↔
      (watch.cache.entries.get? ref).isSome ∧ some ref ∉ objects.map refOf? := by
  simp only [unlisted, List.mem_map, List.mem_filter, decide_eq_true_eq]
  constructor
  · rintro ⟨object, ⟨mem, absent⟩, own⟩
    obtain ⟨place, own', hit⟩ := refOf?_of_mem filed mem
    obtain rfl := Option.some.inj (own'.symm.trans own)
    exact ⟨Option.isSome_iff_exists.2 ⟨object, hit⟩, by simpa only [List.mem_map, own] using absent⟩
  · rintro ⟨there, absent⟩
    obtain ⟨object, hit⟩ := Option.isSome_iff_exists.1 there
    have own := filed ref object hit
    refine ⟨object, ⟨Table.mem_values_iff.2 ⟨ref, hit⟩, ?_⟩, own⟩
    simpa only [List.mem_map, own] using absent

/-- When the listed references are those of some objects, the other cached ones are gone. -/
theorem gone_eq_unlisted {before listed : Watch α} (filed : Filed before.cache.entries)
    {objects : List α} (entries : listed.cache.entries = before.cache.entries)
    (seen : ∀ ref, ref ∈ listed.listed ↔ some ref ∈ objects.map refOf?) :
    listed.gone = before.unlisted objects := by
  unfold gone unlisted Cache.objects
  rw [entries]
  refine List.filter_congr fun object mem => ?_
  obtain ⟨ref, own, _⟩ := refOf?_of_mem filed mem
  rw [own, Bool.eq_iff_iff]
  simp [seen]

/-- Objects with a namespace and keys of their own have references of their own. -/
theorem nodup_refs {objects : List α}
    (named : ∀ object ∈ objects, (KubernetesObject.metadata object).name.isSome ∧
      (KubernetesObject.metadata object).ns.isSome)
    (distinct : (objects.map keyOf).Nodup) :
    (∀ object ∈ objects, ∃ ref, refOf? object = some ref ∧ ref.ns.isSome) ∧
      (objects.map refOf?).Nodup := by
  have placed : ∀ object ∈ objects, refOf? object = some ⟨(keyOf object).name, some (keyOf object).ns⟩ := by
    intro object mem
    obtain ⟨name, spaced⟩ := named object mem
    obtain ⟨text, hit⟩ := Option.isSome_iff_exists.1 name
    have own : refOf? object = some ⟨text, (KubernetesObject.metadata object).ns⟩ := by
      simp [refOf?, hit]
    rw [own, ref_of_named own spaced]
  refine ⟨fun object mem => ⟨_, placed object mem, rfl⟩, ?_⟩
  rw [List.Nodup, List.pairwise_map] at distinct ⊢
  refine distinct.imp_of_mem fun {first second} here there ne same => ne ?_
  rw [placed first here, placed second there] at same
  exact ref_eq_iff.1 (Option.some.inj same)

end Watch

namespace WatchEvent

variable {α : Type} [Indexed α]

/-- A list of some objects, from its beginning to its end. -/
def list (objects : List α) : List (WatchEvent α) :=
  .beginList :: objects.map .listItem ++ [.endList]

/-- The single changes that a list of some objects stands for. -/
def changes (watch : Watch α) (objects : List α) : List (WatchEvent α) :=
  objects.map .apply ++ (watch.unlisted objects).map .delete

end WatchEvent

namespace WatchFeed

variable {α : Type} [Indexed α] {admission : Admission} {feed : WatchFeed α} {objects : List α}

/-- The watch handles an event, and its keys are queued. -/
def handle (admission : Admission) (feed : WatchFeed α) (event : WatchEvent α) : Option (WatchFeed α) :=
  (feed.watch.handle admission feed.index event).map fun outcome =>
    { watch := outcome.watch
      index := outcome.index
      queue := feed.queue.addAll (outcome.work.map (·.text)) }

def handleAll (admission : Admission) (feed : WatchFeed α) (events : List (WatchEvent α)) :
    Option (WatchFeed α) :=
  events.foldlM (handle admission) feed

theorem handleAll_cons (feed : WatchFeed α) (event : WatchEvent α) (rest : List (WatchEvent α)) :
    feed.handleAll admission (event :: rest) =
      (feed.handle admission event).bind (·.handleAll admission rest) :=
  rfl

theorem handleAll_append (feed : WatchFeed α) (events more : List (WatchEvent α)) :
    feed.handleAll admission (events ++ more) =
      (feed.handleAll admission events).bind (·.handleAll admission more) :=
  List.foldlM_append

/-- Objects are indexed, and queued if a cache, which stays as it is, has other versions of them. -/
def shown (admission : Admission) (cache : Cache α) (done : IngressIndex × WorkQueue)
    (objects : List α) : IngressIndex × WorkQueue :=
  objects.foldl
    (fun (done : IngressIndex × WorkQueue) object =>
      let (index, work) := Watch.changed admission done.1 ((refOf? object).bind cache.get?) object
      (index, done.2.addAll (work.map (·.text))))
    done

theorem shown_congr {cache other : Cache α}
    (same : ∀ object ∈ objects, (refOf? object).bind cache.get? = (refOf? object).bind other.get?)
    (done : IngressIndex × WorkQueue) :
    shown admission cache done objects = shown admission other done objects := by
  induction objects generalizing done with
  | nil => rfl
  | cons object rest ih =>
    have rest_same := ih fun object mem => same object (List.mem_cons_of_mem _ mem)
    unfold shown at rest_same ⊢
    rw [List.foldl_cons, List.foldl_cons, same object List.mem_cons_self, rest_same]

/-- What is found under a reference when some objects have been put under theirs. -/
def found (objects : List α) (table : Table ObjectRef α) (ref : ObjectRef) : Option α :=
  (objects.find? fun object => refOf? object = some ref).or (table.get? ref)

theorem found_insert {table : Table ObjectRef α} {object : α} {place : ObjectRef}
    (own : refOf? object = some place) {rest : List α} (apart : refOf? object ∉ rest.map refOf?)
    (ref : ObjectRef) : found rest (table.insert place object) ref = found (object :: rest) table ref := by
  unfold found
  rw [Table.get?_insert, List.find?_cons]
  by_cases here : ref = place
  · subst here
    have none : rest.find? (fun object => refOf? object = some ref) = none := by
      rw [List.find?_eq_none]
      intro other mem same
      exact apart (List.mem_map.2 ⟨other, mem, (of_decide_eq_true same).trans own.symm⟩)
    simp [none, own]
  · have ne : place ≠ ref := fun same => here same.symm
    simp [here, own, ne]

theorem find?_ref_eq_none_iff {ref : ObjectRef} :
    (objects.find? fun object => refOf? object = some ref) = none ↔ some ref ∉ objects.map refOf? := by
  simp

/-- Where each object has a reference of its own, it is what is found under that. -/
theorem found_empty_iff (distinct : (objects.map refOf?).Nodup) {ref : ObjectRef} {object : α} :
    found objects ∅ ref = some object ↔ object ∈ objects ∧ refOf? object = some ref := by
  unfold found
  rw [Table.get?_empty, Option.or_none]
  constructor
  · intro hit
    exact ⟨List.mem_of_find?_eq_some hit, by simpa using List.find?_some hit⟩
  · rintro ⟨mem, own⟩
    cases hit : objects.find? fun object => refOf? object = some ref with
    | none => exact absurd (List.mem_map.2 ⟨object, mem, own⟩) (find?_ref_eq_none_iff.1 hit)
    | some other =>
      have own' : refOf? other = some ref := by simpa using List.find?_some hit
      exact congrArg some
        (List.inj_on_of_nodup_map distinct (List.mem_of_find?_eq_some hit) mem (own'.trans own.symm))

/-- Once the others are taken away, what was there before the objects were put makes no difference. -/
theorem found_only (objects : List α) (table : Table ObjectRef α) (ref : ObjectRef) :
    found objects ∅ ref =
      if (table.get? ref).isSome ∧ some ref ∉ objects.map refOf? then none
      else found objects table ref := by
  unfold found
  cases hit : objects.find? fun object => refOf? object = some ref with
  | none =>
    have absent := find?_ref_eq_none_iff.1 hit
    cases table.get? ref <;> simp [absent]
  | some object =>
    have listed : some ref ∈ objects.map refOf? := by
      by_contra absent
      cases hit.symm.trans (find?_ref_eq_none_iff.2 absent)
    rw [if_neg fun other => other.2 listed]
    rfl

theorem shown_cons {cache : Cache α} {object : α} {ref : ObjectRef} (own : refOf? object = some ref)
    (index : IngressIndex) (queue : WorkQueue) (rest : List α) :
    shown admission cache (index, queue) (object :: rest) =
      let change := Watch.changed admission index (cache.get? ref) object
      shown admission cache (change.1, queue.addAll (change.2.map (·.text))) rest := by
  unfold shown
  rw [List.foldl_cons, own]
  rfl

/-! ### Runs of events of one sort -/

theorem handleAll_apply (admission : Admission)
    (named : ∀ object ∈ objects, ∃ ref, refOf? object = some ref ∧ ref.ns.isSome)
    (distinct : (objects.map refOf?).Nodup) (feed : WatchFeed α) :
    ∃ applied, feed.handleAll admission (objects.map .apply) = some applied ∧
      (applied.index, applied.queue) =
        shown admission feed.watch.cache (feed.index, feed.queue) objects ∧
      ∀ ref, applied.watch.cache.entries.get? ref = found objects feed.watch.cache.entries ref := by
  induction objects generalizing feed with
  | nil => exact ⟨feed, rfl, rfl, fun _ => rfl⟩
  | cons object rest ih =>
    obtain ⟨ref, own, spaced⟩ := named object List.mem_cons_self
    rw [List.map_cons, List.nodup_cons] at distinct
    have others := fun object mem => named object (List.mem_cons_of_mem _ mem)
    let change := Watch.changed admission feed.index (feed.watch.cache.get? ref) object
    let first : WatchFeed α :=
      { watch := { feed.watch with cache := feed.watch.cache.apply ref object }
        index := change.1
        queue := feed.queue.addAll (change.2.map (·.text)) }
    obtain ⟨applied, ran, result, entries⟩ := ih others distinct.2 first
    have step : feed.handle admission (.apply object) = some first := by
      simp [handle, Watch.handle, own, first, change]
    refine ⟨applied, ?_, ?_, fun place => ?_⟩
    · rw [List.map_cons, handleAll_cons, step]
      exact ran
    · rw [result, shown_cons own]
      refine shown_congr (fun other mem => ?_) _
      obtain ⟨place, own', _⟩ := others other mem
      have ne : place ≠ ref := by
        rintro rfl
        exact distinct.1 (List.mem_map.2 ⟨other, mem, own'.trans own.symm⟩)
      rw [own']
      exact Cache.get?_apply_other object spaced ne
    · rw [entries]
      exact found_insert own distinct.1 place

theorem handleAll_listItem (admission : Admission)
    (named : ∀ object ∈ objects, ∃ ref, refOf? object = some ref)
    (distinct : (objects.map refOf?).Nodup) (feed : WatchFeed α) :
    ∃ listed, feed.handleAll admission (objects.map .listItem) = some listed ∧
      (listed.index, listed.queue) =
        shown admission feed.watch.cache (feed.index, feed.queue) objects ∧
      listed.watch.cache.entries = feed.watch.cache.entries ∧
      (∀ ref, listed.watch.cache.buffer.get? ref = found objects feed.watch.cache.buffer ref) ∧
      ∀ ref, ref ∈ listed.watch.listed ↔ some ref ∈ objects.map refOf? ∨ ref ∈ feed.watch.listed := by
  induction objects generalizing feed with
  | nil => exact ⟨feed, rfl, rfl, rfl, fun _ => rfl, by simp⟩
  | cons object rest ih =>
    obtain ⟨ref, own⟩ := named object List.mem_cons_self
    rw [List.map_cons, List.nodup_cons] at distinct
    have others := fun object mem => named object (List.mem_cons_of_mem _ mem)
    let change := Watch.changed admission feed.index (feed.watch.cache.get? ref) object
    let first : WatchFeed α :=
      { watch := { cache := feed.watch.cache.listItem ref object, listed := ref :: feed.watch.listed }
        index := change.1
        queue := feed.queue.addAll (change.2.map (·.text)) }
    obtain ⟨listed, ran, result, entries, buffer, refs⟩ := ih others distinct.2 first
    have step : feed.handle admission (.listItem object) = some first := by
      simp [handle, Watch.handle, own, first, change]
    refine ⟨listed, ?_, ?_, entries, fun place => ?_, fun place => ?_⟩
    · rw [List.map_cons, handleAll_cons, step]
      exact ran
    · rw [result, shown_cons own]
      exact shown_congr (fun other mem => rfl) _
    · rw [buffer]
      exact found_insert own distinct.1 place
    · have seen : place ∈ first.watch.listed ↔ place = ref ∨ place ∈ feed.watch.listed := List.mem_cons
      simp only [refs, seen, List.map_cons, own, List.mem_cons, Option.some.injEq]
      exact or_left_comm.trans or_assoc.symm

theorem handleAll_delete (admission : Admission)
    (named : ∀ object ∈ objects, ∃ ref, refOf? object = some ref)
    (feed : WatchFeed α) :
    let gone := Watch.deletedAll admission feed.index objects
    ∃ deleted, feed.handleAll admission (objects.map .delete) = some deleted ∧
      deleted.index = gone.1 ∧ deleted.queue = feed.queue.addAll (gone.2.map (·.text)) ∧
      ∀ ref, deleted.watch.cache.entries.get? ref =
        if some ref ∈ objects.map refOf? then none else feed.watch.cache.entries.get? ref := by
  induction objects generalizing feed with
  | nil => exact ⟨feed, rfl, rfl, rfl, by simp⟩
  | cons object rest ih =>
    obtain ⟨ref, own⟩ := named object List.mem_cons_self
    have others := fun object mem => named object (List.mem_cons_of_mem _ mem)
    let change := Watch.deleted admission feed.index object
    let first : WatchFeed α :=
      { watch := { feed.watch with cache := feed.watch.cache.delete ref }
        index := change.1
        queue := feed.queue.addAll (change.2.map (·.text)) }
    obtain ⟨deleted, ran, index, queue, entries⟩ := ih others first
    have step : feed.handle admission (.delete object) = some first := by
      simp [handle, Watch.handle, own, first, change]
    refine ⟨deleted, ?_, ?_, ?_, fun place => ?_⟩
    · rw [List.map_cons, handleAll_cons, step]
      exact ran
    · rw [index, Watch.deletedAll_cons]
    · rw [queue, Watch.deletedAll_cons, List.map_append, WorkQueue.addAll_append]
    · have erased : first.watch.cache.entries.get? place =
          if place = ref then none else feed.watch.cache.entries.get? place := Table.get?_erase
      simp only [entries, erased, List.map_cons, own, List.mem_cons, Option.some.injEq]
      by_cases here : place = ref <;> simp [here]

/-- **A list comes to the single changes that it stands for.** Let the objects of a list have a name and
a namespace each, and keys of their own. Then handling the list from its beginning to its end, and applying
its objects and then deleting the cached objects that it does not have, both come to an end. They leave
the same index, the same queue, and the same objects in the cache, which are those of the list. -/
theorem list_as_changes (admission : Admission) (feed : WatchFeed α) (objects : List α)
    (filed : Watch.Filed feed.watch.cache.entries)
    (named : ∀ object ∈ objects, (KubernetesObject.metadata object).name.isSome ∧
      (KubernetesObject.metadata object).ns.isSome)
    (distinct : (objects.map keyOf).Nodup) :
    ∃ listed changed, feed.handleAll admission (WatchEvent.list objects) = some listed ∧
      feed.handleAll admission (WatchEvent.changes feed.watch objects) = some changed ∧
      listed.index = changed.index ∧ listed.queue = changed.queue ∧
      (∀ ref, listed.watch.cache.entries.get? ref = changed.watch.cache.entries.get? ref) ∧
      ∀ ref object, listed.watch.cache.entries.get? ref = some object ↔
        object ∈ objects ∧ refOf? object = some ref := by
  obtain ⟨placed, refs⟩ := Watch.nodup_refs named distinct
  let begun : WatchFeed α := { feed with watch := { cache := feed.watch.cache.beginList, listed := [] } }
  obtain ⟨middle, items, shown_items, entries, buffer, seen⟩ :=
    handleAll_listItem admission (fun object mem => (placed object mem).imp fun _ own => own.1)
      refs begun
  obtain ⟨applied, applies, shown_applies, entries'⟩ :=
    handleAll_apply admission placed refs feed
  have same : (middle.index, middle.queue) = (applied.index, applied.queue) :=
    shown_items.trans ((shown_congr (fun _ _ => rfl) _).trans shown_applies.symm)
  obtain ⟨index, queue⟩ := Prod.mk.inj same
  have gone : middle.watch.gone = feed.watch.unlisted objects :=
    Watch.gone_eq_unlisted filed entries fun ref => (seen ref).trans (by simp [begun])
  have cached : ∀ object ∈ feed.watch.unlisted objects, ∃ ref, refOf? object = some ref := by
    intro object mem
    obtain ⟨ref, own, _⟩ := Watch.refOf?_of_mem filed (List.mem_filter.1 mem).1
    exact ⟨ref, own⟩
  obtain ⟨changed, deletes, index', queue', entries''⟩ :=
    handleAll_delete admission cached applied
  let dropped := Watch.deletedAll admission middle.index middle.watch.gone
  let listed : WatchFeed α :=
    { watch := { cache := middle.watch.cache.endList, listed := [] }
      index := dropped.1
      queue := middle.queue.addAll (dropped.2.map (·.text)) }
  have begins : feed.handle admission .beginList = some begun := rfl
  have ends : middle.handle admission .endList = some listed := rfl
  have listed_entries (ref : ObjectRef) : listed.watch.cache.entries.get? ref = found objects ∅ ref :=
    buffer ref
  refine ⟨listed, changed, ?_, ?_, ?_, ?_, fun ref => ?_, fun ref object => ?_⟩
  · rw [WatchEvent.list, List.cons_append, handleAll_cons, begins, Option.bind_some, handleAll_append,
      items]
    exact ends
  · rw [WatchEvent.changes, handleAll_append, applies]
    exact deletes
  · rw [index', ← index, ← gone]
  · rw [queue', ← index, ← queue, ← gone]
  · rw [listed_entries, entries'', entries', found_only objects feed.watch.cache.entries ref]
    simp only [Watch.mem_unlisted filed]
  · rw [listed_entries]
    exact found_empty_iff refs

/-- Two ingresses of the controller's class are cached, and a list shows one of them with another class. -/
def shrinking : WatchFeed Ingress :=
  let site := WatchSession.ingressOf "argo-tunnel"
  let blog := { site with metadata := { site.metadata with name := some "blog" } }
  { watch :=
      { cache :=
          { entries := Table.insert (Table.insert ∅ ⟨"blog", some "shop"⟩ blog) ⟨"site", some "shop"⟩ site
            buffer := ∅
            ready := true }
        listed := [] }
    index := ((IngressIndex.new "argo-tunnel" { default := none, overrides := ∅ }).upsert blog).upsert site
    queue := .empty }

theorem filed_shrinking : Watch.Filed shrinking.watch.cache.entries :=
  have empty : Watch.Filed (∅ : Table ObjectRef Ingress) := by simp [Watch.Filed]
  (empty.insert rfl).insert rfl

/-- Either way the changed one is queued first, and then the one that is gone. -/
theorem list_as_changes_shrinking : ∃ listed changed,
    shrinking.handleAll WatchSession.tunnelClass (WatchEvent.list [WatchSession.ingressOf "nginx"]) =
      some listed ∧
    shrinking.handleAll WatchSession.tunnelClass
      (WatchEvent.changes shrinking.watch [WatchSession.ingressOf "nginx"]) = some changed ∧
    listed.queue = changed.queue ∧
    listed.queue.waiting = ["ingress/shop/site", "ingress/shop/blog"] := by
  obtain ⟨listed, changed, lists, changes, _, queue, _⟩ :=
    list_as_changes WatchSession.tunnelClass shrinking [WatchSession.ingressOf "nginx"] filed_shrinking
      (by decide) (by decide)
  refine ⟨listed, changed, lists, changes, queue, ?_⟩
  obtain rfl := Option.some.inj lists
  rfl

end WatchFeed

end TunnelIngress
