import TunnelIngress.Ingress.Cache
import TunnelIngress.Ingress.Index

/-!
Watch events of one kind of object. Every event changes the cache; the object before and after it
decide whether the change is worth a work item. Identical changes are dropped, and so are changes
where neither side is admitted. Objects that were cached and do not show up in a new list are handled
as deletions.
-/

namespace TunnelIngress

inductive WatchEvent (α : Type) where
  | apply (object : α)
  | delete (object : α)
  | beginList
  | listItem (object : α)
  | endList

/-- Objects that take part in the index of dependencies. -/
class Indexed (α : Type) extends Admissible α where
  same : α → α → Bool
  same_iff : ∀ a b, same a b = true ↔ a = b
  index : α → IngressIndex → IngressIndex := fun _ index => index
  unindex : α → IngressIndex → IngressIndex := fun _ index => index

instance : Indexed Endpoints :=
  { same := (· == ·), same_iff := fun _ _ => beq_iff_eq }

instance : Indexed Ingress :=
  { same := (· == ·)
    same_iff := fun _ _ => beq_iff_eq
    index := fun ingress index => index.upsert ingress
    unindex := fun ingress index => (index.remove (keyOf ingress)).1 }

instance : Indexed Secret :=
  { same := (· == ·), same_iff := fun _ _ => beq_iff_eq }

instance : Indexed Service :=
  { same := (· == ·), same_iff := fun _ _ => beq_iff_eq }

/-- The watch of one kind: its cache and the references seen in the list in progress. -/
structure Watch (α : Type) where
  cache : Cache α
  listed : List ObjectRef

structure Watch.Outcome (α : Type) where
  watch : Watch α
  index : IngressIndex
  work : List WorkKey

namespace Watch

variable {α : Type} [Indexed α]

def new : Watch α :=
  { cache := .empty, listed := [] }

def workOf (object : α) : WorkKey :=
  ⟨KubernetesObject.kind α, keyOf object⟩

def changed (admission : Admission) (index : IngressIndex) (old : Option α) (new : α) :
    IngressIndex × List WorkKey :=
  let index := Indexed.index new index
  if old.any fun before => Indexed.same before new then
    (index, [])
  else if old.any (Admissible.admitted admission) || Admissible.admitted admission new then
    (index, [workOf new])
  else
    (index, [])

def deleted (admission : Admission) (index : IngressIndex) (last : α) :
    IngressIndex × List WorkKey :=
  let index := Indexed.unindex last index
  (index, if Admissible.admitted admission last then [workOf last] else [])

def deletedAll (admission : Admission) (index : IngressIndex) (gone : List α) :
    IngressIndex × List WorkKey :=
  gone.foldl
    (fun (done : IngressIndex × List WorkKey) object =>
      let (index, work) := deleted admission done.1 object
      (index, done.2 ++ work))
    (index, [])

/-- The cached objects that did not show up in the list in progress. -/
def gone (watch : Watch α) : List α :=
  watch.cache.objects.filter fun object =>
    (refOf? object).all fun ref => !watch.listed.contains ref

/-- Handles an event; there is no outcome for an object without a name. -/
def handle (watch : Watch α) (admission : Admission) (index : IngressIndex) :
    WatchEvent α → Option (Outcome α)
  | .apply object => do
    let ref ← refOf? object
    let old := watch.cache.get? ref
    let (index, work) := changed admission index old object
    return { watch := { watch with cache := watch.cache.apply ref object }, index, work }
  | .delete object => do
    let ref ← refOf? object
    let (index, work) := deleted admission index object
    return { watch := { watch with cache := watch.cache.delete ref }, index, work }
  | .beginList =>
    some { watch := { cache := watch.cache.beginList, listed := [] }, index, work := [] }
  | .listItem object => do
    let ref ← refOf? object
    let old := watch.cache.get? ref
    let (index, work) := changed admission index old object
    return {
      watch := { cache := watch.cache.listItem ref object, listed := ref :: watch.listed }
      index
      work }
  | .endList =>
    let (index, work) := deletedAll admission index watch.gone
    some { watch := { cache := watch.cache.endList, listed := [] }, index, work }

end Watch

end TunnelIngress
