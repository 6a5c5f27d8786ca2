import TunnelIngress.Ingress.Watches
import TunnelIngress.Proofs.Ingress.IndexCoverage
import TunnelIngress.Proofs.Ingress.Relist
import TunnelIngress.Proofs.Ingress.SingleChanges

/-!
# Events of ingresses among all events

Only an event of an ingress touches the ingresses that are cached, and the index.
-/

namespace TunnelIngress

namespace WatchEvent

variable {α β : Type}

def map (f : α → β) : WatchEvent α → WatchEvent β
  | apply object => .apply (f object)
  | delete object => .delete (f object)
  | beginList => .beginList
  | listItem object => .listItem (f object)
  | endList => .endList

theorem of_cast? {cast : AnyObject → Option α} {put : α → AnyObject}
    (inverse : ∀ any object, cast any = some object → any = put object) {event : WatchEvent AnyObject}
    {own : WatchEvent α} (casts : event.cast? cast = some own) : event = own.map put := by
  have single (make : α → WatchEvent α) (any : AnyObject) (hit : (cast any).map make = some own) :
      ∃ object, any = put object ∧ own = make object := by
    obtain ⟨object, found, same⟩ := Option.map_eq_some_iff.1 hit
    exact ⟨object, inverse any object found, same.symm⟩
  cases event with
  | apply any =>
    obtain ⟨object, rfl, rfl⟩ := single _ any casts
    rfl
  | delete any =>
    obtain ⟨object, rfl, rfl⟩ := single _ any casts
    rfl
  | listItem any =>
    obtain ⟨object, rfl, rfl⟩ := single _ any casts
    rfl
  | beginList =>
    cases casts
    rfl
  | endList =>
    cases casts
    rfl

theorem object?_map (f : α → β) (event : WatchEvent α) : (event.map f).object? = event.object?.map f := by
  cases event <;> rfl

end WatchEvent

namespace Watch

variable {α : Type} [Indexed α] {admission : Admission} {index : IngressIndex} {watch : Watch α}
  {outcome : Outcome α} {event : WatchEvent α}

/-- What indexing an object and dropping one keep, every event keeps. -/
theorem handle_index (Keeps : IngressIndex → Prop)
    (indexed : ∀ (object : α) index, Keeps index → Keeps (Indexed.index object index))
    (unindexed : ∀ (object : α) index, Keeps index → Keeps (Indexed.unindex object index))
    (handled : watch.handle admission index event = some outcome) (before : Keeps index) :
    Keeps outcome.index := by
  cases event with
  | apply object =>
    obtain ⟨ref, own, rfl⟩ := handle_apply handled
    dsimp only
    rw [changed_index]
    exact indexed object index before
  | delete object =>
    obtain ⟨ref, own, rfl⟩ := handle_delete handled
    exact unindexed object index before
  | beginList =>
    cases handled
    exact before
  | listItem object =>
    obtain ⟨ref, own, rfl⟩ := handle_listItem handled
    dsimp only
    rw [changed_index]
    exact indexed object index before
  | endList =>
    cases handled
    suffices general : ∀ (gone : List α) (done : IngressIndex × List WorkKey), Keeps done.1 →
        Keeps (gone.foldl (fun (done : IngressIndex × List WorkKey) object =>
          ((deleted admission done.1 object).1, done.2 ++ (deleted admission done.1 object).2)) done).1 from
      general watch.gone (index, []) before
    intro gone
    induction gone with
    | nil => exact fun _ kept => kept
    | cons object rest ih => exact fun done kept => ih _ (unindexed object done.1 kept)

theorem handle_placed (cached : Placed watch.cache.entries) (buffered : Placed watch.cache.buffer)
    (named : ∀ object ∈ event.object?, (KubernetesObject.metadata object).ns.isSome)
    (handled : watch.handle admission index event = some outcome) :
    Placed outcome.watch.cache.entries ∧ Placed outcome.watch.cache.buffer := by
  cases event with
  | apply object =>
    obtain ⟨ref, own, rfl⟩ := handle_apply handled
    exact ⟨cached.insert own (ref_of_placed own (named object rfl)), buffered⟩
  | delete object =>
    obtain ⟨ref, own, rfl⟩ := handle_delete handled
    exact ⟨cached.erase ref, buffered⟩
  | beginList =>
    cases handled
    exact ⟨cached, placed_empty⟩
  | listItem object =>
    obtain ⟨ref, own, rfl⟩ := handle_listItem handled
    exact ⟨cached, buffered.insert own (ref_of_placed own (named object rfl))⟩
  | endList =>
    cases handled
    exact ⟨buffered, placed_empty⟩

end Watch

namespace Watches

variable {admission : Admission} {index : IngressIndex} {watches : Watches}

theorem single_of_handled {α : Type} [Indexed α] {watch : Watch α} {event : WatchEvent α}
    {put : Watch α → Watches} {outcome : Outcome}
    (handled : ((watch.handle admission index event).bind fun single => some (.of put single)) =
      some outcome) :
    ∃ single, watch.handle admission index event = some single ∧ outcome = .of put single := by
  obtain ⟨single, handled, same⟩ := Option.bind_eq_some_iff.1 handled
  exact ⟨single, handled, (Option.some.inj same).symm⟩

theorem ingress_or_other {kind : Kind} {event : WatchEvent AnyObject} {outcome : Outcome}
    (handled : watches.handle admission index kind event = some outcome) :
    (outcome.watches.ingresses = watches.ingresses ∧ outcome.index = index) ∨
      ∃ own single, kind = .ingress ∧ event = own.map .ingress ∧
        watches.ingresses.handle admission index own = some single ∧
        outcome = .of (fun ingresses => { watches with ingresses }) single := by
  cases kind with
  | ingress =>
    obtain ⟨own, casts, acts⟩ := Option.bind_eq_some_iff.1 handled
    obtain ⟨single, acted, rfl⟩ := single_of_handled acts
    refine .inr ⟨own, single, rfl, WatchEvent.of_cast? (fun any object cast => ?_) casts, acted, rfl⟩
    cases any <;> cases cast
    rfl
  | endpoint =>
    obtain ⟨own, _, acts⟩ := Option.bind_eq_some_iff.1 handled
    obtain ⟨single, acted, rfl⟩ := single_of_handled acts
    exact .inl ⟨rfl, Watch.handle_index (· = index) (fun _ _ same => same) (fun _ _ same => same) acted rfl⟩
  | secret =>
    obtain ⟨own, _, acts⟩ := Option.bind_eq_some_iff.1 handled
    obtain ⟨single, acted, rfl⟩ := single_of_handled acts
    exact .inl ⟨rfl, Watch.handle_index (· = index) (fun _ _ same => same) (fun _ _ same => same) acted rfl⟩
  | service =>
    obtain ⟨own, _, acts⟩ := Option.bind_eq_some_iff.1 handled
    obtain ⟨single, acted, rfl⟩ := single_of_handled acts
    exact .inl ⟨rfl, Watch.handle_index (· = index) (fun _ _ same => same) (fun _ _ same => same) acted rfl⟩

/-- An event changes what the index has of ingresses, but not its class and its resolver. -/
theorem handle_settings {kind : Kind} {event : WatchEvent AnyObject} {outcome : Outcome}
    (handled : watches.handle admission index kind event = some outcome) :
    outcome.index.className = index.className ∧ outcome.index.resolver = index.resolver := by
  rcases ingress_or_other handled with ⟨_, same⟩ | ⟨own, single, _, _, acted, rfl⟩
  · rw [same]
    exact ⟨rfl, rfl⟩
  · refine Watch.handle_index
      (fun later => later.className = index.className ∧ later.resolver = index.resolver)
      ?_ ?_ acted ⟨rfl, rfl⟩
    · exact fun _ _ same =>
        ⟨IngressIndex.upsert_className.trans same.1, IngressIndex.upsert_resolver.trans same.2⟩
    · exact fun _ _ same =>
        ⟨IngressIndex.remove_className.trans same.1, IngressIndex.remove_resolver.trans same.2⟩

end Watches

end TunnelIngress
