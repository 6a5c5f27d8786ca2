import TunnelIngress.Proofs.Ingress.IndexCoverage
import TunnelIngress.Proofs.Ingress.ServedRules
import Mathlib.Data.List.Nodup

/-!
# What the index lists

The index lists each ingress at most once under each key, and only under the keys of its entry. So an
ingress that is dropped is listed nowhere.
-/

namespace TunnelIngress

theorem nodup_pushNew {keys : List ResourceKey} (nodup : keys.Nodup) (key : ResourceKey) :
    (pushNew keys key).Nodup := by
  unfold pushNew
  split
  · exact nodup
  · rename_i new
    have absent : key ∉ keys := by simpa using new
    rw [List.nodup_append]
    refine ⟨nodup, List.nodup_singleton key, ?_⟩
    rintro other mem _ here rfl
    exact absent (List.mem_singleton.1 here ▸ mem)

theorem nodup_pushAll (keys : List ResourceKey) {found : List ResourceKey} (nodup : found.Nodup) :
    (keys.foldl pushNew found).Nodup := by
  induction keys generalizing found with
  | nil => exact nodup
  | cons key rest ih => exact ih (nodup_pushNew nodup key)

theorem Ingress.nodup_secretsNeeded (ingress : Ingress) (className : String) (resolver : SecretResolver) :
    (ingress.secretsNeeded className resolver).Nodup := by
  unfold secretsNeeded
  split
  · exact nodup_pushAll _ List.nodup_nil
  · exact List.nodup_nil

theorem Ingress.nodup_servicesNeeded (ingress : Ingress) (className : String) :
    (ingress.servicesNeeded className).Nodup := by
  unfold servicesNeeded
  split
  · exact nodup_pushAll _ List.nodup_nil
  · exact List.nodup_nil

namespace Postings

/-- Each ingress is listed at most once under a key, and only under the keys that it is known to need. -/
structure Backed (postings : Postings) (needs : ResourceKey → List ResourceKey) : Prop where
  nodup : ∀ key, (postings.of key).Nodup
  needed : ∀ key ingress, ingress ∈ postings.of key → key ∈ needs ingress

variable {postings : Postings} {needs needs' : ResourceKey → List ResourceKey} {ingress : ResourceKey}

theorem of_post (postings : Postings) (key ingress other : ResourceKey) : (postings.post key ingress).of other =
    if other = key then postings.of key ++ [ingress] else postings.of other := by
  unfold post of Table.getD
  rw [Table.get?_insert]
  split <;> rfl

theorem of_drop (postings : Postings) (key ingress other : ResourceKey) : (postings.drop key ingress).of other =
    if other = key then (postings.of key).filter (· ≠ ingress) else postings.of other := by
  unfold drop
  cases hit : postings.get? key with
  | none =>
    by_cases here : other = key
    · subst here
      simp [of, Table.getD, hit]
    · rw [if_neg here]
  | some ingresses =>
    have listed : postings.of key = ingresses := by simp [of, Table.getD, hit]
    dsimp only
    rw [listed]
    split
    · rename_i empty
      rw [List.isEmpty_iff] at empty
      unfold of Table.getD
      rw [Table.get?_erase]
      split
      · exact empty.symm
      · rfl
    · unfold of Table.getD
      rw [Table.get?_insert]
      split <;> rfl

/-- Dropping an ingress under all that it needs takes it out of every list, and leaves the rest. -/
theorem Backed.of_dropAll (backed : postings.Backed needs) (ingress place : ResourceKey) :
    of ((needs ingress).foldl (fun postings key => drop postings key ingress) postings) place =
      (postings.of place).filter (· ≠ ingress) := by
  have general (keys : List ResourceKey) (postings : Postings) :
      of (keys.foldl (fun postings key => drop postings key ingress) postings) place =
        if place ∈ keys then (postings.of place).filter (· ≠ ingress) else postings.of place := by
    induction keys generalizing postings with
    | nil => simp
    | cons key rest ih =>
      rw [List.foldl_cons, ih, of_drop]
      by_cases here : place = key <;> by_cases later : place ∈ rest <;>
        simp [here, later, List.filter_filter]
  rw [general]
  split
  · rfl
  · rename_i unneeded
    refine (List.filter_eq_self.2 fun other mem => decide_eq_true ?_).symm
    rintro rfl
    exact unneeded (backed.needed place other mem)

theorem of_postAll {keys : List ResourceKey} (nodup : keys.Nodup) (postings : Postings)
    (ingress place : ResourceKey) :
    of (keys.foldl (fun postings key => post postings key ingress) postings) place =
      postings.of place ++ if place ∈ keys then [ingress] else [] := by
  induction keys generalizing postings with
  | nil => simp
  | cons key rest ih =>
    obtain ⟨new, nodup⟩ := List.nodup_cons.1 nodup
    rw [List.foldl_cons, ih nodup, of_post]
    by_cases here : place = key
    · subst here
      simp [new]
    · simp [here]

theorem Backed.dropAll (backed : postings.Backed needs)
    (others : ∀ other, other ≠ ingress → needs' other = needs other) :
    Backed ((needs ingress).foldl (fun postings key => drop postings key ingress) postings) needs' where
  nodup key := by
    rw [backed.of_dropAll]
    exact (backed.nodup key).filter _
  needed key other mem := by
    rw [backed.of_dropAll] at mem
    obtain ⟨was, kept⟩ := List.mem_filter.1 mem
    exact others other (of_decide_eq_true kept) ▸ backed.needed key other was

theorem Backed.postAll (backed : postings.Backed needs) (cleared : needs ingress = [])
    (nodup : (needs' ingress).Nodup) (others : ∀ other, other ≠ ingress → needs' other = needs other) :
    Backed ((needs' ingress).foldl (fun postings key => post postings key ingress) postings) needs' := by
  have absent (key : ResourceKey) : ingress ∉ postings.of key := fun mem => by
    have needed := backed.needed key ingress mem
    rw [cleared] at needed
    cases needed
  refine ⟨fun key => ?_, fun key other mem => ?_⟩
  · rw [of_postAll nodup]
    split
    · refine List.nodup_append.2 ⟨backed.nodup key, List.nodup_singleton ingress, ?_⟩
      rintro other listed _ here rfl
      exact absent key (List.mem_singleton.1 here ▸ listed)
    · rw [List.append_nil]
      exact backed.nodup key
  · rcases mem_postAll.1 mem with was | ⟨needed, rfl⟩
    · have ne : other ≠ ingress := by
        rintro rfl
        exact absent key was
      exact others other ne ▸ backed.needed key other was
    · exact needed

end Postings

namespace IngressIndex

/-- What the entry of an ingress says that it needs; nothing if it has none. -/
def secretsOf (index : IngressIndex) (ingress : ResourceKey) : List ResourceKey :=
  ((index.entries.get? ingress).map (·.secrets)).getD []

def servicesOf (index : IngressIndex) (ingress : ResourceKey) : List ResourceKey :=
  ((index.entries.get? ingress).map (·.services)).getD []

structure Listed (index : IngressIndex) : Prop where
  secrets : index.bySecret.Backed index.secretsOf
  services : index.byService.Backed index.servicesOf

variable {index : IngressIndex} {key : ResourceKey}

theorem listed_new (className : String) (resolver : SecretResolver) : (new className resolver).Listed where
  secrets := ⟨fun _ => List.nodup_nil, fun _ _ mem => nomatch mem⟩
  services := ⟨fun _ => List.nodup_nil, fun _ _ mem => nomatch mem⟩

theorem entries_unlink (index : IngressIndex) (key other : ResourceKey) :
    (index.unlink key).entries.get? other = if other = key then none else index.entries.get? other := by
  unfold unlink
  cases hit : index.entries.get? key with
  | none =>
    dsimp only
    split
    · rename_i here
      exact here ▸ hit
    · rfl
  | some entry => exact Table.get?_erase

theorem bySecret_unlink (index : IngressIndex) (key : ResourceKey) : (index.unlink key).bySecret =
    (index.secretsOf key).foldl (fun postings place => Postings.drop postings place key) index.bySecret := by
  unfold unlink secretsOf
  cases index.entries.get? key <;> rfl

theorem byService_unlink (index : IngressIndex) (key : ResourceKey) : (index.unlink key).byService =
    (index.servicesOf key).foldl (fun postings place => Postings.drop postings place key) index.byService := by
  unfold unlink servicesOf
  cases index.entries.get? key <;> rfl

theorem secretsOf_unlink (index : IngressIndex) (key other : ResourceKey) :
    (index.unlink key).secretsOf other = if other = key then [] else index.secretsOf other := by
  rw [secretsOf, entries_unlink]
  split <;> rfl

theorem servicesOf_unlink (index : IngressIndex) (key other : ResourceKey) :
    (index.unlink key).servicesOf other = if other = key then [] else index.servicesOf other := by
  rw [servicesOf, entries_unlink]
  split <;> rfl

theorem Listed.unlink (listed : index.Listed) (key : ResourceKey) : (index.unlink key).Listed where
  secrets := by
    rw [bySecret_unlink]
    exact listed.secrets.dropAll fun other ne => (index.secretsOf_unlink key other).trans (if_neg ne)
  services := by
    rw [byService_unlink]
    exact listed.services.dropAll fun other ne => (index.servicesOf_unlink key other).trans (if_neg ne)

/-- An ingress is posted under what it needs, and its entry says so. -/
theorem upsert_spec (index : IngressIndex) (ingress : Ingress) :
    let cleared := index.unlink (keyOf ingress)
    let secrets := ingress.secretsNeeded index.className index.resolver
    let services := ingress.servicesNeeded index.className
    ((index.upsert ingress).bySecret =
        secrets.foldl (fun postings place => Postings.post postings place (keyOf ingress)) cleared.bySecret ∧
      (index.upsert ingress).byService =
        services.foldl (fun postings place => Postings.post postings place (keyOf ingress))
          cleared.byService) ∧
    ∀ other,
      (index.upsert ingress).secretsOf other =
        (if other = keyOf ingress then secrets else cleared.secretsOf other) ∧
      (index.upsert ingress).servicesOf other =
        if other = keyOf ingress then services else cleared.servicesOf other := by
  intro cleared secrets services
  unfold upsert
  dsimp only
  split
  · rename_i none
    simp only [Bool.and_eq_true, List.isEmpty_iff] at none
    have no_secrets : secrets = [] := none.1
    have no_services : services = [] := none.2
    refine ⟨by rw [no_secrets, no_services]; exact ⟨rfl, rfl⟩, fun other => ?_⟩
    rw [no_secrets, no_services]
    by_cases here : other = keyOf ingress
    · rw [if_pos here, if_pos here, here]
      exact ⟨(index.secretsOf_unlink _ _).trans (if_pos rfl), (index.servicesOf_unlink _ _).trans (if_pos rfl)⟩
    · rw [if_neg here, if_neg here]
      exact ⟨rfl, rfl⟩
  · refine ⟨⟨rfl, rfl⟩, fun other => ?_⟩
    unfold secretsOf servicesOf
    rw [Table.get?_insert]
    split <;> exact ⟨rfl, rfl⟩

theorem Listed.upsert (listed : index.Listed) (ingress : Ingress) : (index.upsert ingress).Listed := by
  obtain ⟨⟨bySecret, byService⟩, entries⟩ := index.upsert_spec ingress
  have cleared := listed.unlink (keyOf ingress)
  have secrets : (index.upsert ingress).secretsOf (keyOf ingress) = _ :=
    (entries (keyOf ingress)).1.trans (if_pos rfl)
  have services : (index.upsert ingress).servicesOf (keyOf ingress) = _ :=
    (entries (keyOf ingress)).2.trans (if_pos rfl)
  constructor
  · rw [bySecret, ← secrets]
    refine cleared.secrets.postAll ?_ ?_ fun other ne => (entries other).1.trans (if_neg ne)
    · exact (index.secretsOf_unlink _ _).trans (if_pos rfl)
    · exact secrets ▸ ingress.nodup_secretsNeeded _ _
  · rw [byService, ← services]
    refine cleared.services.postAll ?_ ?_ fun other ne => (entries other).2.trans (if_neg ne)
    · exact (index.servicesOf_unlink _ _).trans (if_pos rfl)
    · exact services ▸ ingress.nodup_servicesNeeded _

theorem Listed.remove (listed : index.Listed) (key : ResourceKey) : (index.remove key).1.Listed := by
  obtain ⟨secrets, services⟩ := listed.unlink key
  exact ⟨secrets, services⟩

theorem Listed.lookup (listed : index.Listed) (kind : Kind) (key : ResourceKey) :
    (index.lookup kind key).1.Listed ∧ (index.lookup kind key).2.Nodup := by
  obtain ⟨secrets, services⟩ := listed
  cases kind with
  | endpoint => exact ⟨⟨secrets, services⟩, services.nodup key⟩
  | ingress => exact ⟨⟨secrets, services⟩, List.nodup_singleton key⟩
  | secret => exact ⟨⟨secrets, services⟩, secrets.nodup key⟩
  | service => exact ⟨⟨secrets, services⟩, services.nodup key⟩

end IngressIndex

end TunnelIngress
