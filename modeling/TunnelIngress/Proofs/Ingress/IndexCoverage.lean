import TunnelIngress.Ingress.Index

/-!
# What the index covers

An indexed ingress is found under every secret and service that it needs. Indexing or dropping another
ingress does not change that.
-/

namespace TunnelIngress

namespace Postings

variable {postings : Postings} {key other ingress found : ResourceKey}

theorem mem_post : found ∈ (postings.post key ingress).of other ↔
    found ∈ postings.of other ∨ other = key ∧ found = ingress := by
  unfold post of Table.getD
  rw [Table.get?_insert]
  by_cases same : other = key <;> simp [same]

theorem mem_drop : found ∈ (postings.drop key ingress).of other ↔
    found ∈ postings.of other ∧ ¬ (other = key ∧ found = ingress) := by
  unfold drop
  cases hit : postings.get? key with
  | none =>
    unfold of Table.getD
    by_cases same : other = key <;> simp [same, hit]
  | some ingresses =>
    have left : ∀ other, found ∈ postings.of other ∧ ¬ (other = key ∧ found = ingress) ↔
        if other = key then found ∈ ingresses.filter (· ≠ ingress) else found ∈ postings.of other := by
      intro other
      unfold of Table.getD
      by_cases same : other = key <;> simp [same, hit]
    rw [left]
    dsimp only
    split
    · rename_i empty
      unfold of Table.getD
      rw [Table.get?_erase]
      split
      · rw [List.isEmpty_iff.1 empty]
        simp
      · rfl
    · unfold of Table.getD
      rw [Table.get?_insert]
      split <;> rfl

theorem mem_postAll {keys : List ResourceKey} :
    found ∈ of (keys.foldl (fun postings key => post postings key ingress) postings) other ↔
      found ∈ postings.of other ∨ other ∈ keys ∧ found = ingress := by
  induction keys generalizing postings with
  | nil => simp
  | cons key rest ih =>
    rw [List.foldl_cons, ih, mem_post, List.mem_cons, or_and_right, or_assoc]

theorem mem_dropAll {keys : List ResourceKey} (ne : found ≠ ingress) :
    found ∈ of (keys.foldl (fun postings key => drop postings key ingress) postings) other ↔
      found ∈ postings.of other := by
  induction keys generalizing postings with
  | nil => rfl
  | cons key rest ih =>
    rw [List.foldl_cons, ih, mem_drop]
    simp [ne]

end Postings

namespace IngressIndex

/-- An ingress is found under all that it needs. -/
structure Covers (index : IngressIndex) (ingress : Ingress) : Prop where
  secrets : ∀ secret ∈ ingress.secretsNeeded index.className index.resolver,
    keyOf ingress ∈ index.bySecret.of secret
  services : ∀ service ∈ ingress.servicesNeeded index.className,
    keyOf ingress ∈ index.byService.of service

variable {index : IngressIndex} {ingress other : Ingress} {key found place : ResourceKey}

theorem unlink_className : (index.unlink key).className = index.className := by
  unfold unlink
  split <;> rfl

theorem unlink_resolver : (index.unlink key).resolver = index.resolver := by
  unfold unlink
  split <;> rfl

theorem mem_unlink_secrets (ne : found ≠ key) :
    found ∈ (index.unlink key).bySecret.of place ↔ found ∈ index.bySecret.of place := by
  unfold unlink
  split
  · rfl
  · exact Postings.mem_dropAll ne

theorem mem_unlink_services (ne : found ≠ key) :
    found ∈ (index.unlink key).byService.of place ↔ found ∈ index.byService.of place := by
  unfold unlink
  split
  · rfl
  · exact Postings.mem_dropAll ne

theorem upsert_className : (index.upsert ingress).className = index.className := by
  simp only [upsert]
  split <;> exact unlink_className

theorem upsert_resolver : (index.upsert ingress).resolver = index.resolver := by
  simp only [upsert]
  split <;> exact unlink_resolver

theorem mem_upsert_secrets : found ∈ (index.upsert ingress).bySecret.of place ↔
    found ∈ (index.unlink (keyOf ingress)).bySecret.of place ∨
      place ∈ ingress.secretsNeeded index.className index.resolver ∧ found = keyOf ingress := by
  simp only [upsert]
  split
  · rename_i none
    simp only [Bool.and_eq_true, List.isEmpty_iff] at none
    simp [none.1]
  · exact Postings.mem_postAll

theorem mem_upsert_services : found ∈ (index.upsert ingress).byService.of place ↔
    found ∈ (index.unlink (keyOf ingress)).byService.of place ∨
      place ∈ ingress.servicesNeeded index.className ∧ found = keyOf ingress := by
  simp only [upsert]
  split
  · rename_i none
    simp only [Bool.and_eq_true, List.isEmpty_iff] at none
    simp [none.2]
  · exact Postings.mem_postAll

theorem covers_upsert (index : IngressIndex) (ingress : Ingress) :
    (index.upsert ingress).Covers ingress where
  secrets secret needed := by
    rw [upsert_className, upsert_resolver] at needed
    exact mem_upsert_secrets.2 (.inr ⟨needed, rfl⟩)
  services service needed := by
    rw [upsert_className] at needed
    exact mem_upsert_services.2 (.inr ⟨needed, rfl⟩)

theorem Covers.upsert (covers : index.Covers other) (ne : keyOf other ≠ keyOf ingress) :
    (index.upsert ingress).Covers other where
  secrets secret needed := by
    rw [upsert_className, upsert_resolver] at needed
    exact mem_upsert_secrets.2 (.inl ((mem_unlink_secrets ne).2 (covers.secrets secret needed)))
  services service needed := by
    rw [upsert_className] at needed
    exact mem_upsert_services.2 (.inl ((mem_unlink_services ne).2 (covers.services service needed)))

theorem remove_className : (index.remove key).1.className = index.className :=
  unlink_className

theorem remove_resolver : (index.remove key).1.resolver = index.resolver :=
  unlink_resolver

theorem Covers.remove (covers : index.Covers other) (ne : keyOf other ≠ key) :
    (index.remove key).1.Covers other where
  secrets secret needed := by
    rw [remove_className, remove_resolver] at needed
    exact (mem_unlink_secrets ne).2 (covers.secrets secret needed)
  services service needed := by
    rw [remove_className] at needed
    exact (mem_unlink_services ne).2 (covers.services service needed)

theorem Covers.lookup (covers : index.Covers other) (kind : Kind) :
    (index.lookup kind key).1.Covers other := by
  cases kind <;> exact ⟨covers.secrets, covers.services⟩

theorem lookup_className (kind : Kind) : (index.lookup kind key).1.className = index.className := by
  cases kind <;> rfl

theorem lookup_resolver (kind : Kind) : (index.lookup kind key).1.resolver = index.resolver := by
  cases kind <;> rfl

end IngressIndex

end TunnelIngress
