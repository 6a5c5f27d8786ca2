import TunnelIngress.Proofs.Ingress.IndexHistory
import Mathlib.Data.Set.Card

/-!
# The lists of the index

After any history the index lists an ingress once under each object that its latest version needs, and
the one that was indexed last comes last. No list is empty, and the index has as many entries as there
are ingresses that need something.
-/

namespace TunnelIngress

theorem Table.size_eq_ncard {κ α : Type} [DecidableEq κ] (table : Table κ α) :
    table.size = {key | ∃ value, table.get? key = some value}.ncard := by
  have keys : {key | ∃ value, table.get? key = some value} = (table.keys.toFinset : Set κ) := by
    ext key
    simp [mem_keys_iff]
  have nodup : table.keys.Nodup := table.nodup
  rw [keys, Set.ncard_coe_finset, List.toFinset_card_of_nodup nodup]
  exact (List.length_map _).symm

/-- What the index keeps of an ingress; nothing if it needs nothing. -/
def Ingress.posted? (ingress : Ingress) (className : String) (resolver : SecretResolver) :
    Option IndexEntry :=
  let secrets := ingress.secretsNeeded className resolver
  let services := ingress.servicesNeeded className
  if secrets.isEmpty && services.isEmpty then none else some { secrets, services }

theorem Ingress.posted?_isSome {ingress : Ingress} {className : String} {resolver : SecretResolver} :
    (∃ entry, ingress.posted? className resolver = some entry) ↔
      ingress.secretsNeeded className resolver ≠ [] ∨ ingress.servicesNeeded className ≠ [] := by
  unfold posted?
  dsimp only
  split
  · rename_i none
    simpa using none
  · rename_i some
    simp only [Option.some.injEq, exists_eq', true_iff]
    simpa [or_iff_not_imp_left] using some

namespace IndexUse

/-- Whether a use indexes an ingress. -/
def indexes (key : ResourceKey) : IndexUse → Bool
  | upsert ingress => keyOf ingress = key
  | remove _ => false
  | lookup _ _ => false

/-- How many uses ago an ingress was indexed last. -/
def age (uses : List IndexUse) (key : ResourceKey) : Nat :=
  uses.reverse.findIdx (indexes key)

variable {uses : List IndexUse} {use : IndexUse} {key : ResourceKey}

theorem age_append :
    age (uses ++ [use]) key = if use.indexes key then 0 else age uses key + 1 := by
  simp [age, List.findIdx_cons, Bool.cond_eq_ite]

theorem latest_append : latest (uses ++ [use]) key = use.version key (latest uses key) := by
  simp [latest]

/-- A list has each ingress once whose latest version is of a certain sort, the one indexed last at the
end. -/
structure Lists (uses : List IndexUse) (needs : Ingress → Prop) (found : List ResourceKey) : Prop where
  nodup : found.Nodup
  ordered : found.Pairwise fun earlier later => age uses later < age uses earlier
  exact : ∀ key, key ∈ found ↔ ∃ ingress, latest uses key = some ingress ∧ needs ingress

end IndexUse

namespace Postings

/-- No key has an empty list. -/
def Filled (postings : Postings) : Prop :=
  ∀ key, postings.get? key ≠ some []

variable {postings : Postings}

theorem Filled.drop (filled : postings.Filled) (key ingress : ResourceKey) :
    (postings.drop key ingress).Filled := by
  unfold Postings.drop
  split
  · exact filled
  · dsimp only
    split
    · intro other
      rw [Table.get?_erase]
      split
      · simp
      · exact filled other
    · rename_i kept
      intro other
      rw [Table.get?_insert]
      split
      · rw [List.isEmpty_iff] at kept
        simpa using kept
      · exact filled other

theorem Filled.post (filled : postings.Filled) (key ingress : ResourceKey) :
    (postings.post key ingress).Filled := by
  intro other
  rw [Postings.post, Table.get?_insert]
  split
  · simp
  · exact filled other

theorem Filled.dropAll (filled : postings.Filled) (keys : List ResourceKey) (ingress : ResourceKey) :
    Filled (keys.foldl (fun postings key => Postings.drop postings key ingress) postings) :=
  List.foldlRecOn keys _ filled fun _ filled key _ => filled.drop key ingress

theorem Filled.postAll (filled : postings.Filled) (keys : List ResourceKey) (ingress : ResourceKey) :
    Filled (keys.foldl (fun postings key => Postings.post postings key ingress) postings) :=
  List.foldlRecOn keys _ filled fun _ filled key _ => filled.post key ingress

end Postings

namespace IngressIndex

variable {index : IngressIndex} {className : String} {resolver : SecretResolver} {ingress : Ingress}
  {key place : ResourceKey} {kind : Kind}

/-! ### The order of a list -/

theorem ordered_useAll (className : String) (resolver : SecretResolver) (uses : List IndexUse)
    (dependency : kind ≠ .ingress) (place : ResourceKey) :
    (((new className resolver).useAll uses).lookup kind place).2.Pairwise
      fun earlier later => IndexUse.age uses later < IndexUse.age uses earlier := by
  induction uses using List.reverseRecOn with
  | nil =>
    cases kind with
    | ingress => exact absurd rfl dependency
    | secret | endpoint | service => exact .nil
  | append_singleton uses use ih =>
    have listed := ((reflects_new className resolver).useAll uses).listed
    -- Whoever is not indexed now was indexed one use longer ago than before.
    have older {found : List ResourceKey} (sorted : found.Pairwise fun earlier later =>
          IndexUse.age uses later < IndexUse.age uses earlier)
        (others : ∀ key ∈ found, use.indexes key = false) :
        found.Pairwise fun earlier later =>
          IndexUse.age (uses ++ [use]) later < IndexUse.age (uses ++ [use]) earlier := by
      refine sorted.imp_of_mem fun {earlier later} first second lt => ?_
      simpa [IndexUse.age_append, others earlier first, others later second] using lt
    rw [useAll_append]
    cases use with
    | lookup other asked =>
      change (((useAll _ uses).lookup other asked).1.lookup kind place).2.Pairwise _
      rw [lookup_lookup]
      exact older ih fun _ _ => rfl
    | remove gone =>
      change (((useAll _ uses).remove gone).1.lookup kind place).2.Pairwise _
      rw [lookup_remove, listed.lookup_unlink dependency]
      exact older (ih.filter _) fun _ _ => rfl
    | upsert ingress =>
      change (((useAll _ uses).upsert ingress).lookup kind place).2.Pairwise _
      rw [listed.lookup_upsert dependency, List.pairwise_append]
      have others : ∀ key ∈ (((new className resolver).useAll uses).lookup kind place).2.filter
          (· ≠ keyOf ingress), (IndexUse.upsert ingress).indexes key = false := by
        intro key mem
        have ne : key ≠ keyOf ingress := by simpa using (List.mem_filter.1 mem).2
        exact decide_eq_false (Ne.symm ne)
      refine ⟨older (ih.filter _) others, ?_, ?_⟩
      · split
        · exact List.pairwise_singleton _ _
        · exact .nil
      · intro earlier first later second
        obtain rfl : later = keyOf ingress := by
          split at second
          · exact List.mem_singleton.1 second
          · cases second
        rw [IndexUse.age_append, IndexUse.age_append, others earlier first]
        simp [IndexUse.indexes]

/-! ### Empty lists -/

structure Filled (index : IngressIndex) : Prop where
  secrets : index.bySecret.Filled
  services : index.byService.Filled

theorem filled_new (className : String) (resolver : SecretResolver) : (new className resolver).Filled :=
  ⟨fun _ => nofun, fun _ => nofun⟩

theorem Filled.unlink (filled : index.Filled) (key : ResourceKey) : (index.unlink key).Filled where
  secrets := by
    rw [bySecret_unlink]
    exact filled.secrets.dropAll _ key
  services := by
    rw [byService_unlink]
    exact filled.services.dropAll _ key

theorem Filled.use (filled : index.Filled) (use : IndexUse) : (index.use use).Filled := by
  cases use with
  | upsert ingress =>
    obtain ⟨⟨bySecret, byService⟩, _⟩ := index.upsert_spec ingress
    have cleared := filled.unlink (keyOf ingress)
    exact ⟨bySecret ▸ cleared.secrets.postAll _ _, byService ▸ cleared.services.postAll _ _⟩
  | remove key => exact ⟨(filled.unlink key).secrets, (filled.unlink key).services⟩
  | lookup kind key => cases kind <;> exact ⟨filled.secrets, filled.services⟩

theorem Filled.useAll (filled : index.Filled) (uses : List IndexUse) : (index.useAll uses).Filled :=
  List.foldlRecOn uses _ filled fun _ filled use _ => filled.use use

/-! ### Entries -/

theorem entries_upsert (index : IngressIndex) (ingress : Ingress) (other : ResourceKey) :
    (index.upsert ingress).entries.get? other =
      if other = keyOf ingress then ingress.posted? index.className index.resolver
      else index.entries.get? other := by
  unfold upsert Ingress.posted?
  dsimp only
  split
  · exact index.entries_unlink (keyOf ingress) other
  · rw [Table.get?_insert, entries_unlink]
    split <;> rfl

theorem entries_useAll (className : String) (resolver : SecretResolver) (uses : List IndexUse)
    (key : ResourceKey) : ((new className resolver).useAll uses).entries.get? key =
      (IndexUse.latest uses key).bind (·.posted? className resolver) := by
  induction uses using List.reverseRecOn with
  | nil => rfl
  | append_singleton uses use ih =>
    have reflects := (reflects_new className resolver).useAll uses
    rw [useAll_append, IndexUse.latest_append]
    cases use with
    | lookup kind asked =>
      rw [IndexUse.version, ← ih]
      cases kind <;> rfl
    | remove gone =>
      refine (((new className resolver).useAll uses).entries_unlink gone key).trans ?_
      rw [IndexUse.version, ih]
      split <;> rfl
    | upsert ingress =>
      refine (((new className resolver).useAll uses).entries_upsert ingress key).trans ?_
      rw [IndexUse.version, ih, reflects.sameClass, reflects.sameResolver]
      split <;> rfl

/-- **The index lists what its history says.** Under a secret or a service it lists the ingresses, each
once and the one indexed last at the end, that were indexed with it and since then neither indexed
without it nor dropped. No key has an empty list, and the size is the number of ingresses that need
something. -/
theorem useAll_lists (className : String) (resolver : SecretResolver) (uses : List IndexUse) :
    let index := (new className resolver).useAll uses
    (∀ secret, IndexUse.Lists uses (fun ingress => secret ∈ ingress.secretsNeeded className resolver)
      (index.lookupSecret secret).2) ∧
    (∀ service, IndexUse.Lists uses (fun ingress => service ∈ ingress.servicesNeeded className)
      (index.lookupService service).2) ∧
    (∀ key, index.bySecret.get? key ≠ some [] ∧ index.byService.get? key ≠ some []) ∧
    index.size = {key | ∃ ingress, IndexUse.latest uses key = some ingress ∧
      (ingress.secretsNeeded className resolver ≠ [] ∨ ingress.servicesNeeded className ≠ [])}.ncard := by
  intro index
  have reflects := (reflects_new className resolver).useAll uses
  have filled := (filled_new className resolver).useAll uses
  have lists (kind : Kind) (dependency : kind ≠ .ingress) (place : ResourceKey) :
      IndexUse.Lists uses (fun ingress => place ∈ ingress.needed className resolver kind)
        (index.lookup kind place).2 :=
    { nodup := (reflects.listed.lookup kind place).2
      ordered := ordered_useAll className resolver uses dependency place
      exact := fun key => reflects.found kind place key dependency }
  refine ⟨lists .secret nofun, lists .service nofun,
    fun key => ⟨filled.secrets key, filled.services key⟩, ?_⟩
  rw [size, Table.size_eq_ncard]
  congr 1
  ext key
  simp only [Set.mem_ofPred_eq, index, entries_useAll, Option.bind_eq_some_iff]
  constructor
  · rintro ⟨entry, ingress, latest, kept⟩
    exact ⟨ingress, latest, Ingress.posted?_isSome.1 ⟨entry, kept⟩⟩
  · rintro ⟨ingress, latest, needs⟩
    obtain ⟨entry, kept⟩ := Ingress.posted?_isSome.2 needs
    exact ⟨entry, ingress, latest, kept⟩

end IngressIndex

end TunnelIngress
