import TunnelIngress.Proofs.Ingress.IndexHistory
import TunnelIngress.Proofs.Ingress.Relist

/-!
# The index beside the cache

An ingress is indexed as soon as an event shows it, but a list reaches the cache only when it is
complete. When it is, the index and the cache meet again: what was cached and is not in the list is
dropped from both. What only a list had that was broken off is in neither cache nor list, so it stays in
the index.
-/

namespace TunnelIngress

/-- An ingress of another class needs nothing. -/
theorem Ingress.hasClass_of_needed {ingress : Ingress} {className : String} {resolver : SecretResolver}
    {kind : Kind} {place : ResourceKey} (needs : place ∈ ingress.needed className resolver kind) :
    ingress.hasClass className = true := by
  by_contra other
  cases kind <;> simp [needed, secretsNeeded, servicesNeeded, other] at needs

/-- What the list in progress has under a key. -/
def Cache.listed? {α : Type} (cache : Cache α) (key : ResourceKey) : Option α :=
  cache.buffer.get? ⟨key.name, some key.ns⟩

/-- The watch of the ingresses beside the queue that it feeds and the index that it keeps. -/
structure IndexSession extends WatchSession Ingress where
  /-- What lists that were broken off had of ingresses, until these are applied or deleted, or a list is
  complete that has them or takes them out of the cache. -/
  abandoned : ResourceKey → Option Ingress

namespace IndexSession

def start (className : String) (resolver : SecretResolver) : IndexSession :=
  { WatchSession.start (.new className resolver) with abandoned := fun _ => none }

def abandonedAfter (session : IndexSession) (event : WatchEvent Ingress) (key : ResourceKey) :
    Option Ingress :=
  let cache := session.watch.cache
  match event with
  | .apply ingress => if key = keyOf ingress then none else session.abandoned key
  | .delete ingress => if key = keyOf ingress then none else session.abandoned key
  | .beginList => (cache.listed? key).or (session.abandoned key)
  | .listItem _ => session.abandoned key
  | .endList =>
    if (cache.listed? key).isSome || (cache.find? key).isSome then none else session.abandoned key

/-- The watch has handled an event. -/
def showed (session : IndexSession) (event : WatchEvent Ingress) (outcome : Watch.Outcome Ingress) :
    IndexSession :=
  { session.absorb event outcome with abandoned := session.abandonedAfter event }

/-- The events of the watch come in order, where a new list may begin before the one in progress is
complete. Workers use the queue and the index in between. -/
inductive Step (admission : Admission) (session : IndexSession) : IndexSession → Prop where
  | event (event : WatchEvent Ingress) (outcome : Watch.Outcome Ingress)
      (ordered : event.follows session.listing = true)
      (placed : ∀ ingress ∈ event.object?, ingress.metadata.ns.isSome)
      (handled : session.watch.handle admission session.index event = some outcome) :
      Step admission session (session.showed event outcome)
  | call (call : QueueCall) (work : QueueSession) (running : call ≠ .close)
      (step : session.work.step? call = some work) :
      Step admission session { session.called call work with abandoned := session.abandoned }
  | lookup (kind : Kind) (key : ResourceKey) :
      Step admission session { session with index := (session.index.lookup kind key).1 }

abbrev Leads (admission : Admission) : IndexSession → IndexSession → Prop :=
  Relation.ReflTransGen (Step admission)

/-- The version of an ingress that was indexed last. -/
def version (session : IndexSession) (key : ResourceKey) : Option Ingress :=
  ((session.watch.cache.listed? key).or (session.abandoned key)).or (session.watch.cache.find? key)

structure Sound (admission : Admission) (className : String) (resolver : SecretResolver)
    (session : IndexSession) : Prop where
  watched : session.toWatchSession.Sound admission
  reflects : session.index.Reflects className resolver session.version
  apart : session.listing = false → ∀ key ingress, session.abandoned key = some ingress →
    session.watch.cache.find? key = none

/-- A list has the ingresses of the class that are of a certain sort, each once: those that are cached
and those that were left from lists that were broken off. -/
structure Lists (session : IndexSession) (className : String) (needs : Ingress → Prop)
    (found : List ResourceKey) : Prop where
  nodup : found.Nodup
  exact : ∀ key, key ∈ found ↔ ∃ ingress,
    (session.watch.cache.find? key = some ingress ∨ session.abandoned key = some ingress) ∧
      ingress.hasClass className = true ∧ needs ingress

variable {admission : Admission} {className : String} {resolver : SecretResolver}
  {session later : IndexSession} {key : ResourceKey}

theorem sound_start (admission : Admission) (className : String) (resolver : SecretResolver) :
    (start className resolver).Sound admission className resolver where
  watched := WatchSession.sound_start admission _
  reflects := IngressIndex.reflects_new className resolver
  apart _ _ _ none := nomatch none

/-! ### What an event does to the index -/

/-- What the watch does with the index at an event. The end of a list drops the ingresses that were
cached and are not in the list. -/
def uses (session : IndexSession) : WatchEvent Ingress → List IndexUse
  | .apply ingress => [.upsert ingress]
  | .delete ingress => [.remove (keyOf ingress)]
  | .beginList => []
  | .listItem ingress => [.upsert ingress]
  | .endList => session.watch.gone.map fun ingress => .remove (keyOf ingress)

theorem deletedAll_index (admission : Admission) (index : IngressIndex) (gone : List Ingress) :
    (Watch.deletedAll admission index gone).1 =
      index.useAll (gone.map fun ingress => .remove (keyOf ingress)) := by
  suffices general : ∀ done : IngressIndex × List WorkKey,
      (gone.foldl (fun (done : IngressIndex × List WorkKey) ingress =>
        ((Watch.deleted admission done.1 ingress).1, done.2 ++ (Watch.deleted admission done.1 ingress).2))
        done).1 = done.1.useAll (gone.map fun ingress => .remove (keyOf ingress)) from general (index, [])
  induction gone with
  | nil => exact fun _ => rfl
  | cons ingress rest ih => exact fun done => ih _

theorem handle_uses {event : WatchEvent Ingress} {outcome : Watch.Outcome Ingress}
    (handled : session.watch.handle admission session.index event = some outcome) :
    outcome.index = session.index.useAll (session.uses event) := by
  cases event with
  | apply ingress =>
    obtain ⟨_, _, rfl⟩ := Watch.handle_apply handled
    exact Watch.changed_index
  | delete ingress =>
    obtain ⟨_, _, rfl⟩ := Watch.handle_delete handled
    rfl
  | beginList =>
    cases handled
    rfl
  | listItem ingress =>
    obtain ⟨_, _, rfl⟩ := Watch.handle_listItem handled
    exact Watch.changed_index
  | endList =>
    cases handled
    exact deletedAll_index admission session.index session.watch.gone

theorem versions_removed (gone : List Ingress) (key : ResourceKey) (before : Option Ingress) :
    (gone.map fun ingress => IndexUse.remove (keyOf ingress)).foldl (IndexUse.version key) before =
      if ∃ ingress ∈ gone, keyOf ingress = key then none else before := by
  induction gone generalizing before with
  | nil => simp
  | cons ingress rest ih =>
    rw [List.map_cons, List.foldl_cons, ih]
    by_cases here : keyOf ingress = key <;> by_cases later : ∃ ingress ∈ rest, keyOf ingress = key <;>
      simp [IndexUse.version, here, later, eq_comm (a := key)]

/-! ### What an event does to the cache -/

theorem listed?_listItem (cache : Cache Ingress) (ingress : Ingress) (other : ResourceKey) :
    (cache.listItem ⟨(keyOf ingress).name, some (keyOf ingress).ns⟩ ingress).listed? other =
      if other = keyOf ingress then some ingress else cache.listed? other := by
  rw [Cache.listed?, Cache.listItem, Table.get?_insert]
  simp only [Watch.ref_eq_iff]
  rfl

theorem mem_gone (sound : session.toWatchSession.Sound admission) :
    (∃ ingress ∈ session.watch.gone, keyOf ingress = key) ↔
      session.watch.cache.listed? key = none ∧ (session.watch.cache.find? key).isSome := by
  have unlisted : (⟨key.name, some key.ns⟩ : ObjectRef) ∉ session.watch.listed ↔
      session.watch.cache.listed? key = none := by
    rw [sound.listed, Option.eq_none_iff_forall_ne_some, not_exists]
    rfl
  have here {ingress : Ingress} (found : session.watch.cache.find? key = some ingress) :
      refOf? ingress = some ⟨key.name, some key.ns⟩ := by
    rw [Watch.find?_of_placed sound.cached] at found
    exact (sound.cached _ ingress found).1
  constructor
  · rintro ⟨ingress, mem, same⟩
    obtain ⟨mem, left⟩ := List.mem_filter.1 mem
    have found := (Watch.find?_eq_some_iff sound.cached).2 ⟨mem, same⟩
    rw [here found] at left
    exact ⟨unlisted.1 (by simpa using left), by rw [found]; rfl⟩
  · rintro ⟨absent, there⟩
    obtain ⟨ingress, found⟩ := Option.isSome_iff_exists.1 there
    obtain ⟨mem, same⟩ := (Watch.find?_eq_some_iff sound.cached).1 found
    refine ⟨ingress, List.mem_filter.2 ⟨mem, ?_⟩, same⟩
    rw [here found]
    simpa using unlisted.2 absent

/-- The version that the index has is always the one that the list in progress shows, or else the one
that a list showed which was broken off, or else the one in the cache. -/
theorem version_showed (sound : session.toWatchSession.Sound admission) {event : WatchEvent Ingress}
    {outcome : Watch.Outcome Ingress} (ordered : event.follows session.listing = true)
    (placed : ∀ ingress ∈ event.object?, ingress.metadata.ns.isSome)
    (handled : session.watch.handle admission session.index event = some outcome) (key : ResourceKey) :
    (session.showed event outcome).version key =
      (session.uses event).foldl (IndexUse.version key) (session.version key) := by
  change ((outcome.watch.cache.listed? key).or (session.abandonedAfter event key)).or
    (outcome.watch.cache.find? key) = _
  cases event with
  | apply ingress =>
    have idle : session.listing = false := by simpa [WatchEvent.follows] using ordered
    have unlisted (key : ResourceKey) : session.watch.cache.listed? key = none := sound.settled idle _
    obtain ⟨ref, own, rfl⟩ := Watch.handle_apply handled
    obtain rfl := Watch.ref_of_named own (placed ingress rfl)
    dsimp only
    rw [Watch.find?_apply sound.cached own]
    change ((session.watch.cache.listed? key).or _).or _ = _
    by_cases here : key = keyOf ingress <;>
      simp [abandonedAfter, uses, IndexUse.version, version, unlisted, here]
  | delete ingress =>
    have idle : session.listing = false := by simpa [WatchEvent.follows] using ordered
    have unlisted (key : ResourceKey) : session.watch.cache.listed? key = none := sound.settled idle _
    obtain ⟨ref, own, rfl⟩ := Watch.handle_delete handled
    obtain rfl := Watch.ref_of_named own (placed ingress rfl)
    dsimp only
    rw [Watch.find?_delete sound.cached]
    change ((session.watch.cache.listed? key).or _).or _ = _
    by_cases here : key = keyOf ingress <;>
      simp [abandonedAfter, uses, IndexUse.version, version, unlisted, here]
  | beginList =>
    cases handled
    rfl
  | listItem ingress =>
    obtain ⟨ref, own, rfl⟩ := Watch.handle_listItem handled
    obtain rfl := Watch.ref_of_named own (placed ingress rfl)
    dsimp only
    rw [listed?_listItem]
    change (_ : Option Ingress).or (session.watch.cache.find? key) = _
    by_cases here : key = keyOf ingress <;> simp [abandonedAfter, uses, IndexUse.version, version, here]
  | endList =>
    cases handled
    have now : session.watch.cache.endList.find? key = session.watch.cache.listed? key :=
      Watch.find?_of_placed sound.buffered key
    have emptied : session.watch.cache.endList.listed? key = none := rfl
    dsimp only
    rw [now, emptied, uses, versions_removed, if_congr (mem_gone sound) rfl rfl]
    cases shown : session.watch.cache.listed? key <;> cases hit : session.watch.cache.find? key <;>
      simp [abandonedAfter, version, shown, hit]

/-! ### Every step keeps the invariant -/

theorem Sound.event (sound : session.Sound admission className resolver) {event : WatchEvent Ingress}
    {outcome : Watch.Outcome Ingress} (ordered : event.follows session.listing = true)
    (placed : ∀ ingress ∈ event.object?, ingress.metadata.ns.isSome)
    (handled : session.watch.handle admission session.index event = some outcome) :
    (session.showed event outcome).Sound admission className resolver where
  watched := sound.watched.event ordered placed handled
  reflects := by
    have reflects := sound.reflects.useAll (session.uses event)
    rw [← handle_uses handled] at reflects
    exact reflects.congr (version_showed sound.watched ordered placed handled)
  apart idle key old left := by
    cases event with
    | apply ingress =>
      obtain ⟨ref, own, rfl⟩ := Watch.handle_apply handled
      obtain rfl := Watch.ref_of_named own (placed ingress rfl)
      obtain ⟨other, left⟩ := Option.ite_none_left_eq_some.1 left
      refine (Watch.find?_apply sound.watched.cached own key).trans ?_
      rw [if_neg other]
      exact sound.apart (by simpa [WatchEvent.follows] using ordered) key old left
    | delete ingress =>
      obtain ⟨ref, own, rfl⟩ := Watch.handle_delete handled
      obtain rfl := Watch.ref_of_named own (placed ingress rfl)
      obtain ⟨other, left⟩ := Option.ite_none_left_eq_some.1 left
      refine (Watch.find?_delete sound.watched.cached _ key).trans ?_
      rw [if_neg other]
      exact sound.apart (by simpa [WatchEvent.follows] using ordered) key old left
    | beginList => cases idle
    | listItem ingress =>
      have listing : session.listing = true := ordered
      cases listing.symm.trans idle
    | endList =>
      cases handled
      obtain ⟨neither, _⟩ := Option.ite_none_left_eq_some.1 left
      refine (Watch.find?_of_placed sound.watched.buffered key).trans ?_
      simp only [Bool.or_eq_true, not_or, Option.not_isSome_iff_eq_none] at neither
      exact neither.1

theorem Sound.step (sound : session.Sound admission className resolver)
    (step : Step admission session later) : later.Sound admission className resolver := by
  cases step with
  | event event outcome ordered placed handled => exact sound.event ordered placed handled
  | call call work running step =>
    exact ⟨sound.watched.call running step, sound.reflects, sound.apart⟩
  | lookup kind key =>
    obtain ⟨work, running, cached, buffered, listed, settled, queued, apart⟩ := sound.watched
    exact ⟨⟨work, running, cached, buffered, listed, settled, queued, apart⟩,
      sound.reflects.lookup kind key, sound.apart⟩

theorem Sound.leads (sound : session.Sound admission className resolver)
    (leads : Leads admission session later) : later.Sound admission className resolver := by
  induction leads with
  | refl => exact sound
  | tail _ step ih => exact ih.step step

theorem Sound.version_idle (sound : session.Sound admission className resolver)
    (idle : session.listing = false) {ingress : Ingress} : session.version key = some ingress ↔
      session.watch.cache.find? key = some ingress ∨ session.abandoned key = some ingress := by
  have unlisted : session.watch.cache.listed? key = none := sound.watched.settled idle _
  rw [version, unlisted, Option.none_or]
  cases left : session.abandoned key with
  | none => simp
  | some old => simp [sound.apart idle key old left]

/-- **Between lists the index has what the cache has, and what was left from lists that were broken off.**
Under each secret and service it lists each ingress of the class once that needs it and is cached, and
besides these only ingresses that are not cached: a list showed them, another began before it was
complete, and since then they were in no list that was complete and in no other event. -/
theorem mirrors_between_lists (run : Leads admission (start className resolver) session)
    (idle : session.listing = false) :
    (∀ secret, session.Lists className (fun ingress => secret ∈ ingress.secretsNeeded className resolver)
      (session.index.lookupSecret secret).2) ∧
    (∀ service, session.Lists className (fun ingress => service ∈ ingress.servicesNeeded className)
      (session.index.lookupService service).2) ∧
    ∀ key ingress, session.abandoned key = some ingress → session.watch.cache.find? key = none := by
  have sound := (sound_start admission className resolver).leads run
  have lists (kind : Kind) (dependency : kind ≠ .ingress) (place : ResourceKey) :
      session.Lists className (fun ingress => place ∈ ingress.needed className resolver kind)
        (session.index.lookup kind place).2 :=
    { nodup := (sound.reflects.listed.lookup kind place).2
      exact := fun key => by
        rw [sound.reflects.found kind place key dependency]
        refine exists_congr fun ingress => ?_
        rw [sound.version_idle idle]
        exact and_congr_right fun _ =>
          ⟨fun needs => ⟨Ingress.hasClass_of_needed needs, needs⟩, fun needs => needs.2⟩ }
  exact ⟨lists .secret nofun, lists .service nofun, sound.apart idle⟩

/-! ### A list that is broken off -/

def barIngress : Ingress :=
  { IngressIndex.cafeIngress [] with metadata := { name := some "bar", ns := some "cafe" } }

/-- A list shows one ingress and is broken off. The next one shows another, and is complete. -/
theorem leads_brokenOff :
    ∃ session, Leads WatchSession.tunnelClass (start "argo-tunnel" IngressIndex.wildcard) session ∧
      session.listing = false ∧
      session.watch.cache.find? ⟨"cafe", "menu"⟩ = some (IngressIndex.cafeIngress []) ∧
      session.watch.cache.find? ⟨"cafe", "bar"⟩ = none ∧
      session.abandoned ⟨"cafe", "bar"⟩ = some barIngress ∧
      (⟨"cafe", "bar"⟩ : ResourceKey) ∈ (session.index.lookupService ⟨"cafe", "tea"⟩).2 := by
  have run := (Relation.ReflTransGen.refl (r := Step WatchSession.tunnelClass)
    (a := start "argo-tunnel" IngressIndex.wildcard))
    |>.tail (.event .beginList _ rfl (by rintro _ ⟨⟩) rfl)
    |>.tail (.event (.listItem barIngress) _ rfl (by rintro _ ⟨⟩; rfl) rfl)
    |>.tail (.event .beginList _ rfl (by rintro _ ⟨⟩) rfl)
    |>.tail (.event (.listItem (IngressIndex.cafeIngress [])) _ rfl (by rintro _ ⟨⟩; rfl) rfl)
    |>.tail (.event .endList _ rfl (by rintro _ ⟨⟩) rfl)
  exact ⟨_, run, rfl, rfl, rfl, rfl, by decide⟩

/-- The service of both has the one that is cached and the one that is not. -/
theorem mirrors_between_lists_cafe :
    ∃ session, Leads WatchSession.tunnelClass (start "argo-tunnel" IngressIndex.wildcard) session ∧
      session.listing = false ∧
      (⟨"cafe", "menu"⟩ : ResourceKey) ∈ (session.index.lookupService ⟨"cafe", "tea"⟩).2 ∧
      (⟨"cafe", "bar"⟩ : ResourceKey) ∈ (session.index.lookupService ⟨"cafe", "tea"⟩).2 := by
  obtain ⟨session, run, idle, menu, _, bar, _⟩ := leads_brokenOff
  obtain ⟨_, services, _⟩ := mirrors_between_lists run idle
  refine ⟨session, run, idle, ((services _).exact _).2 ?_, ((services _).exact _).2 ?_⟩
  · exact ⟨_, .inl menu, by decide, by decide⟩
  · exact ⟨_, .inr bar, by decide, by decide⟩

/-- The ingress that only the broken-off list had is still in the index, though it is not cached. -/
theorem abandoned_indexed :
    ¬ ∀ (admission : Admission) (className : String) (resolver : SecretResolver) (session : IndexSession)
      (service key : ResourceKey), Leads admission (start className resolver) session →
      session.listing = false → (key ∈ (session.index.lookupService service).2 ↔
        ∃ ingress, session.watch.cache.find? key = some ingress ∧ ingress.hasClass className = true ∧
          service ∈ ingress.servicesNeeded className) := by
  intro always
  obtain ⟨session, run, idle, _, absent, _, found⟩ := leads_brokenOff
  obtain ⟨ingress, cached, _⟩ := (always _ _ _ session _ _ run idle).1 found
  cases absent.symm.trans cached

end IndexSession

end TunnelIngress
