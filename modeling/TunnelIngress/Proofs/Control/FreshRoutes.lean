import TunnelIngress.Proofs.Control.Convergence
import TunnelIngress.Proofs.Control.WorkerPool

/-!
# How fresh the routes are

The routes are changed in the order in which the workers get their turn, which need not be the order in
which they read the caches. A change is at least as fresh as those of the same item before it, and as
those that had begun when its own caches were read. Any other may be undone by one that is older.
-/

namespace TunnelIngress

namespace WorkerPool

variable {settings : TunnelSettings} {admission : Admission}
  {allowed : WorkerPool → Kind → WatchEvent AnyObject → Prop} {pool later : WorkerPool}

/-- A change is at least as fresh as each change that began before it, if that was of the same item or
had begun when the caches were read. -/
def Fresher (draft : Draft) (changes : List Draft) : Prop :=
  ∀ (i : Nat) (earlier : Draft), changes[i]? = some earlier →
    earlier.item = draft.item ∨ i < draft.begun → earlier.revision ≤ draft.revision

/-- No change is ahead of the caches, and one that is about to begin is at least as fresh as it has to
be. While its item is in hand, no other change of that item begins. -/
structure Ordered (pool : WorkerPool) : Prop where
  past : ∀ draft ∈ pool.changes, draft.revision ≤ pool.revision
  built : ∀ worker draft, pool.errands worker = .built draft →
    draft.revision ≤ pool.revision ∧ draft.begun ≤ pool.changes.length ∧ Fresher draft pool.changes
  began : ∀ j draft, pool.changes[j]? = some draft → Fresher draft (pool.changes.take j)

theorem Ordered.put (ordered : pool.Ordered) {worker : Nat} {errand : Errand}
    (fresh : ∀ draft, errand = .built draft → draft.revision ≤ pool.revision ∧
      draft.begun ≤ pool.changes.length ∧ Fresher draft pool.changes) :
    (pool.put worker errand).Ordered where
  past := ordered.past
  built other draft ready := by
    rw [errands_put] at ready
    split at ready
    · exact fresh draft ready
    · exact ordered.built other draft ready
  began := ordered.began

/-- What was built just now is as fresh as can be. -/
theorem Ordered.fresh (ordered : pool.Ordered) (item : String) (mutation : Mutation) :
    Fresher ⟨item, mutation, pool.revision, pool.changes.length⟩ pool.changes :=
  fun _ earlier hit _ => ordered.past earlier (List.mem_of_getElem? hit)

theorem Ordered.begin (ordered : pool.Ordered) (sound : pool.Sound) {worker : Nat} {draft : Draft}
    (ready : pool.errands worker = .built draft) :
    ((pool.begin worker draft).put worker (.changing draft.item)).Ordered := by
  obtain ⟨now, _, fresh⟩ := ordered.built worker draft ready
  refine ⟨fun change mem => ?_, fun other built works => ?_, fun j change hit => ?_⟩
  · rcases List.mem_append.1 mem with mem | mem
    · exact ordered.past change mem
    · rwa [List.mem_singleton.1 mem]
  · rw [errands_put] at works
    split at works
    · cases works
    · rename_i ne
      change pool.errands other = .built built at works
      obtain ⟨now', begun, fresh'⟩ := ordered.built other built works
      -- The change that begins is of another item, and the caches were read before it began.
      have apart : draft.item ≠ built.item := fun same =>
        ne (sound.alone (by rw [works]; rfl) (by rw [ready, ← same]; rfl))
      have grown : pool.changes.length ≤ (pool.changes ++ [draft]).length := by simp
      refine ⟨now', Nat.le_trans begun grown, fun i earlier hit must => ?_⟩
      change (pool.changes ++ [draft])[i]? = some earlier at hit
      by_cases before : i < pool.changes.length
      · rw [List.getElem?_append_left before] at hit
        exact fresh' i earlier hit must
      · have here : i < built.begun → i < pool.changes.length := fun lt => Nat.lt_of_lt_of_le lt begun
        rw [List.getElem?_append_right (Nat.le_of_not_lt before)] at hit
        obtain rfl : earlier = draft := List.mem_singleton.1 (List.mem_of_getElem? hit)
        exact absurd must (not_or.2 ⟨apart, fun lt => before (here lt)⟩)
  · change (pool.changes ++ [draft])[j]? = some change at hit
    change Fresher change ((pool.changes ++ [draft]).take j)
    by_cases before : j < pool.changes.length
    · rw [List.getElem?_append_left before] at hit
      rw [List.take_append_of_le_length (Nat.le_of_lt before)]
      exact ordered.began j change hit
    · have last : j = pool.changes.length := by
        have inside := (List.getElem?_eq_some_iff.1 hit).1
        rw [List.length_append, List.length_singleton] at inside
        omega
      subst last
      rw [List.getElem?_concat_length] at hit
      cases hit
      rw [List.take_left]
      exact fresh

theorem Ordered.step (ordered : pool.Ordered) (sound : pool.Sound)
    (step : Step settings admission allowed pool later) : later.Ordered := by
  cases step with
  | changed kind event may outcome handled =>
    refine ⟨fun draft mem => Nat.le_succ_of_le (ordered.past draft mem), fun worker draft ready => ?_,
      ordered.began⟩
    obtain ⟨now, rest⟩ := ordered.built worker draft ready
    exact ⟨Nat.le_succ_of_le now, rest⟩
  | queued item next => exact ⟨ordered.past, ordered.built, ordered.began⟩
  | due item work step => exact ⟨ordered.past, ordered.built, ordered.began⟩
  | took worker idle item taken answer =>
    have same : { pool with work := pool.work.take worker }.Ordered :=
      ⟨ordered.past, ordered.built, ordered.began⟩
    exact same.put fun draft ready => nomatch ready
  | left worker idle closed => exact ordered.put fun draft ready => nomatch ready
  | turned worker item busy later errand turn =>
    have keeps := turn.keeps
    have same : later.Ordered := by
      refine ⟨?_, ?_, ?_⟩
      · rw [keeps.changes, keeps.revision]
        exact ordered.past
      · rw [keeps.changes, keeps.revision, keeps.errands]
        exact ordered.built
      · rw [keeps.changes]
        exact ordered.began
    refine same.put fun draft ready => ?_
    rw [keeps.changes, keeps.revision]
    rcases keeps.errand with rfl | rfl | ⟨mutation, rfl⟩
    · cases ready
    · cases ready
    · cases ready
      exact ⟨Nat.le_refl _, Nat.le_refl _, ordered.fresh item mutation⟩
  | began worker draft ready free => exact ordered.begin sound ready
  | carried router goes => exact ⟨ordered.past, ordered.built, ordered.began⟩
  | completed worker item busy done => exact ordered.put fun draft ready => nomatch ready
  | finished worker item done =>
    have same : { pool with work := pool.work.finish worker item }.Ordered :=
      ⟨ordered.past, ordered.built, ordered.began⟩
    exact same.put fun draft ready => nomatch ready

theorem ordered_start (className : String) (resolver : SecretResolver) (workers : Nat) :
    (start className resolver workers).Ordered where
  past := by simp [start]
  built worker draft ready := absurd ready (unbuilt_start worker draft)
  began := by simp [start]

theorem Ordered.leads (ordered : pool.Ordered) (sound : pool.Sound)
    (leads : Leads settings admission allowed pool later) : later.Ordered := by
  induction leads with
  | refl => exact ordered
  | tail before step ih => exact ih.step (sound.leads before) step

/-- **When a change of the routes is at least as fresh as one before it.** Of two changes, in the order
in which they began, the later one was built from caches that had seen at least as many events, if both
are of the same item, or the first had begun when the second was built. -/
theorem later_change_fresher {className : String} {resolver : SecretResolver} {workers : Nat}
    (run : Leads settings admission allowed (start className resolver workers) pool)
    {i j : Nat} (before : i < j) {first second : Draft} (began : pool.changes[i]? = some first)
    (began' : pool.changes[j]? = some second) (tied : first.item = second.item ∨ i < second.begun) :
    first.revision ≤ second.revision := by
  have ordered := (ordered_start className resolver workers).leads (sound_start _ _ _) run
  apply ordered.began j second began' i first _ tied
  rw [List.getElem?_take_of_lt before, began]

/-! ### An ingress that changes while a worker is slow -/

section

open ControlLoop (argoTunnel noSecrets reads_site reads_web shopMetadata siteIngress webEndpoints webService)

def pooledIngress : Ingress :=
  { siteIngress with
    metadata := { shopMetadata "site" with annotations := some [("argo.cloudflare.com/lb-pool", "east")] } }

abbrev AppliesOnly (_ : WorkerPool) (_ : Kind) (event : WatchEvent AnyObject) : Prop :=
  ∃ object, event = .apply object

/-- While a worker on an ingress has its turn, another one on the service builds the route once more. -/
theorem later_change_fresher_beside :
    ∃ pool first second, Leads {} argoTunnel AppliesOnly (start "argo-tunnel" noSecrets 2) pool ∧
      pool.changes = [first, second] ∧ first.item ≠ second.item ∧
      (∃ route ∈ first.mutation.brought, route.key = ⟨"shop", "site"⟩) ∧
      (∃ route ∈ second.mutation.brought, route.key = ⟨"shop", "site"⟩) ∧
      first.revision ≤ second.revision := by
  have begun := (Relation.ReflTransGen.refl (r := Step {} argoTunnel AppliesOnly)
    (a := start "argo-tunnel" noSecrets 2))
    |>.tail (.changed .ingress (.apply (.ingress siteIngress)) ⟨_, rfl⟩ _ rfl)
    |>.tail (.queued "ingress/shop/site" (by decide))
    |>.tail (.took 0 rfl "ingress/shop/site" _ rfl)
    |>.tail (.turned 0 "ingress/shop/site" rfl _ _
      (.built ⟨.ingress, ⟨"shop", "site"⟩⟩ (reads_site _) rfl _ _ rfl _ _ rfl))
    |>.tail (.began 0 _ rfl rfl)
  have built := begun
    |>.tail (.changed .service (.apply (.service webService)) ⟨_, rfl⟩ _ rfl)
    |>.tail (.queued "service/shop/web" (by decide))
    |>.tail (.took 1 rfl "service/shop/web" _ rfl)
    |>.tail (.turned 1 "service/shop/web" rfl _ _
      (.built ⟨.service, ⟨"shop", "web"⟩⟩ (reads_web _) rfl _ _ rfl _ _ rfl))
  have both := built
    |>.tail (.carried _ (.finish _ rfl))
    |>.tail (.completed 0 _ rfl fun _ => rfl)
    |>.tail (.finished 0 _ rfl)
    |>.tail (.began 1 _ rfl rfl)
  exact ⟨_, _, _, both, rfl, by decide, ⟨_, List.mem_singleton_self _, rfl⟩,
    ⟨_, List.mem_singleton_self _, rfl⟩,
    later_change_fresher both Nat.zero_lt_one rfl rfl (.inr Nat.zero_lt_one)⟩

/-- A worker on the service has built the route when the ingress changes. Another worker handles the
change, and only then the first gets its turn. All is quiet in the end, and the route is the old one. -/
theorem stale_change_undoes_fresh :
    ∃ pool fresh stale route, Leads {} argoTunnel AppliesOnly (start "argo-tunnel" noSecrets 2) pool ∧
      pool.changes = [fresh, stale] ∧ stale.revision < fresh.revision ∧
      (∃ built ∈ fresh.mutation.brought, built.key = ⟨"shop", "site"⟩) ∧
      (∃ built ∈ stale.mutation.brought, built.key = ⟨"shop", "site"⟩) ∧
      pool.announced = [] ∧ pool.work.queue.dirty = [] ∧ pool.work.queue.processing = [] ∧
      pool.router.pending = none ∧ pool.router.routes.get? ⟨"shop", "site"⟩ = some route ∧
      pool.caches.ingresses.find? ⟨"shop", "site"⟩ = some pooledIngress ∧
      TunnelOptions.ofAnnotations (pooledIngress.metadata.annotations.getD []) ≠ .ok route.options := by
  have fronted := (Relation.ReflTransGen.refl (r := Step {} argoTunnel AppliesOnly)
    (a := start "argo-tunnel" noSecrets 2))
    |>.tail (.changed .endpoint (.apply (.endpoint webEndpoints)) ⟨_, rfl⟩ _ rfl)
    |>.tail (.queued "endpoint/shop/web" (by decide))
    |>.tail (.took 0 rfl "endpoint/shop/web" _ rfl)
    |>.tail (.turned 0 "endpoint/shop/web" rfl _ _
      (.unconcerned ⟨.endpoint, ⟨"shop", "web"⟩⟩ (reads_web _) rfl _ .nothing rfl _ rfl))
    |>.tail (.finished 0 "endpoint/shop/web" rfl)
  have held := fronted
    |>.tail (.changed .service (.apply (.service webService)) ⟨_, rfl⟩ _ rfl)
    |>.tail (.queued "service/shop/web" (by decide))
    |>.tail (.took 0 rfl "service/shop/web" _ rfl)
    |>.tail (.changed .ingress (.apply (.ingress siteIngress)) ⟨_, rfl⟩ _ rfl)
    |>.tail (.queued "ingress/shop/site" (by decide))
    |>.tail (.turned 0 "service/shop/web" rfl _ _
      (.built ⟨.service, ⟨"shop", "web"⟩⟩ (reads_web _) rfl _ _ rfl _ _ rfl))
    |>.tail (.changed .ingress (.apply (.ingress pooledIngress)) ⟨_, rfl⟩ _ rfl)
    |>.tail (.queued "ingress/shop/site" (by decide))
  have overtaken := held
    |>.tail (.took 1 rfl "ingress/shop/site" _ rfl)
    |>.tail (.turned 1 "ingress/shop/site" rfl _ _
      (.built ⟨.ingress, ⟨"shop", "site"⟩⟩ (reads_site _) rfl _ _ rfl _ _ rfl))
    |>.tail (.began 1 _ rfl rfl)
    |>.tail (.carried _ (.start _ 1 [] [] rfl))
    |>.tail (.carried _ (.finish _ rfl))
    |>.tail (.completed 1 _ rfl fun _ => rfl)
    |>.tail (.finished 1 _ rfl)
  -- The tunnel of the new route is stopped again, and that of the old one started.
  have undone := overtaken
    |>.tail (.began 0 _ rfl rfl)
    |>.tail (.carried _ (.stop _ 1 ⟨[], [], [0], []⟩ rfl))
    |>.tail (.carried _ (.act _ 1 _ _ rfl (.launch 0 _ rfl (.inl rfl))))
    |>.tail (.carried _ (.act _ 1 _ _ rfl (.ended 0 _ .exited none rfl rfl)))
    |>.tail (.carried _ (.stopped _ 1 0 ⟨[], [], [0], []⟩ [] [] rfl rfl))
    |>.tail (.carried _ (.start _ 0 [] [] rfl))
    |>.tail (.carried _ (.finish _ rfl))
    |>.tail (.completed 0 _ rfl fun _ => rfl)
    |>.tail (.finished 0 _ rfl)
  exact ⟨_, _, _, _, undone, rfl, by decide, ⟨_, List.mem_singleton_self _, rfl⟩,
    ⟨_, List.mem_singleton_self _, rfl⟩, rfl, rfl, rfl, rfl, rfl, rfl, by decide⟩

end

end WorkerPool

end TunnelIngress
