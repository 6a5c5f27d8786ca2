import TunnelIngress.Proofs.Control.WorkerPool
import TunnelIngress.Proofs.Ingress.IndexPostings
import TunnelIngress.Proofs.Ingress.WatchedIngresses

/-!
# What a lookup finds

The index goes through a history of ingresses that are indexed, ingresses that are dropped and lookups.
After any history a lookup finds just the ingresses whose latest version needs the object, and the rules
of a route need nothing else than what their ingress is indexed under.
-/

namespace TunnelIngress

/-- The objects of a kind that an ingress needs. -/
def Ingress.needed (ingress : Ingress) (className : String) (resolver : SecretResolver) (kind : Kind) :
    List ResourceKey :=
  match kind with
  | .ingress => []
  | .secret => ingress.secretsNeeded className resolver
  | .endpoint | .service => ingress.servicesNeeded className

inductive IndexUse where
  | upsert (ingress : Ingress)
  | remove (key : ResourceKey)
  | lookup (kind : Kind) (key : ResourceKey)

namespace IndexUse

/-- The ingress that is indexed or dropped. -/
def subject? : IndexUse → Option ResourceKey
  | upsert ingress => some (keyOf ingress)
  | remove key => some key
  | lookup _ _ => none

/-- The version of an ingress that the index has after a use. -/
def version (key : ResourceKey) (before : Option Ingress) : IndexUse → Option Ingress
  | upsert ingress => if key = keyOf ingress then some ingress else before
  | remove gone => if key = gone then none else before
  | lookup _ _ => before

/-- The version of an ingress that was indexed last, if it was not dropped after that. -/
def latest (uses : List IndexUse) (key : ResourceKey) : Option Ingress :=
  uses.foldl (version key) none

variable {use : IndexUse} {uses : List IndexUse} {key : ResourceKey} {before : Option Ingress}

theorem version_other (other : use.subject? ≠ some key) : use.version key before = before := by
  cases use with
  | upsert ingress => exact if_neg fun same => other (congrArg some same.symm)
  | remove gone => exact if_neg fun same => other (congrArg some same.symm)
  | lookup kind place => rfl

theorem versions_other (others : ∀ use ∈ uses, use.subject? ≠ some key) :
    uses.foldl (version key) before = before := by
  induction uses with
  | nil => rfl
  | cons use rest ih =>
    rw [List.foldl_cons, version_other (others use List.mem_cons_self)]
    exact ih fun later mem => others later (List.mem_cons_of_mem _ mem)

end IndexUse

namespace IngressIndex

def use (index : IngressIndex) : IndexUse → IngressIndex
  | .upsert ingress => index.upsert ingress
  | .remove key => (index.remove key).1
  | .lookup kind key => (index.lookup kind key).1

def useAll (index : IngressIndex) (uses : List IndexUse) : IngressIndex :=
  uses.foldl use index

variable {index : IngressIndex} {className : String} {resolver : SecretResolver}
  {ingress : Ingress} {key found place : ResourceKey} {kind : Kind}
  {versions : ResourceKey → Option Ingress}

theorem useAll_append (index : IngressIndex) (earlier later : List IndexUse) :
    index.useAll (earlier ++ later) = (index.useAll earlier).useAll later :=
  List.foldl_append

theorem lookup_lookup (kind other : Kind) (key place : ResourceKey) :
    ((index.lookup other key).1.lookup kind place).2 = (index.lookup kind place).2 := by
  cases other <;> cases kind <;> rfl

theorem lookup_remove (kind : Kind) :
    ((index.remove key).1.lookup kind place).2 = ((index.unlink key).lookup kind place).2 := by
  cases kind <;> rfl

/-- An ingress that is dropped is taken out of every list. -/
theorem Listed.lookup_unlink (listed : index.Listed) (dependency : kind ≠ .ingress) :
    ((index.unlink key).lookup kind place).2 = (index.lookup kind place).2.filter (· ≠ key) := by
  cases kind with
  | ingress => exact absurd rfl dependency
  | secret =>
    change (index.unlink key).bySecret.of place = _
    rw [bySecret_unlink]
    exact listed.secrets.of_dropAll key place
  | endpoint | service =>
    change (index.unlink key).byService.of place = _
    rw [byService_unlink]
    exact listed.services.of_dropAll key place

/-- An ingress that is indexed goes to the end of the lists of what it needs, and out of all others. -/
theorem Listed.lookup_upsert (listed : index.Listed) (dependency : kind ≠ .ingress) :
    ((index.upsert ingress).lookup kind place).2 =
      (index.lookup kind place).2.filter (· ≠ keyOf ingress) ++
        if place ∈ ingress.needed index.className index.resolver kind then [keyOf ingress] else [] := by
  rw [← listed.lookup_unlink dependency]
  obtain ⟨⟨bySecret, byService⟩, _⟩ := index.upsert_spec ingress
  cases kind with
  | ingress => exact absurd rfl dependency
  | secret =>
    change (index.upsert ingress).bySecret.of place = _
    rw [bySecret]
    exact Postings.of_postAll (ingress.nodup_secretsNeeded _ _) _ _ _
  | endpoint | service =>
    change (index.upsert ingress).byService.of place = _
    rw [byService]
    exact Postings.of_postAll (ingress.nodup_servicesNeeded _) _ _ _

/-- What the index lists comes from certain versions of the ingresses. -/
structure Reflects (index : IngressIndex) (className : String) (resolver : SecretResolver)
    (versions : ResourceKey → Option Ingress) : Prop where
  sameClass : index.className = className
  sameResolver : index.resolver = resolver
  listed : index.Listed
  found : ∀ kind place key, kind ≠ .ingress → (key ∈ (index.lookup kind place).2 ↔
    ∃ ingress, versions key = some ingress ∧ place ∈ ingress.needed className resolver kind)

theorem Reflects.congr (reflects : index.Reflects className resolver versions)
    {versions' : ResourceKey → Option Ingress} (same : ∀ key, versions' key = versions key) :
    index.Reflects className resolver versions' :=
  funext same ▸ reflects

theorem reflects_new (className : String) (resolver : SecretResolver) :
    (new className resolver).Reflects className resolver fun _ => none where
  sameClass := rfl
  sameResolver := rfl
  listed := listed_new className resolver
  found kind place key dependency := by
    cases kind with
    | ingress => exact absurd rfl dependency
    | secret | endpoint | service =>
      refine iff_of_false List.not_mem_nil ?_
      rintro ⟨ingress, none, _⟩
      cases none

theorem Reflects.upsert (reflects : index.Reflects className resolver versions) (ingress : Ingress) :
    (index.upsert ingress).Reflects className resolver
      fun key => (IndexUse.upsert ingress).version key (versions key) where
  sameClass := upsert_className.trans reflects.sameClass
  sameResolver := upsert_resolver.trans reflects.sameResolver
  listed := reflects.listed.upsert ingress
  found kind place key dependency := by
    rw [reflects.listed.lookup_upsert dependency, List.mem_append, List.mem_filter,
      reflects.found _ _ _ dependency, reflects.sameClass, reflects.sameResolver]
    dsimp only [IndexUse.version]
    by_cases same : key = keyOf ingress <;> simp [same]

theorem Reflects.remove (reflects : index.Reflects className resolver versions) (gone : ResourceKey) :
    (index.remove gone).1.Reflects className resolver
      fun key => (IndexUse.remove gone).version key (versions key) where
  sameClass := remove_className.trans reflects.sameClass
  sameResolver := remove_resolver.trans reflects.sameResolver
  listed := reflects.listed.remove gone
  found kind place key dependency := by
    rw [lookup_remove, reflects.listed.lookup_unlink dependency, List.mem_filter,
      reflects.found _ _ _ dependency]
    dsimp only [IndexUse.version]
    by_cases same : key = gone <;> simp [same]

theorem Reflects.lookup (reflects : index.Reflects className resolver versions) (other : Kind)
    (asked : ResourceKey) : (index.lookup other asked).1.Reflects className resolver versions where
  sameClass := (lookup_className other).trans reflects.sameClass
  sameResolver := (lookup_resolver other).trans reflects.sameResolver
  listed := (reflects.listed.lookup other asked).1
  found kind place key dependency := by
    rw [lookup_lookup]
    exact reflects.found kind place key dependency

theorem Reflects.use (reflects : index.Reflects className resolver versions) (use : IndexUse) :
    (index.use use).Reflects className resolver fun key => use.version key (versions key) := by
  cases use with
  | upsert ingress => exact reflects.upsert ingress
  | remove gone => exact reflects.remove gone
  | lookup kind key => exact reflects.lookup kind key

theorem Reflects.useAll (reflects : index.Reflects className resolver versions) (uses : List IndexUse) :
    (index.useAll uses).Reflects className resolver
      fun key => uses.foldl (IndexUse.version key) (versions key) := by
  induction uses generalizing index versions with
  | nil => exact reflects
  | cons use rest ih => exact ih (reflects.use use)

variable {caches : Caches} {settings : TunnelSettings} {plan : RoutePlan} {rule : Rule} {spec : LinkSpec}

/-- **All that the rules of a route depend on leads back to their ingress.** The service of a rule is among
the services that its ingress needs, and its secret, if it has one, among the secrets. So once the ingress
is indexed, whatever was done with the index before, it is found under them, until it is indexed anew or
dropped. -/
theorem rules_found (ours : ingress.hasClass className = true)
    (built : RoutePlan.ofIngress caches resolver settings ingress = .ok plan)
    (planned : plan.links.get? rule = some spec) (earlier later : List IndexUse)
    (kept : ∀ use ∈ later, use.subject? ≠ some (keyOf ingress)) :
    let index := (((new className resolver).useAll earlier).upsert ingress).useAll later
    (rule.service ∈ ingress.servicesNeeded className ∧
        keyOf ingress ∈ (index.lookup .service rule.service).2 ∧
        keyOf ingress ∈ (index.lookup .endpoint rule.service).2) ∧
      ∀ secret, rule.secret = some secret →
        secret ∈ ingress.secretsNeeded className resolver ∧
          keyOf ingress ∈ (index.lookup .secret secret).2 := by
  intro index
  obtain ⟨port, asks, _⟩ :=
    RoutePlan.mem_servedRules.1 (((RoutePlan.ofIngress_spec built).2.2 rule spec).1 planned).1
  have service := asks.service_needed ours
  have indexed := ((reflects_new className resolver).useAll earlier).upsert ingress
  have current : IndexUse.version (keyOf ingress) (IndexUse.latest earlier (keyOf ingress))
      (.upsert ingress) = some ingress := if_pos rfl
  have still := (indexed.useAll later).found
  have finds {kind : Kind} {place : ResourceKey} (dependency : kind ≠ .ingress)
      (needed : place ∈ ingress.needed className resolver kind) :
      keyOf ingress ∈ (index.lookup kind place).2 := by
    refine (still kind place (keyOf ingress) dependency).2 ⟨ingress, ?_, needed⟩
    exact (IndexUse.versions_other kept).trans current
  refine ⟨⟨service, finds nofun service, finds nofun service⟩, fun secret named => ?_⟩
  have needed := asks.secret_needed ours named
  exact ⟨needed, finds nofun needed⟩

/-! ### An ingress that gets a certificate -/

def cafeIngress (tls : List IngressTls) : Ingress :=
  { metadata := { name := some "menu", ns := some "cafe" }
    spec := some
      { className := some "argo-tunnel"
        rules := some
          [⟨some "cafe.example", some
            [⟨some "/", "Prefix", { service := some ⟨"tea", some ⟨some "http", none⟩⟩ }⟩]⟩]
        tls := some tls }
    hasStatus := false }

def cafeCaches : Caches :=
  { Caches.empty with
    services := Cache.empty.apply ⟨"tea", some "cafe"⟩
      { metadata := { name := some "tea", ns := some "cafe" }, spec := some (some [⟨some "http", 80⟩]) }
    endpoints := Cache.empty.apply ⟨"tea", some "cafe"⟩
      { metadata := { name := some "tea", ns := some "cafe" }, subsets := some [some ["10.0.0.1"]] } }

def wildcard : SecretResolver :=
  { default := some ⟨"tunnels", "wildcard"⟩, overrides := ∅ }

def cafeRule : Rule :=
  { host := "cafe.example", port := 80, service := ⟨"cafe", "tea"⟩, secret := some ⟨"cafe", "cert"⟩ }

/-- The ingress first falls back on the secret for all hosts, and then names one of its own. -/
theorem rules_found_cafe :
    let named := cafeIngress [⟨some ["cafe.example"], some "cert"⟩]
    let index := (((new "argo-tunnel" wildcard).useAll
      [.upsert (cafeIngress []), .lookup .secret ⟨"tunnels", "wildcard"⟩]).upsert named).useAll
        [.remove ⟨"cafe", "other"⟩]
    cafeRule ∈ RoutePlan.servedRules cafeCaches wildcard named ∧
      (⟨"cafe", "menu"⟩ : ResourceKey) ∈ (index.lookup .endpoint ⟨"cafe", "tea"⟩).2 ∧
      (⟨"cafe", "menu"⟩ : ResourceKey) ∈ (index.lookup .secret ⟨"cafe", "cert"⟩).2 := by
  intro named index
  obtain ⟨plan, built⟩ : ∃ plan, RoutePlan.ofIngress cafeCaches wildcard {} named = .ok plan := ⟨_, rfl⟩
  have served : cafeRule ∈ RoutePlan.servedRules cafeCaches wildcard named := by decide
  have planned := ((RoutePlan.ofIngress_spec built).2.2 cafeRule _).2 ⟨served, rfl⟩
  obtain ⟨⟨_, _, endpoints⟩, secrets⟩ :=
    rules_found (by decide : named.hasClass "argo-tunnel" = true) built planned
      [.upsert (cafeIngress []), .lookup .secret ⟨"tunnels", "wildcard"⟩] [.remove ⟨"cafe", "other"⟩]
      (by decide)
  exact ⟨served, endpoints, (secrets _ rfl).2⟩

end IngressIndex

/-! ### The index of the controller -/

namespace WorkerPool

variable {settings : TunnelSettings} {admission : Admission} {className : String}
  {resolver : SecretResolver} {workers : Nat} {pool later : WorkerPool} {item : String} {errand : Errand}
  {allowed : WorkerPool → Kind → WatchEvent AnyObject → Prop}

/-- A watch event indexes or drops ingresses. -/
theorem absorb_uses {kind : Kind} {event : WatchEvent AnyObject} {outcome : Watches.Outcome}
    (handled : pool.watches.handle admission pool.index kind event = some outcome) :
    ∃ uses, outcome.index = pool.index.useAll uses := by
  rcases Watches.ingress_or_other handled with ⟨_, same⟩ | ⟨own, single, _, _, acted, rfl⟩
  · exact ⟨[], same⟩
  · refine Watch.handle_index (fun later => ∃ uses, later = pool.index.useAll uses) ?_ ?_ acted ⟨[], rfl⟩
    · rintro object _ ⟨uses, rfl⟩
      exact ⟨_, (pool.index.useAll_append uses [.upsert object]).symm⟩
    · rintro object _ ⟨uses, rfl⟩
      exact ⟨_, (pool.index.useAll_append uses [.remove (keyOf object)]).symm⟩

/-- A worker looks up what depends on its item. -/
theorem Turn.uses (turn : Turn settings pool item later errand) :
    ∃ uses, later.index = pool.index.useAll uses := by
  have looked {key : WorkKey} {index : IngressIndex} {result : Except Phrase.Fault Demand}
      (found : Demand.ofKey pool.caches pool.index settings key.kind key.key = (index, result)) :
      ∃ uses, index = pool.index.useAll uses := by
    by_cases ingress : key.kind = .ingress
    · rw [ingress] at found
      exact ⟨[], (congrArg Prod.fst found).symm⟩
    · rw [Demand.ofKey_dependency _ _ _ _ ingress] at found
      exact ⟨[.lookup key.kind key.key], (congrArg Prod.fst found).symm⟩
  cases turn with
  | malformed | refused | retried => exact ⟨[], rfl⟩
  | died key read placed index fault found => exact looked found
  | unconcerned key read placed index demand found fleet built => exact looked found
  | built key read placed index demand found fleet mutation built => exact looked found

theorem Step.uses (step : Step settings admission allowed pool later) :
    ∃ uses, later.index = pool.index.useAll uses := by
  cases step with
  | changed kind event may outcome handled => exact absorb_uses handled
  | turned worker item busy later errand turn => exact turn.uses
  | queued | due | took | left | began | carried | completed | finished => exact ⟨[], rfl⟩

/-- **The index of the controller has a history.** Watches and workers use it in these ways only, so all
that is known of a lookup after any uses holds at any moment of any run. -/
theorem index_history
    (leads : Leads settings admission allowed (start className resolver workers) pool) :
    ∃ uses, pool.index = (IngressIndex.new className resolver).useAll uses := by
  induction leads with
  | refl => exact ⟨[], rfl⟩
  | tail _ step ih =>
    obtain ⟨earlier, index⟩ := ih
    obtain ⟨uses, later⟩ := step.uses
    exact ⟨earlier ++ uses, by rw [later, index, IngressIndex.useAll_append]⟩

end WorkerPool

end TunnelIngress
