import TunnelIngress.Ingress.Watches
import TunnelIngress.Proofs.Ingress.Demands
import TunnelIngress.Proofs.Ingress.Relist
import TunnelIngress.Proofs.Tunnel.RouterSession

/-!
# Workers side by side

Watches and workers take turns in any order. An event changes the caches, and only later are its keys
queued. A worker takes an item, reads the caches and builds what the item calls for, and only later is it
its turn to change the routes. In between, everybody else may go on.
-/

namespace TunnelIngress

/-- A change of the routes that was built for an item. -/
structure Draft where
  item : String
  mutation : Mutation
  /-- How many events the caches had seen when they were read. -/
  revision : Nat
  /-- How many changes of the routes had begun by then. -/
  begun : Nat

inductive Errand where
  | absent
  | idle
  | taken (item : String)
  | built (draft : Draft)
  | changing (item : String)
  | handled (item : String)

def Errand.item? : Errand → Option String
  | taken item | changing item | handled item => some item
  | built draft => some draft.item
  | absent | idle => none

structure WorkerPool where
  watches : Watches
  index : IngressIndex
  /-- Items of events that the caches have seen, still to be queued. -/
  announced : List String
  work : QueueSession
  errands : Nat → Errand
  router : RouterSession
  /-- The worker whose change of the routes began last. -/
  holder : Option Nat
  revision : Nat
  /-- All changes of the routes that ever began. -/
  changes : List Draft

namespace WorkerPool

def start (className : String) (resolver : SecretResolver) (workers : Nat) : WorkerPool :=
  { watches := .new
    index := .new className resolver
    announced := []
    work := .new
    errands := fun worker => if worker < workers then .idle else .absent
    router := .new
    holder := none
    revision := 0
    changes := [] }

abbrev caches (pool : WorkerPool) : Caches :=
  pool.watches.caches

def put (pool : WorkerPool) (worker : Nat) (errand : Errand) : WorkerPool :=
  { pool with errands := fun other => if other = worker then errand else pool.errands other }

/-- The caches have seen an event. -/
def absorb (pool : WorkerPool) (outcome : Watches.Outcome) : WorkerPool :=
  { pool with
    watches := outcome.watches
    index := outcome.index
    announced := pool.announced ++ outcome.work.map (·.text)
    revision := pool.revision + 1 }

def begin (pool : WorkerPool) (worker : Nat) (draft : Draft) : WorkerPool :=
  { pool with
    router := pool.router.begin draft.mutation
    holder := some worker
    changes := pool.changes ++ [draft] }

/-- What a worker makes of an item, and what is left for it to do. An item that is no key is dropped, and
one without a namespace is dropped or tried again later. A worker dies of an annotation that is beyond
the range of durations. Otherwise the links of the routes that the item calls for are made. -/
inductive Turn (settings : TunnelSettings) (pool : WorkerPool) (item : String) :
    WorkerPool → Errand → Prop where
  | malformed (error : KeyError) (read : WorkKey.read item = .error error) :
      Turn settings pool item pool (.handled item)
  | refused (key : WorkKey) (read : WorkKey.read item = .ok key) (bare : key.key.hasNamespace = false) :
      Turn settings pool item pool (.handled item)
  | retried (key : WorkKey) (read : WorkKey.read item = .ok key) (bare : key.key.hasNamespace = false)
      (delay : Duration) (work : QueueSession)
      (step : pool.work.step? (.addAfter item delay) = some work) :
      Turn settings pool item { pool with work } (.handled item)
  | died (key : WorkKey) (read : WorkKey.read item = .ok key) (placed : key.key.hasNamespace = true)
      (index : IngressIndex) (fault : Phrase.Fault)
      (found : Demand.ofKey pool.caches pool.index settings key.kind key.key = (index, .error fault)) :
      Turn settings pool item { pool with index } .absent
  | unconcerned (key : WorkKey) (read : WorkKey.read item = .ok key)
      (placed : key.key.hasNamespace = true) (index : IngressIndex) (demand : Demand)
      (found : Demand.ofKey pool.caches pool.index settings key.kind key.key = (index, .ok demand))
      (fleet : Fleet) (built : demand.build pool.router.fleet = (fleet, none)) :
      Turn settings pool item { pool with index, router := { pool.router with fleet } } (.handled item)
  | built (key : WorkKey) (read : WorkKey.read item = .ok key)
      (placed : key.key.hasNamespace = true) (index : IngressIndex) (demand : Demand)
      (found : Demand.ofKey pool.caches pool.index settings key.kind key.key = (index, .ok demand))
      (fleet : Fleet) (mutation : Mutation)
      (built : demand.build pool.router.fleet = (fleet, some mutation)) :
      Turn settings pool item { pool with index, router := { pool.router with fleet } }
        (.built ⟨item, mutation, pool.revision, pool.changes.length⟩)

/-- The events that may come are a matter of the caches they come to. -/
inductive Step (settings : TunnelSettings) (admission : Admission)
    (allowed : WorkerPool → Kind → WatchEvent AnyObject → Prop) (pool : WorkerPool) :
    WorkerPool → Prop where
  | changed (kind : Kind) (event : WatchEvent AnyObject) (may : allowed pool kind event)
      (outcome : Watches.Outcome)
      (handled : pool.watches.handle admission pool.index kind event = some outcome) :
      Step settings admission allowed pool (pool.absorb outcome)
  | queued (item : String) (next : item ∈ pool.announced) :
      Step settings admission allowed pool
        { pool with announced := pool.announced.erase item, work := pool.work.add item }
  | due (item : String) (work : QueueSession) (step : pool.work.step? (.due item) = some work) :
      Step settings admission allowed pool { pool with work }
  | took (worker : Nat) (idle : pool.errands worker = .idle) (item : String) (taken : WorkQueue)
      (answer : pool.work.queue.take = (taken, .item item)) :
      Step settings admission allowed pool
        ({ pool with work := pool.work.take worker }.put worker (.taken item))
  | left (worker : Nat) (idle : pool.errands worker = .idle)
      (closed : pool.work.queue.shutDown = true) :
      Step settings admission allowed pool (pool.put worker .absent)
  | turned (worker : Nat) (item : String) (busy : pool.errands worker = .taken item)
      (later : WorkerPool) (errand : Errand) (turn : Turn settings pool item later errand) :
      Step settings admission allowed pool (later.put worker errand)
  | began (worker : Nat) (draft : Draft) (ready : pool.errands worker = .built draft)
      (free : pool.router.pending = none) :
      Step settings admission allowed pool
        ((pool.begin worker draft).put worker (.changing draft.item))
  | carried (router : RouterSession) (goes : pool.router.Goes router) :
      Step settings admission allowed pool { pool with router }
  | completed (worker : Nat) (item : String) (busy : pool.errands worker = .changing item)
      (done : pool.holder = some worker → pool.router.pending = none) :
      Step settings admission allowed pool (pool.put worker (.handled item))
  | finished (worker : Nat) (item : String) (done : pool.errands worker = .handled item) :
      Step settings admission allowed pool
        ({ pool with work := pool.work.finish worker item }.put worker .idle)

abbrev Leads (settings : TunnelSettings) (admission : Admission)
    (allowed : WorkerPool → Kind → WatchEvent AnyObject → Prop) : WorkerPool → WorkerPool → Prop :=
  Relation.ReflTransGen (Step settings admission allowed)

/-! ### Each worker has an item of its own -/

structure Sound (pool : WorkerPool) : Prop where
  work : pool.work.Sound
  held : ∀ worker item, (pool.errands worker).item? = some item → (worker, item) ∈ pool.work.held

variable {settings : TunnelSettings} {admission : Admission}
  {allowed : WorkerPool → Kind → WatchEvent AnyObject → Prop} {pool later : WorkerPool}
  {worker other : Nat} {item : String} {errand : Errand}

theorem sound_start (className : String) (resolver : SecretResolver) (workers : Nat) :
    (start className resolver workers).Sound where
  work := QueueSession.sound_new
  held worker item held := by
    simp only [start] at held
    split at held <;> cases held

theorem unbuilt_start {className : String} {resolver : SecretResolver} {workers : Nat} (worker : Nat)
    (draft : Draft) : (start className resolver workers).errands worker ≠ .built draft := by
  simp only [start]
  split <;> simp

theorem Sound.alone (sound : pool.Sound) (first : (pool.errands worker).item? = some item)
    (second : (pool.errands other).item? = some item) : worker = other := by
  have same := List.inj_on_of_nodup_map sound.work.exclusive (sound.held worker item first)
    (sound.held other item second) rfl
  exact congrArg Prod.fst same

/-- What somebody works on is being processed. -/
theorem Sound.processing (sound : pool.Sound) (works : (pool.errands worker).item? = some item) :
    item ∈ pool.work.queue.processing :=
  (sound.work.processing item).2 (List.mem_map.2 ⟨_, sound.held worker item works, rfl⟩)

theorem errands_put (pool : WorkerPool) (worker other : Nat) (errand : Errand) :
    (pool.put worker errand).errands other = if other = worker then errand else pool.errands other :=
  rfl

/-- A worker may go on with the item that it has. -/
theorem Sound.put (sound : pool.Sound)
    (same : ∀ item, errand.item? = some item → (pool.errands worker).item? = some item) :
    (pool.put worker errand).Sound where
  work := sound.work
  held other item held := by
    rw [errands_put] at held
    split at held
    · rename_i here
      exact here ▸ sound.held worker item (same item held)
    · exact sound.held other item held

/-- A turn leaves the caches, the routes and all other workers alone. -/
structure Turn.Keeps (pool : WorkerPool) (item : String) (later : WorkerPool) (errand : Errand) : Prop where
  watches : later.watches = pool.watches
  announced : later.announced = pool.announced
  errands : later.errands = pool.errands
  routes : later.router.routes = pool.router.routes
  pending : later.router.pending = pool.router.pending
  holder : later.holder = pool.holder
  revision : later.revision = pool.revision
  changes : later.changes = pool.changes
  className : later.index.className = pool.index.className
  work : pool.work.Sound → later.work.Sound
  gains : pool.work.Gains later.work
  errand : errand = .absent ∨ errand = .handled item ∨
    ∃ mutation, errand = .built ⟨item, mutation, pool.revision, pool.changes.length⟩

theorem Turn.keeps (turn : Turn settings pool item later errand) : Keeps pool item later errand := by
  have counted {key : WorkKey} {index : IngressIndex} {result : Except Phrase.Fault Demand}
      (found : Demand.ofKey pool.caches pool.index settings key.kind key.key = (index, result)) :
      index.className = pool.index.className := by
    have same := Demand.ofKey_className pool.caches pool.index settings key.kind key.key
    rwa [found] at same
  cases turn with
  | malformed error read =>
    exact ⟨rfl, rfl, rfl, rfl, rfl, rfl, rfl, rfl, rfl, id, .refl _, .inr (.inl rfl)⟩
  | refused key read bare =>
    exact ⟨rfl, rfl, rfl, rfl, rfl, rfl, rfl, rfl, rfl, id, .refl _, .inr (.inl rfl)⟩
  | retried key read bare delay work step =>
    exact ⟨rfl, rfl, rfl, rfl, rfl, rfl, rfl, rfl, rfl, fun sound => sound.step ⟨_, step⟩,
      QueueSession.gains_addAfter step, .inr (.inl rfl)⟩
  | died key read placed index fault found =>
    exact ⟨rfl, rfl, rfl, rfl, rfl, rfl, rfl, rfl, counted found, id, .refl _, .inl rfl⟩
  | unconcerned key read placed index demand found fleet built =>
    exact ⟨rfl, rfl, rfl, rfl, rfl, rfl, rfl, rfl, counted found, id, .refl _, .inr (.inl rfl)⟩
  | built key read placed index demand found fleet mutation built =>
    exact ⟨rfl, rfl, rfl, rfl, rfl, rfl, rfl, rfl, counted found, id, .refl _,
      .inr (.inr ⟨mutation, rfl⟩)⟩

theorem Turn.Keeps.own (keeps : Turn.Keeps pool item later errand) {found : String}
    (works : errand.item? = some found) : found = item := by
  rcases keeps.errand with rfl | rfl | ⟨mutation, rfl⟩
  · cases works
  · exact (Option.some.inj works).symm
  · exact (Option.some.inj works).symm

theorem Sound.took (sound : pool.Sound) {taken : WorkQueue}
    (answer : pool.work.queue.take = (taken, .item item)) :
    ({ pool with work := pool.work.take worker }.put worker (.taken item)).Sound where
  work := sound.work.take worker
  held other found works := by
    change _ ∈ (pool.work.take worker).held
    rw [(QueueSession.take_item answer worker).1, List.mem_cons]
    rw [errands_put] at works
    split at works
    · rename_i here
      cases works
      exact .inl (here ▸ rfl)
    · exact .inr (sound.held other found works)

theorem Sound.finished (sound : pool.Sound) (done : pool.errands worker = .handled item) :
    ({ pool with work := pool.work.finish worker item }.put worker .idle).Sound where
  work := sound.work.finish (sound.held worker item (by rw [done]; rfl))
  held other found works := by
    rw [errands_put] at works
    split at works
    · cases works
    · rename_i ne
      have apart : (other, found) ≠ (worker, item) := fun same => ne (congrArg Prod.fst same)
      exact (List.mem_erase_of_ne apart).2 (sound.held other found works)

theorem Sound.step (sound : pool.Sound) (step : Step settings admission allowed pool later) :
    later.Sound := by
  cases step with
  | changed kind event may outcome handled => exact ⟨sound.work, sound.held⟩
  | queued item next => exact ⟨sound.work.add item, sound.held⟩
  | due item work step =>
    refine ⟨sound.work.step ⟨_, step⟩, fun worker item works => ?_⟩
    change _ ∈ work.held
    rw [(QueueSession.gains_due step).held]
    exact sound.held worker item works
  | took worker idle item taken answer => exact sound.took answer
  | left worker idle closed => exact sound.put fun item works => nomatch works
  | turned worker item busy later errand turn =>
    have keeps := turn.keeps
    have held : ∀ worker item, (later.errands worker).item? = some item → (worker, item) ∈ later.work.held := by
      rw [keeps.errands, keeps.gains.held]
      exact sound.held
    have kept : later.Sound := ⟨keeps.work sound.work, held⟩
    refine kept.put fun found works => ?_
    rw [keeps.errands, busy, keeps.own works]
    rfl
  | began worker draft ready free =>
    have kept : (pool.begin worker draft).Sound := ⟨sound.work, sound.held⟩
    exact kept.put fun found works => by
      rw [show (pool.begin worker draft).errands worker = _ from ready]
      exact works
  | carried router goes => exact ⟨sound.work, sound.held⟩
  | completed worker item busy done => exact sound.put fun found works => by rw [busy]; exact works
  | finished worker item done => exact sound.finished done

theorem Sound.leads (sound : pool.Sound) (leads : Leads settings admission allowed pool later) :
    later.Sound := by
  induction leads with
  | refl => exact sound
  | tail _ step ih => exact ih.step step

end WorkerPool

end TunnelIngress
