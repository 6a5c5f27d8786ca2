import TunnelIngress.Proofs.Control.WorkerPool
import TunnelIngress.Rehearsal.Watching

/-!
# Rehearsed turns

A rehearsal handles an event in one go, and a key up to the moment at which it asks for the routes. That
comes to the same as the steps of the pool, so what holds of every order of these holds of it.
-/

namespace TunnelIngress

/-- The caches, the index, the queue and the links are those of the pool, and no event is in progress. -/
structure World.Shows (world : World) (pool : WorkerPool) : Prop where
  watches : world.watches = pool.watches
  index : world.index = pool.index
  queue : world.queue = pool.work.queue
  fleet : world.fleet = pool.router.fleet
  announced : pool.announced = []

namespace World.Shows

variable {world later : World} {pool : WorkerPool} {item : String}

theorem wake (shows : world.Shows pool) (actor : Actor) : (world.wake actor).Shows pool := by
  cases actor <;> exact ⟨shows.watches, shows.index, shows.queue, shows.fleet, shows.announced⟩

theorem wakePools (shows : world.Shows pool) : world.wakePools.Shows pool := by
  unfold World.wakePools
  generalize List.range world.pools.length = pools
  induction pools generalizing world with
  | nil => exact shows
  | cons n rest ih => exact ih (shows.wake (.pool n))

theorem notifyOne (shows : world.Shows pool) : world.notifyOne.Shows pool := by
  unfold World.notifyOne
  obtain ⟨wakeup, first⟩ := world.wakeup.wakeOne
  have notified : { world with wakeup }.Shows pool :=
    ⟨shows.watches, shows.index, shows.queue, shows.fleet, shows.announced⟩
  cases first with
  | none => exact notified
  | some actor => exact notified.wake actor

theorem addItem (shows : world.Shows pool) (item : String) :
    (world.addItem item).Shows { pool with work := pool.work.add item } := by
  have added : (world.setQueue (world.queue.add item).1).Shows { pool with work := pool.work.add item } :=
    ⟨shows.watches, shows.index, congrArg (fun queue => (queue.add item).1) shows.queue, shows.fleet,
      shows.announced⟩
  unfold World.addItem
  dsimp only
  split
  · exact added.notifyOne
  · exact added

end World.Shows

namespace WorkerPool

variable {settings : TunnelSettings} {admission : Admission}
  {allowed : WorkerPool → Kind → WatchEvent AnyObject → Prop} {pool : WorkerPool} {world later : World}
  {kind : Kind} {event : WatchEvent AnyObject} {item : String} {work : WorkKey}

/-- What is announced is queued, in the order in which it was announced. -/
theorem leads_queued (work : List WorkKey) (shows : world.Shows pool) :
    ∃ queued, Leads settings admission allowed { pool with announced := work.map (·.text) } queued ∧
      (world.addWork work).Shows queued := by
  induction work generalizing pool world with
  | nil =>
    have same : { pool with announced := ([] : List WorkKey).map (·.text) } = pool := by
      rw [List.map_nil, ← shows.announced]
    exact ⟨pool, same ▸ .refl, shows⟩
  | cons first rest ih =>
    obtain ⟨queued, leads, seen⟩ := ih (shows.addItem first.text)
    refine ⟨queued, .head (.queued first.text List.mem_cons_self) ?_, seen⟩
    rw [List.map_cons, List.erase_cons_head]
    exact leads

/-- An event that a rehearsal handles is one that changes the caches and whose items are queued next. -/
theorem leads_watchEvent (shows : world.Shows pool) (may : allowed pool kind event)
    (handled : world.watchEvent kind event = some later) :
    ∃ after, Leads settings world.admission allowed pool after ∧ later.Shows after := by
  obtain ⟨outcome, acts, same⟩ := Option.bind_eq_some_iff.1 handled
  cases same
  rw [shows.watches, shows.index] at acts
  have changed : Step settings world.admission allowed pool (pool.absorb outcome) :=
    .changed kind event may outcome acts
  let absorbed : WorkerPool :=
    { pool with watches := outcome.watches, index := outcome.index, revision := pool.revision + 1 }
  have seen : { world with watches := outcome.watches, index := outcome.index }.Shows absorbed :=
    ⟨rfl, rfl, shows.queue, shows.fleet, shows.announced⟩
  have announced : pool.absorb outcome = { absorbed with announced := outcome.work.map (·.text) } := by
    simp [absorb, absorbed, shows.announced]
  obtain ⟨queued, leads, seen⟩ := leads_queued outcome.work seen
  exact ⟨queued, .head changed (announced ▸ leads), seen.wakePools⟩

/-- Handling a key is a worker's turn. What the turn leaves for the worker to do is what handling goes on
to: it is over, or the worker crashes, or the worker asks for a change of the routes. -/
theorem turn_handle (shows : world.Shows pool) (read : WorkKey.read item = .ok work) (actor : Actor) :
    ∃ after errand seen, Turn world.config.tunnel pool item after errand ∧ seen.Shows after ∧
      (errand = .handled item ∧ (world.handle actor work.kind work.key = (seen, .done) ∨
          ∃ error, world.handle actor work.kind work.key = (seen, .refused error)) ∨
        errand = .absent ∧ world.handle actor work.kind work.key = (seen, .crashed) ∨
        ∃ draft, errand = .built draft ∧
          world.handle actor work.kind work.key = seen.handleBy actor draft.mutation) := by
  by_cases placed : work.key.hasNamespace = true
  · cases found : Demand.ofKey pool.caches pool.index world.config.tunnel work.kind work.key with
    | mk index result =>
      have asked : Demand.ofKey world.watches.caches world.index world.config.tunnel work.kind work.key =
          (index, result) := by rw [shows.watches, shows.index]; exact found
      cases result with
      | error fault =>
        refine ⟨_, _, { world with index }, .died work read placed index fault found, ?_,
          .inr (.inl ⟨rfl, ?_⟩)⟩
        · exact ⟨shows.watches, rfl, shows.queue, shows.fleet, shows.announced⟩
        · simp [World.handle, placed, asked]
      | ok demand =>
        cases built : demand.build pool.router.fleet with
        | mk fleet mutation =>
          have made : demand.build world.fleet = (fleet, mutation) := shows.fleet ▸ built
          have seen : { world with index, fleet }.Shows
              { pool with index, router := { pool.router with fleet } } :=
            ⟨shows.watches, rfl, shows.queue, rfl, shows.announced⟩
          cases mutation with
          | none =>
            refine ⟨_, _, _, .unconcerned work read placed index demand found fleet built, seen,
              .inl ⟨rfl, .inl ?_⟩⟩
            simp [World.handle, placed, asked, made]
          | some mutation =>
            refine ⟨_, _, _, .built work read placed index demand found fleet mutation built, seen,
              .inr (.inr ⟨_, rfl, ?_⟩)⟩
            simp [World.handle, placed, asked, made]
  · have bare : work.key.hasNamespace = false := by simpa using placed
    refine ⟨_, _, world, .refused work read bare, shows, .inl ⟨rfl, .inr ⟨?_, ?_⟩⟩⟩
    · exact .missingNamespace work.kind work.key
    · simp [World.handle, bare]

end WorkerPool

end TunnelIngress
