import TunnelIngress.Proofs.Control.Convergence
import TunnelIngress.Proofs.Control.DraftLinks

/-!
# The end of a controller

The signal to stop reaches everybody at a moment of their own: the watches end, the routes are halted,
and the pool closes the queue and waits for its workers. A worker that still has an item then makes its
change after the halt. If that is an update of a route, nobody stops the links that it brings.
-/

namespace TunnelIngress

namespace WorkerPool

variable {settings : TunnelSettings} {admission : Admission}
  {allowed : WorkerPool → Kind → WatchEvent AnyObject → Prop} {pool later : WorkerPool}

def hire (pool : WorkerPool) (workers : Nat) : WorkerPool :=
  { pool with errands := fun worker => if worker < workers then .idle else .absent }

def close (pool : WorkerPool) : WorkerPool :=
  { pool with work := pool.work.close }

/-- The routes are halted, which is no worker's change. -/
def halt (pool : WorkerPool) : WorkerPool :=
  { pool with router := pool.router.begin .halt, holder := none }

/-- Where there was no route, a step brings one only if an update of it begins. -/
theorem Step.routed (step : Step settings admission allowed pool later) :
    ∃ begun, later.changes = pool.changes ++ begun ∧ ∀ key, pool.router.routes.get? key = none →
      later.router.routes.get? key ≠ none → ∃ draft ∈ begun, ∃ route,
        draft.mutation = .update route ∧ route.key = key := by
  cases step with
  | turned worker item busy later errand turn =>
    refine ⟨[], turn.keeps.changes.trans (List.append_nil _).symm, fun key absent routed => ?_⟩
    exact absurd (turn.keeps.routes ▸ absent) routed
  | began worker draft ready free =>
    refine ⟨[draft], rfl, fun key absent routed => ?_⟩
    by_contra other
    apply routed
    apply Routes.plan_absent absent
    intro route updates same
    exact other ⟨draft, List.mem_singleton_self _, route, updates, same⟩
  | carried router goes =>
    refine ⟨[], (List.append_nil _).symm, fun key absent routed => ?_⟩
    exact absurd (RouterSession.goes_absent goes absent) routed
  | _ => exact ⟨[], (List.append_nil _).symm, fun key absent routed => absurd absent routed⟩

/-- A change in progress is that of a worker who waits for its end, or that of somebody else. -/
def Locked (pool : WorkerPool) (other : Prop) : Prop :=
  pool.router.pending = none ∨ (pool.holder = none ∧ other) ∨
    ∃ worker item, pool.holder = some worker ∧ pool.errands worker = .changing item

theorem Locked.put {other : Prop} (locked : pool.Locked other) {worker : Nat} {errand : Errand}
    (idle : ∀ item, pool.errands worker ≠ .changing item) : (pool.put worker errand).Locked other := by
  rcases locked with free | halting | ⟨holder, item, holds, busy⟩
  · exact .inl free
  · exact .inr (.inl halting)
  · have ne : holder ≠ worker := by
      rintro rfl
      exact idle item busy
    exact .inr (.inr ⟨holder, item, holds, (if_neg ne).trans busy⟩)

theorem Locked.step {other : Prop} (locked : pool.Locked other)
    (step : Step settings admission allowed pool later) : later.Locked other := by
  cases step with
  | changed kind event may outcome handled => exact locked
  | queued item next => exact locked
  | due item work step => exact locked
  | took worker idle item taken answer =>
    have same : { pool with work := pool.work.take worker }.Locked other := locked
    exact same.put fun item changing => nomatch idle.symm.trans changing
  | left worker idle closed => exact locked.put fun item changing => nomatch idle.symm.trans changing
  | turned worker item busy later errand turn =>
    have keeps := turn.keeps
    have same : later.Locked other := by
      unfold Locked
      rw [keeps.pending, keeps.holder, keeps.errands]
      exact locked
    refine same.put fun item changing => ?_
    rw [keeps.errands] at changing
    cases busy.symm.trans changing
  | began worker draft ready free => exact .inr (.inr ⟨worker, draft.item, rfl, if_pos rfl⟩)
  | carried router goes =>
    rcases locked with free | held
    · exact .inl (RouterSession.goes_idle goes free)
    · exact .inr held
  | completed worker item busy done =>
    rcases locked with free | halting | ⟨holder, item, holds, busy⟩
    · exact .inl free
    · exact .inr (.inl halting)
    · by_cases same : holder = worker
      · exact .inl (done (same ▸ holds))
      · exact .inr (.inr ⟨holder, item, holds, (if_neg same).trans busy⟩)
  | finished worker item done =>
    have same : { pool with work := pool.work.finish worker item }.Locked other := locked
    exact same.put fun item changing => nomatch done.symm.trans changing

theorem Step.absent (step : Step settings admission allowed pool later)
    (absent : ∀ worker, pool.errands worker = .absent) (worker : Nat) :
    later.errands worker = .absent := by
  cases step with
  | took other idle => cases idle.symm.trans (absent other)
  | left other idle => cases idle.symm.trans (absent other)
  | turned other item busy => cases busy.symm.trans (absent other)
  | began other draft ready => cases ready.symm.trans (absent other)
  | completed other item busy => cases busy.symm.trans (absent other)
  | finished other item done => cases done.symm.trans (absent other)
  | _ => exact absent worker

theorem Linked.halt (linked : pool.Linked) (free : pool.router.pending = none) : pool.halt.Linked := by
  have fresh : pool.router.Fresh .halt :=
    ⟨List.nodup_nil, List.nodup_nil, (fun id mem => nomatch mem), fun id mem => nomatch mem⟩
  -- A halt hands in no link, so it has none in common with a change in hand.
  exact ⟨linked.router.begin free fresh, linked.listed, linked.cached, linked.buffered,
    (fun worker draft ready => (linked.fresh worker draft ready).begin fun id _ mem => nomatch mem),
    linked.apart⟩

theorem unbuilt_hire (worker : Nat) (draft : Draft) {workers : Nat} :
    (pool.hire workers).errands worker ≠ .built draft := by
  simp only [hire]
  split <;> simp

theorem Linked.hire (linked : pool.Linked) (workers : Nat) : (pool.hire workers).Linked where
  router := linked.router
  listed := linked.listed
  cached := linked.cached
  buffered := linked.buffered
  fresh worker draft ready := absurd ready (unbuilt_hire worker draft)
  apart first _ draft _ ready := absurd ready (unbuilt_hire first draft)

theorem Locked.hire {other : Prop} (locked : pool.Locked other)
    (absent : ∀ worker, pool.errands worker = .absent) (workers : Nat) :
    (pool.hire workers).Locked other := by
  rcases locked with free | halting | ⟨holder, item, holds, busy⟩
  · exact .inl free
  · exact .inr (.inl halting)
  · cases busy.symm.trans (absent holder)

theorem Linked.close (linked : pool.Linked) : pool.close.Linked :=
  ⟨linked.router, linked.listed, linked.cached, linked.buffered, linked.fresh, linked.apart⟩

end WorkerPool

/-- How far the pool has got: it waits for the first lists, runs its workers, waits for them to end, and
leaves the other tasks to end. -/
inductive ControllerRun.Phase where
  | syncing
  | working
  | closing
  | joining
  | returned

/-- How far the halt of the routes has got, and how many changes of them had begun before it. -/
inductive ControllerRun.Halt where
  | awaited
  | halting (begun : Nat)
  | halted (begun : Nat)

def ControllerRun.Halt.begun? : Halt → Option Nat
  | awaited => none
  | halting begun | halted begun => some begun

structure ControllerRun where
  pool : WorkerPool
  signalled : Bool
  phase : ControllerRun.Phase
  watching : Kind → Bool
  resyncing : Bool
  halt : ControllerRun.Halt

namespace ControllerRun

def start (admission : Admission) (resolver : SecretResolver) (resyncing : Bool) : ControllerRun :=
  { pool := .start admission.ingressClass resolver 0
    signalled := false
    phase := .syncing
    watching := fun _ => true
    resyncing
    halt := .awaited }

/-- Events come as long as the kind is watched. All four kinds are of objects that have namespaces. -/
def Arrives (watching : Kind → Bool) (_ : WorkerPool) (kind : Kind) (event : WatchEvent AnyObject) : Prop :=
  watching kind = true ∧ ∀ object ∈ event.object?, object.metadata.ns.isSome

/-- A watch may end at any moment. If it ends before its first list is complete, the pool fails, and
that is a signal for all others. -/
inductive Step (settings : TunnelSettings) (admission : Admission) (workers : Nat)
    (run : ControllerRun) : ControllerRun → Prop where
  | pooled (pool : WorkerPool) (step : run.pool.Step settings admission (Arrives run.watching) pool) :
      Step settings admission workers run { run with pool }
  | resynced (resyncing : run.resyncing = true) (ingress : Ingress)
      (cached : ingress ∈ run.pool.caches.ingresses.objects)
      (ours : ingress.hasClass admission.ingressClass = true) :
      Step settings admission workers run
        { run with pool := { run.pool with
          work := run.pool.work.add (WorkKey.mk .ingress (keyOf ingress)).text } }
  | unwatched (kind : Kind) :
      Step settings admission workers run
        { run with watching := fun other => if other = kind then false else run.watching other }
  | unresynced (signal : run.signalled = true) :
      Step settings admission workers run { run with resyncing := false }
  | signalled : Step settings admission workers run { run with signalled := true }
  | synced (waits : run.phase = .syncing) (ready : run.pool.caches.allReady = true) :
      Step settings admission workers run { run with phase := .working, pool := run.pool.hire workers }
  | unsynced (waits : run.phase = .syncing) (signal : run.signalled = true) :
      Step settings admission workers run { run with phase := .joining, pool := run.pool.close }
  | failed (waits : run.phase = .syncing) (kind : Kind) (gone : run.watching kind = false)
      (unready : run.pool.watches.ready kind = false) :
      Step settings admission workers run { run with phase := .joining, signalled := true }
  | closed (works : run.phase = .working) (signal : run.signalled = true) :
      Step settings admission workers run { run with phase := .closing, pool := run.pool.close }
  | joined (closing : run.phase = .closing) (absent : ∀ worker, run.pool.errands worker = .absent) :
      Step settings admission workers run { run with phase := .joining }
  | halts (signal : run.signalled = true) (awaited : run.halt = .awaited)
      (free : run.pool.router.pending = none) :
      Step settings admission workers run
        { run with halt := .halting run.pool.changes.length, pool := run.pool.halt }
  | halted (begun : Nat) (halting : run.halt = .halting begun)
      (done : run.pool.holder = none → run.pool.router.pending = none) :
      Step settings admission workers run { run with halt := .halted begun }
  | returned (joining : run.phase = .joining) (unwatched : ∀ kind, run.watching kind = false)
      (unresynced : run.resyncing = false) (begun : Nat) (halted : run.halt = .halted begun) :
      Step settings admission workers run { run with phase := .returned }

abbrev Leads (settings : TunnelSettings) (admission : Admission) (workers : Nat) :
    ControllerRun → ControllerRun → Prop :=
  Relation.ReflTransGen (Step settings admission workers)

/-- Each route that is there has been updated by a change that began since. -/
def UpdatedSince (pool : WorkerPool) (begun : Nat) : Prop :=
  ∀ key, pool.router.routes.get? key ≠ none →
    ∃ draft ∈ pool.changes.drop begun, ∃ route, draft.mutation = .update route ∧ route.key = key

structure Sound (run : ControllerRun) : Prop where
  linked : run.pool.Linked
  locked : run.pool.Locked (∃ begun, run.halt = .halting begun)
  updated : ∀ begun, run.halt.begun? = some begun →
    begun ≤ run.pool.changes.length ∧ UpdatedSince run.pool begun
  absent : run.phase ≠ .working → run.phase ≠ .closing → ∀ worker, run.pool.errands worker = .absent
  returned : run.phase = .returned → ∃ begun, run.halt = .halted begun

variable {settings : TunnelSettings} {admission : Admission} {workers : Nat} {run later : ControllerRun}
  {pool : WorkerPool} {watching : Kind → Bool} {kind : Kind}

theorem arrives_apply (on : watching kind = true) {object : AnyObject}
    (named : object.metadata.ns.isSome) : Arrives watching pool kind (.apply object) := by
  refine ⟨on, ?_⟩
  rintro _ ⟨⟩
  exact named

theorem arrives_bare (on : watching kind = true) {event : WatchEvent AnyObject}
    (bare : event.object? = none) : Arrives watching pool kind event :=
  ⟨on, by simp [bare]⟩

theorem sound_start (admission : Admission) (resolver : SecretResolver) (resyncing : Bool) :
    (start admission resolver resyncing).Sound where
  linked := WorkerPool.linked_start _ _ _
  locked := .inl rfl
  updated _ hit := nomatch hit
  absent _ _ _ := rfl
  returned := nofun

theorem UpdatedSince.step {later : WorkerPool} {begun : Nat}
    {allowed : WorkerPool → Kind → WatchEvent AnyObject → Prop}
    (before : begun ≤ pool.changes.length) (updated : UpdatedSince pool begun)
    (step : pool.Step settings admission allowed later) :
    begun ≤ later.changes.length ∧ UpdatedSince later begun := by
  obtain ⟨more, changes, brings⟩ := step.routed
  unfold UpdatedSince
  rw [changes, List.drop_append_of_le_length before]
  refine ⟨by rw [List.length_append]; omega, fun key routed => ?_⟩
  by_cases was : pool.router.routes.get? key = none
  · obtain ⟨draft, mem, route⟩ := brings key was routed
    exact ⟨draft, List.mem_append_right _ mem, route⟩
  · obtain ⟨draft, mem, route⟩ := updated key was
    exact ⟨draft, List.mem_append_left _ mem, route⟩

theorem Sound.step (sound : run.Sound) (step : Step settings admission workers run later) :
    later.Sound := by
  obtain ⟨linked, locked, updated, absent, returned⟩ := sound
  cases step with
  | pooled pool step =>
    refine ⟨linked.step step fun kind event arrives => arrives.2, locked.step step, ?_, ?_, returned⟩
    · intro begun hit
      obtain ⟨before, updated⟩ := updated begun hit
      exact updated.step before step
    · exact fun working closing => step.absent (absent working closing)
  | resynced resyncing ingress cached ours =>
    have same : { run.pool with
        work := run.pool.work.add (WorkKey.mk .ingress (keyOf ingress)).text }.Linked :=
      ⟨linked.router, linked.listed, linked.cached, linked.buffered, linked.fresh, linked.apart⟩
    exact ⟨same, locked, updated, absent, returned⟩
  | unwatched kind => exact ⟨linked, locked, updated, absent, returned⟩
  | unresynced signal => exact ⟨linked, locked, updated, absent, returned⟩
  | signalled => exact ⟨linked, locked, updated, absent, returned⟩
  | synced waits ready =>
    -- Nobody can be in the middle of a change, as there was no worker before.
    have absent : ∀ worker, run.pool.errands worker = .absent := absent (by simp [waits]) (by simp [waits])
    exact ⟨linked.hire workers, locked.hire absent workers, updated, fun working => absurd rfl working,
      nofun⟩
  | unsynced waits signal =>
    refine ⟨linked.close, locked, updated, fun _ _ => ?_, nofun⟩
    exact absent (by simp [waits]) (by simp [waits])
  | failed waits kind gone unready =>
    refine ⟨linked, locked, updated, fun _ _ => ?_, nofun⟩
    exact absent (by simp [waits]) (by simp [waits])
  | closed works signal =>
    exact ⟨linked.close, locked, updated, fun _ closing => absurd rfl closing, nofun⟩
  | joined closing gone => exact ⟨linked, locked, updated, fun _ _ => gone, nofun⟩
  | halts signal awaited free =>
    refine ⟨linked.halt free, .inr (.inl ⟨rfl, _, rfl⟩), ?_, absent, fun gone => ?_⟩
    · rintro begun ⟨⟩
      exact ⟨Nat.le_refl _, fun key routed => absurd rfl routed⟩
    · obtain ⟨begun, halted⟩ := returned gone
      cases awaited.symm.trans halted
  | halted begun halting done =>
    -- From now on a change in progress can only be that of a worker.
    refine ⟨linked, ?_, ?_, absent, fun _ => ⟨begun, rfl⟩⟩
    · rcases locked with free | ⟨mine, _⟩ | worker
      · exact .inl free
      · exact .inl (done mine)
      · exact .inr (.inr worker)
    · rintro before ⟨⟩
      exact updated begun (by rw [halting]; rfl)
  | returned joining unwatched unresynced begun halted =>
    refine ⟨linked, locked, updated, fun _ _ => ?_, fun _ => ⟨begun, halted⟩⟩
    exact absent (by simp [joining]) (by simp [joining])

theorem Sound.leads (sound : run.Sound) (leads : Leads settings admission workers run later) :
    later.Sound := by
  induction leads with
  | refl => exact sound
  | tail _ step ih => exact ih.step step

theorem leads_pooled (leads : WorkerPool.Leads settings admission (Arrives run.watching) run.pool pool) :
    Leads settings admission workers run { run with pool } := by
  induction leads with
  | refl => exact .refl
  | tail _ step ih => exact ih.tail (.pooled _ step)

theorem leads_unwatched (run : ControllerRun) (kinds : List Kind) :
    Leads settings admission workers run { run with
      watching := kinds.foldr (fun kind watching other => if other = kind then false else watching other)
        run.watching } := by
  induction kinds with
  | nil => exact .refl
  | cons kind rest ih => exact ih.tail (.unwatched kind)

/-- When the pool is through and the routes are halted, the watches end, and that is the end. -/
theorem leads_returned {first : ControllerRun} (leads : Leads settings admission workers first run)
    (joining : run.phase = .joining) (unresynced : run.resyncing = false) (begun : Nat)
    (halted : run.halt = .halted begun) :
    ∃ later, Leads settings admission workers first later ∧ later.phase = .returned ∧
      later.pool = run.pool ∧ later.halt = .halted begun := by
  have ended : Leads settings admission workers run _ := leads_unwatched run Kind.all
  have unwatched (kind : Kind) : Kind.all.foldr
      (fun kind watching other => if other = kind then false else watching other) run.watching kind =
        false := by
    cases kind <;> rfl
  exact ⟨_, (leads.trans ended).tail (.returned joining unwatched unresynced begun halted), rfl, rfl, halted⟩

section

open ControlLoop (argoTunnel noSecrets reads_site siteIngress webEndpoints webService)

/-- The cluster has nothing yet, and there is one worker. -/
def quiet : ControllerRun :=
  let pool := WorkerPool.start "argo-tunnel" noSecrets 1
  { start argoTunnel noSecrets false with
    phase := .working
    pool := { pool with
      watches :=
        { endpoints := ⟨{ Cache.empty with ready := true }, []⟩
          ingresses := ⟨{ Cache.empty with ready := true }, []⟩
          secrets := ⟨{ Cache.empty with ready := true }, []⟩
          services := ⟨{ Cache.empty with ready := true }, []⟩ }
      revision := 8 } }

theorem leads_quiet : Leads {} argoTunnel 1 (start argoTunnel noSecrets false) quiet := by
  have listed := (Relation.ReflTransGen.refl (r := WorkerPool.Step {} argoTunnel (Arrives fun _ => true))
    (a := (start argoTunnel noSecrets false).pool))
    |>.tail (.changed .endpoint .beginList (arrives_bare rfl rfl) _ rfl)
    |>.tail (.changed .endpoint .endList (arrives_bare rfl rfl) _ rfl)
    |>.tail (.changed .ingress .beginList (arrives_bare rfl rfl) _ rfl)
    |>.tail (.changed .ingress .endList (arrives_bare rfl rfl) _ rfl)
    |>.tail (.changed .secret .beginList (arrives_bare rfl rfl) _ rfl)
    |>.tail (.changed .secret .endList (arrives_bare rfl rfl) _ rfl)
    |>.tail (.changed .service .beginList (arrives_bare rfl rfl) _ rfl)
    |>.tail (.changed .service .endList (arrives_bare rfl rfl) _ rfl)
  exact (leads_pooled listed).tail (.synced rfl rfl)

/-- **What is left when the controller is done.** The routes have been halted. If a link is alive, it is
of a route that a worker has updated since, so no link is alive unless an update began after the
halt. -/
theorem returned_live {resolver : SecretResolver} {resyncing : Bool}
    (leads : Leads settings admission workers (start admission resolver resyncing) run)
    (returned : run.phase = .returned) :
    ∃ begun, run.halt = .halted begun ∧
      ∀ id index, run.pool.router.fleet.alive id index = true →
        ∃ draft ∈ run.pool.changes.drop begun, ∃ route rule, draft.mutation = .update route ∧
          Routes.Holds run.pool.router.routes route.key rule id := by
  have sound := (sound_start admission resolver resyncing).leads leads
  obtain ⟨begun, halted⟩ := sound.returned returned
  refine ⟨begun, halted, fun id index alive => ?_⟩
  have absent := sound.absent (by simp [returned]) (by simp [returned])
  have free : run.pool.router.pending = none := by
    rcases sound.locked with free | ⟨_, _, halting⟩ | ⟨worker, item, _, busy⟩
    · exact free
    · cases halted.symm.trans halting
    · cases busy.symm.trans (absent worker)
  have router := sound.linked.router
  have slot := (router.alive id index alive).resolve_right (by simp [RouterSession.waits, free])
  have routed := (router.slot id index slot).resolve_right (by simp [RouterSession.stops, free])
  obtain ⟨key, rule, holds⟩ := Routes.mem_links_iff.1 routed
  have there : run.pool.router.routes.get? key ≠ none := by
    obtain ⟨route, hit, _⟩ := holds
    simp [hit]
  obtain ⟨_, updated⟩ := sound.updated begun (by rw [halted]; rfl)
  obtain ⟨draft, mem, route, updates, rfl⟩ := updated key there
  exact ⟨draft, mem, route, rule, updates, holds⟩

/-- A worker starts the tunnel of an ingress, the signal comes, and the halt stops the tunnel. -/
theorem returned_live_none : ∃ run, Leads {} argoTunnel 1 (start argoTunnel noSecrets false) run ∧
    run.phase = .returned ∧ run.pool.router.handed = [0] ∧
    ∀ id index, run.pool.router.fleet.alive id index = false := by
  have routed := (Relation.ReflTransGen.refl (r := WorkerPool.Step {} argoTunnel (Arrives fun _ => true))
    (a := quiet.pool))
    |>.tail (.changed .endpoint (.apply (.endpoint webEndpoints)) (arrives_apply rfl rfl) _ rfl)
    |>.tail (.changed .service (.apply (.service webService)) (arrives_apply rfl rfl) _ rfl)
    |>.tail (.changed .ingress (.apply (.ingress siteIngress)) (arrives_apply rfl rfl) _ rfl)
    |>.tail (.queued "ingress/shop/site" (by decide))
    |>.tail (.took 0 rfl "ingress/shop/site" _ rfl)
    |>.tail (.turned 0 "ingress/shop/site" rfl _ _
      (.built ⟨.ingress, ⟨"shop", "site"⟩⟩ (reads_site _) rfl _ _ rfl _ _ rfl))
    |>.tail (.began 0 _ rfl rfl)
    |>.tail (.carried _ (.start _ 0 [] [] rfl))
    |>.tail (.carried _ (.act _ 0 _ _ rfl (.launch 0 _ rfl (.inl rfl))))
    |>.tail (.carried _ (.finish _ rfl))
    |>.tail (.completed 0 _ rfl fun _ => rfl)
    |>.tail (.finished 0 _ rfl)
  have halted := (leads_quiet.trans (leads_pooled routed))
    |>.tail .signalled
    |>.tail (.halts rfl rfl rfl)
    |>.tail (.pooled _ (.carried _ (.stop _ 0 ⟨[], [], [], []⟩ rfl)))
    |>.tail (.pooled _ (.carried _ (.act _ 0 _ _ rfl (.ended 0 _ .exited none rfl rfl))))
    |>.tail (.pooled _ (.carried _ (.stopped _ 0 0 ⟨[], [], [], []⟩ [] [] rfl rfl)))
    |>.tail (.pooled _ (.carried _ (.finish _ rfl)))
    |>.tail (.halted _ rfl fun _ => rfl)
  have joined := halted
    |>.tail (.closed rfl rfl)
    |>.tail (.pooled _ (.left 0 rfl rfl))
    |>.tail (.joined rfl fun worker => by cases worker <;> rfl)
  obtain ⟨run, leads, returned, pool, halt⟩ := leads_returned joined rfl rfl 1 rfl
  have calm : run.pool.changes.drop 1 = [] := by rw [pool]; rfl
  refine ⟨run, leads, returned, by rw [pool]; rfl, fun id index => ?_⟩
  obtain ⟨begun, since, live⟩ := returned_live leads returned
  cases halt.symm.trans since
  rw [← Bool.not_eq_true]
  intro alive
  obtain ⟨draft, mem, _⟩ := live id index alive
  rw [calm] at mem
  cases mem

/-- The signal comes, the routes are halted, and then the worker updates the route of the ingress that it
has. The controller is done with all that it waits for, and the tunnel is still there. -/
theorem halted_before_update : ∃ run, Leads {} argoTunnel 1 (start argoTunnel noSecrets false) run ∧
    run.phase = .returned ∧ run.pool.router.fleet.alive 0 0 = true := by
  have taken := (Relation.ReflTransGen.refl (r := WorkerPool.Step {} argoTunnel (Arrives fun _ => true))
    (a := quiet.pool))
    |>.tail (.changed .endpoint (.apply (.endpoint webEndpoints)) (arrives_apply rfl rfl) _ rfl)
    |>.tail (.changed .service (.apply (.service webService)) (arrives_apply rfl rfl) _ rfl)
    |>.tail (.changed .ingress (.apply (.ingress siteIngress)) (arrives_apply rfl rfl) _ rfl)
    |>.tail (.queued "ingress/shop/site" (by decide))
    |>.tail (.took 0 rfl "ingress/shop/site" _ rfl)
  have halted := (leads_quiet.trans (leads_pooled taken))
    |>.tail .signalled
    |>.tail (.halts rfl rfl rfl)
    |>.tail (.pooled _ (.carried _ (.finish _ rfl)))
    |>.tail (.halted _ rfl fun _ => rfl)
    |>.tail (.closed rfl rfl)
  have updated := halted
    |>.tail (.pooled _ (.turned 0 "ingress/shop/site" rfl _ _
      (.built ⟨.ingress, ⟨"shop", "site"⟩⟩ (reads_site _) rfl _ _ rfl _ _ rfl)))
    |>.tail (.pooled _ (.began 0 _ rfl rfl))
    |>.tail (.pooled _ (.carried _ (.start _ 0 [] [] rfl)))
    |>.tail (.pooled _ (.carried _ (.finish _ rfl)))
    |>.tail (.pooled _ (.completed 0 _ rfl fun _ => rfl))
    |>.tail (.pooled _ (.finished 0 _ rfl))
  have joined := updated
    |>.tail (.pooled _ (.left 0 rfl rfl))
    |>.tail (.joined rfl fun worker => by cases worker <;> rfl)
  obtain ⟨run, leads, returned, pool, _⟩ := leads_returned joined rfl rfl 0 rfl
  exact ⟨run, leads, returned, by rw [pool]; rfl⟩

end

end ControllerRun

end TunnelIngress
