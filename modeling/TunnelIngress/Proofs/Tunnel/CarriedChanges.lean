import TunnelIngress.Proofs.Tunnel.ChangeRuns
import Mathlib.Data.List.Count

/-!
# How far a change has come

While a change goes on, some of the links that it stops were asked to quit and some of those that it
starts were started, and nothing else has happened to any slot. The first start comes when all supervisors
that the change waits for have ended.
-/

namespace TunnelIngress

/-- What a change may ask for: links that are not running are started, once each, and none of those that
are stopped. -/
structure Changeover.Orderly (fleet : Fleet) (changes : Changeover) : Prop where
  once : changes.start.Nodup
  apart : ∀ id ∈ changes.start, id ∉ changes.stop
  rested : ∀ id ∈ changes.start, fleet.isStarted id = false

namespace RouterSession

/-- The links that a change has asked to stop so far, and those that it has started. -/
structure Underway (fleet : Fleet) (changes : Changeover) (session : RouterSession)
    (asked begun : List LinkId) : Prop where
  stops : changes.stop = asked ++ session.stops
  starts : changes.start = begun ++ session.starts
  ordered : begun ≠ [] → session.stops = [] ∧ session.waits = []
  slot : ∀ id ∉ begun, session.fleet.slot? id = if id ∈ asked then none else fleet.slot? id
  count : ∀ id, session.fleet.starts id = fleet.starts id + begun.count id
  alive : ∀ id ∉ begun, ∀ index, session.fleet.alive id index = true → fleet.alive id index = true
  filled : ∀ id ∈ begun, (session.fleet.slot? id).isSome = true

variable {fleet : Fleet} {changes : Changeover} {session later : RouterSession}
  {asked begun : List LinkId} {id : LinkId}

theorem underway_begin (session : RouterSession) (mutation : Mutation) :
    Underway session.fleet (mutation.plan session.fleet session.routes).changes
      (session.begin mutation) [] [] where
  stops := rfl
  starts := rfl
  ordered none := absurd rfl none
  slot _ _ := (if_neg List.not_mem_nil).symm
  count _ := rfl
  alive _ _ _ alive := alive
  filled _ none := absurd none List.not_mem_nil

/-- What only lets supervisors end is no progress. -/
theorem Underway.fades (underway : Underway fleet changes session asked begun) {now : Fleet}
    (fades : session.fleet.Fades now) :
    Underway fleet changes { session with fleet := now } asked begun where
  stops := underway.stops
  starts := underway.starts
  ordered := underway.ordered
  slot id absent := (fades.slot id).trans (underway.slot id absent)
  count id := (fades.starts id).trans (underway.count id)
  alive id absent index alive := underway.alive id absent index (fades.alive id index alive)
  filled id here := (congrArg Option.isSome (fades.slot id)).trans (underway.filled id here)

/-- As long as a stop is asked for or waited for, nothing is started. -/
theorem Underway.none_begun (underway : Underway fleet changes session asked begun)
    (busy : session.stops ≠ [] ∨ session.waits ≠ []) : begun = [] := by
  by_contra some
  obtain ⟨stops, waits⟩ := underway.ordered some
  exact busy.elim (fun more => more stops) fun more => more waits

theorem Underway.stop (underway : Underway fleet changes session asked begun)
    {pending : PendingChange}
    (next : session.pending = some { pending with stop := id :: pending.stop }) :
    Underway fleet changes { session with
      fleet := (session.fleet.beginStop id).1
      pending := some { pending with
        stopping := pending.stopping ++ ((session.fleet.beginStop id).2.map (id, ·)).toList } }
      (asked ++ [id]) begun := by
  have emptied := (session.fleet.beginStop_spec id).2
  have stops : session.stops = id :: pending.stop := by simp [RouterSession.stops, next]
  have starts : session.starts = pending.start := by simp [RouterSession.starts, next]
  obtain rfl := underway.none_begun (.inl (stops ▸ List.cons_ne_nil id pending.stop))
  refine ⟨?_, ?_, fun some => absurd rfl some, fun other absent => ?_, fun other => ?_,
    fun other absent index alive => ?_, fun _ none => absurd none List.not_mem_nil⟩
  · rw [underway.stops, stops, List.append_assoc]
    rfl
  · rw [underway.starts, starts]
    rfl
  · rw [show Fleet.slot? _ other = _ from emptied.slot other, underway.slot other absent]
    by_cases here : other = id <;> simp [here]
  · exact (emptied.starts other).trans (underway.count other)
  · exact underway.alive other absent index (emptied.alive other index alive)

theorem Underway.stopped (underway : Underway fleet changes session asked begun)
    {index : Nat} {pending : PendingChange} {before after : List (LinkId × Nat)}
    (next : session.pending = some { pending with stopping := before ++ (id, index) :: after }) :
    Underway fleet changes { session with
      fleet := (session.fleet.endStop id).1
      pending := some { pending with stopping := before ++ after } } asked begun := by
  have waits : session.waits = before ++ (id, index) :: after := by simp [RouterSession.waits, next]
  obtain rfl := underway.none_begun (.inr (by simp [waits]))
  obtain ⟨stops, starts, _, slot, count, alive, filled⟩ :=
    underway.fades (session.fleet.fades_endStop id)
  refine ⟨stops.trans ?_, starts.trans ?_, fun some => absurd rfl some, slot, count, alive, filled⟩
  · simp [RouterSession.stops, next]
  · simp [RouterSession.starts, next]

/-- The next link that is to be started does not run, so it gets a supervisor. -/
theorem Underway.started (underway : Underway fleet changes session asked begun)
    (orderly : changes.Orderly fleet) (sound : session.Sound) {rest : List LinkId}
    (next : session.starts = id :: rest) (stopped : session.stops = []) :
    id ∉ begun ∧ session.fleet.Started (session.fleet.start id).1 id := by
  have order : changes.start = begun ++ id :: rest := underway.starts.trans (by rw [next])
  have mem : id ∈ changes.start := by simp [order]
  have unasked : id ∉ asked := by
    have apart := orderly.apart id mem
    rwa [underway.stops, stopped, List.append_nil] at apart
  have unbegun : id ∉ begun := by
    have once := orderly.once
    rw [order, List.nodup_append] at once
    exact fun here => once.2.2 id here id List.mem_cons_self rfl
  have known := sound.known id (sound.held id (sound.kept id (by simp [next])))
  refine ⟨unbegun, ?_⟩
  rcases Fleet.start_cases known with ⟨runs, _⟩ | ⟨_, started⟩
  · obtain ⟨index, slot, alive⟩ := Fleet.isStarted_iff.1 runs
    rw [underway.slot id unbegun, if_neg unasked] at slot
    have ran := Fleet.isStarted_iff.2 ⟨index, slot, underway.alive id unbegun index alive⟩
    cases (orderly.rested id mem).symm.trans ran
  · exact started

theorem Underway.start (underway : Underway fleet changes session asked begun)
    (orderly : changes.Orderly fleet) (sound : session.Sound) {start : List LinkId}
    {removals : List ResourceKey} (next : session.pending = some ⟨[], [], id :: start, removals⟩) :
    Underway fleet changes { session with
      fleet := (session.fleet.start id).1
      pending := some ⟨[], [], start, removals⟩ } asked (begun ++ [id]) := by
  have stops : session.stops = [] := by simp [RouterSession.stops, next]
  have starts : session.starts = id :: start := by simp [RouterSession.starts, next]
  obtain ⟨_, started⟩ := underway.started orderly sound starts stops
  refine ⟨?_, ?_, fun _ => ⟨rfl, rfl⟩, fun other absent => ?_, fun other => ?_,
    fun other absent index alive => ?_, fun other here => ?_⟩
  · rw [underway.stops, stops]
    rfl
  · rw [underway.starts, starts, List.append_cons]
    rfl
  · rw [List.mem_append, List.mem_singleton, not_or] at absent
    rw [show Fleet.slot? _ other = _ from started.slot other, if_neg absent.2]
    exact underway.slot other absent.1
  · rw [show Fleet.starts _ other = _ from started.starts other, List.count_append,
      underway.count other]
    by_cases here : other = id
    · subst here
      rw [if_pos rfl, underway.count other, List.count_singleton_self, Nat.add_assoc]
    · rw [if_neg here, List.count_singleton, if_neg]
      · rfl
      · simpa using Ne.symm here
  · rw [List.mem_append, List.mem_singleton, not_or] at absent
    have was := (started.alive other index alive).resolve_right fun new => absent.2 new.1
    exact underway.alive other absent.1 index was
  · rw [show Fleet.slot? _ other = _ from started.slot other]
    split
    · rfl
    · rename_i ne
      refine underway.filled other ((List.mem_append.1 here).resolve_right fun new => ?_)
      exact ne (List.mem_singleton.1 new)

theorem Underway.goes (underway : Underway fleet changes session asked begun)
    (orderly : changes.Orderly fleet) (sound : session.Sound)
    (last : ∀ pending, session.pending = some pending → pending.later = [])
    (goes : Goes session later) : ∃ asked begun, Underway fleet changes later asked begun := by
  cases goes with
  | build spec => exact ⟨_, _, underway.fades (session.fleet.fades_add spec)⟩
  | act id link later found acts => exact ⟨_, _, underway.fades (Fleet.fades_put found acts.fades)⟩
  | stop id pending next => exact ⟨_, _, underway.stop next⟩
  | stopped id index pending before after next ended => exact ⟨_, _, underway.stopped next⟩
  | start id start removals next => exact ⟨_, _, underway.start orderly sound next⟩
  | remove key removals next => cases last _ next
  | finish next =>
    refine ⟨asked, begun, underway.stops.trans ?_, underway.starts.trans ?_, fun _ => ⟨rfl, rfl⟩,
      underway.slot, underway.count, underway.alive, underway.filled⟩
    · simp [RouterSession.stops, next]
    · simp [RouterSession.starts, next]

theorem Underway.carries (underway : Underway fleet changes session asked begun)
    (orderly : changes.Orderly fleet) (sound : session.Sound)
    (last : ∀ pending, session.pending = some pending → pending.later = [])
    (carries : Carries session later) :
    later.Sound ∧ ∃ asked begun, Underway fleet changes later asked begun := by
  induction carries with
  | refl => exact ⟨sound, asked, begun, underway⟩
  | tail before goes ih =>
    obtain ⟨sound, asked, begun, underway⟩ := ih
    have last := (carries_routes before last).2
    exact ⟨sound.goes goes, underway.goes orderly sound last goes⟩

/-- Once something was started, whatever was to be stopped has come to rest. -/
theorem Underway.stopped_first (underway : Underway fleet changes session asked begun)
    (orderly : changes.Orderly fleet) (sound : session.Sound) (some : begun ≠ []) {id : LinkId}
    (stops : id ∈ changes.stop) :
    session.fleet.slot? id = none ∧ ∀ index, session.fleet.alive id index = false := by
  obtain ⟨asked_all, ended⟩ := underway.ordered some
  have mem : id ∈ asked := by
    rw [underway.stops, asked_all, List.append_nil] at stops
    exact stops
  have unbegun : id ∉ begun := fun here =>
    orderly.apart id (underway.starts ▸ List.mem_append_left _ here) stops
  have slot : session.fleet.slot? id = none := (underway.slot id unbegun).trans (if_pos mem)
  refine ⟨slot, fun index => ?_⟩
  rw [Bool.eq_false_iff]
  intro alive
  rcases sound.alive id index alive with here | here
  · cases slot.symm.trans here
  · rw [ended] at here
    cases here

/-! ### Links that the routes hold -/

/-- Whatever the routes hold has a supervisor, live or not, or is to be started. -/
def Manned (session : RouterSession) : Prop :=
  ∀ id ∈ Routes.links session.routes,
    (session.fleet.slot? id).isSome = true ∨ id ∈ session.starts

theorem Manned.fades (manned : session.Manned) {fleet : Fleet} (fades : session.fleet.Fades fleet) :
    { session with fleet }.Manned := by
  intro id mem
  rw [show Fleet.slot? _ id = _ from fades.slot id]
  exact manned id mem

theorem Manned.begin (manned : session.Manned) (sound : session.Sound) {mutation : Mutation}
    (idle : session.pending = none) (fresh : session.Fresh mutation) :
    (session.begin mutation).Manned := by
  obtain ⟨keys, moves⟩ := Routes.plan_moves session.fleet sound.distinct (sound.apart fresh)
  intro id mem
  obtain ⟨key, rule, holds⟩ := Routes.mem_links_iff.1 mem
  rcases moves.new key rule id holds with held | ⟨route, brought, rfl, _⟩
  · left
    have mem := Routes.mem_links_iff.2 ⟨key, rule, held⟩
    exact (manned id mem).resolve_right (by simp [RouterSession.starts, idle])
  · rcases moves.runs route brought rule id holds with start | runs
    · exact .inr start
    · obtain ⟨index, slot, _⟩ := Fleet.isStarted_iff.1 runs
      exact .inl (congrArg Option.isSome slot)

theorem Manned.start (manned : session.Manned) (sound : session.Sound) {rest : List LinkId}
    (next : session.starts = id :: rest) {pending : Option PendingChange}
    (left : RouterSession.starts { session with pending } = rest) :
    Manned { session with fleet := (session.fleet.start id).1, pending } := by
  intro other mem
  change _ ∨ other ∈ RouterSession.starts { session with pending }
  have here : id ∈ session.starts := next ▸ List.mem_cons_self
  have waits (ne : other ≠ id) (starts : other ∈ session.starts) :
      other ∈ RouterSession.starts { session with pending } := by
    rw [next] at starts
    exact left ▸ (List.mem_cons.1 starts).resolve_left ne
  rcases Fleet.start_cases (sound.known id (sound.held id (sound.kept id here))) with
    ⟨runs, fades⟩ | ⟨_, started⟩
  · rw [show Fleet.slot? _ other = _ from fades.slot other]
    by_cases same : other = id
    · obtain ⟨index, slot, _⟩ := Fleet.isStarted_iff.1 runs
      exact .inl (same ▸ congrArg Option.isSome slot)
    · exact (manned other mem).imp_right (waits same)
  · rw [show Fleet.slot? _ other = _ from started.slot other]
    by_cases same : other = id
    · exact .inl (congrArg Option.isSome (if_pos same))
    · rw [if_neg same]
      exact (manned other mem).imp_right (waits same)

theorem Manned.goes (manned : session.Manned) (sound : session.Sound) (goes : Goes session later) :
    later.Manned := by
  cases goes with
  | build spec => exact manned.fades (session.fleet.fades_add spec)
  | act id link later found acts => exact manned.fades (Fleet.fades_put found acts.fades)
  | stop id pending next =>
    intro other mem
    have stops : id ∈ session.stops := by simp [RouterSession.stops, next]
    have ne : other ≠ id := fun same => (sound.gone id stops).2 (same ▸ mem)
    rw [show Fleet.slot? _ other = _ from (session.fleet.beginStop_spec id).2.slot other, if_neg ne]
    exact (manned other mem).imp_right fun start => by simpa [RouterSession.starts, next] using start
  | stopped id index pending before after next ended =>
    intro other mem
    rw [show Fleet.slot? _ other = _ from (session.fleet.fades_endStop id).slot other]
    exact (manned other mem).imp_right fun start => by simpa [RouterSession.starts, next] using start
  | start id start removals next =>
    have starts : session.starts = id :: start := by simp [RouterSession.starts, next]
    exact manned.start sound starts rfl
  | remove key removals next =>
    intro id mem
    obtain ⟨place, rule, holds⟩ := Routes.mem_links_iff.1 mem
    have moves := Routes.removeRoute_moves session.fleet sound.distinct key
    have was := (moves.new place rule id holds).resolve_right (by simp [Routes.Brings])
    refine (manned id (Routes.mem_links_iff.2 ⟨place, rule, was⟩)).imp_right fun start => ?_
    simp [RouterSession.starts, next] at start
  | finish next =>
    intro id mem
    exact (manned id mem).imp_right fun start => by simp [RouterSession.starts, next] at start

theorem Manned.leads (manned : session.Manned) (sound : session.Sound) (leads : Leads session later) :
    later.Manned := by
  induction leads with
  | refl => exact manned
  | tail leads step ih =>
    cases step with
    | begin mutation idle fresh => exact ih.begin (sound.leads leads) idle fresh
    | goes _ goes => exact ih.goes (sound.leads leads) goes

theorem manned_new : new.Manned := by
  intro id mem
  obtain ⟨_, _, held⟩ := Routes.mem_links_iff.1 mem
  simp [Routes.Holds, new] at held

/-- Between two changes, each link that the routes hold has a supervisor, or had one that ended by
itself. -/
theorem held_filled (run : Leads new session) (idle : session.pending = none) {id : LinkId}
    (mem : id ∈ Routes.links session.routes) : ∃ index, session.fleet.slot? id = some index := by
  have manned := manned_new.leads sound_new run id mem
  exact Option.isSome_iff_exists.1 (manned.resolve_right (by simp [RouterSession.starts, idle]))

end RouterSession

end TunnelIngress
