import TunnelIngress.Proofs.Tunnel.ChangeMoves
import TunnelIngress.Proofs.Tunnel.Supervision
import Mathlib.Logic.Relation

/-!
# Changes of the routes, one after the other

A change first replaces the routes and then goes through its links one by one: it asks those that go to
stop, waits for their supervisors, and starts the new ones. All that time links are made and daemons do
what they like. The invariant says where a supervisor can be: in the slot of a link that the routes
hold or that is still to be asked to stop, or among those that are waited for.
-/

namespace TunnelIngress

/-- What is left to do of a change whose routes are in place. -/
structure PendingChange where
  stop : List LinkId
  stopping : List (LinkId × Nat)
  start : List LinkId
  later : List ResourceKey

/-- The links and the routes, all links that were ever handed in, and the change in progress. -/
structure RouterSession where
  fleet : Fleet
  routes : Routes
  handed : List LinkId
  pending : Option PendingChange

namespace RouterSession

def new : RouterSession :=
  { fleet := .empty, routes := (∅ : Table _ _), handed := [], pending := none }

/-- The links that a change brings are known, have keys and places of their own, and were not handed in
before. -/
structure Fresh (session : RouterSession) (mutation : Mutation) : Prop where
  keys : (mutation.brought.map (·.key)).Nodup
  links : (mutation.brought.flatMap (·.links.values)).Nodup
  known : ∀ id ∈ mutation.brought.flatMap (·.links.values), id < session.fleet.links.length
  new : ∀ id ∈ mutation.brought.flatMap (·.links.values), id ∉ session.handed

def begin (session : RouterSession) (mutation : Mutation) : RouterSession :=
  let plan := mutation.plan session.fleet session.routes
  { session with
    routes := plan.routes
    handed := session.handed ++ mutation.brought.flatMap (·.links.values)
    pending := some ⟨plan.changes.stop, [], plan.changes.start, plan.later⟩ }

/-- Whatever else may happen: a link is made, a daemon does something, or the change in progress goes
on. -/
inductive Goes : RouterSession → RouterSession → Prop where
  | build (session : RouterSession) (spec : LinkSpec) :
      Goes session { session with fleet := (session.fleet.add spec).1 }
  | act (session : RouterSession) (id : LinkId) (link later : Link)
      (found : session.fleet.get? id = some link) (acts : link.Acts later) :
      Goes session { session with fleet := session.fleet.modify id fun _ => later }
  | stop (session : RouterSession) (id : LinkId) (pending : PendingChange)
      (next : session.pending = some { pending with stop := id :: pending.stop }) :
      Goes session { session with
        fleet := (session.fleet.beginStop id).1
        pending := some { pending with
          stopping := pending.stopping ++ ((session.fleet.beginStop id).2.map (id, ·)).toList } }
  | stopped (session : RouterSession) (id : LinkId) (index : Nat) (pending : PendingChange)
      (before after : List (LinkId × Nat))
      (next : session.pending = some { pending with stopping := before ++ (id, index) :: after })
      (ended : session.fleet.alive id index = false) :
      Goes session { session with
        fleet := (session.fleet.endStop id).1
        pending := some { pending with stopping := before ++ after } }
  | start (session : RouterSession) (id : LinkId) (start : List LinkId) (later : List ResourceKey)
      (next : session.pending = some ⟨[], [], id :: start, later⟩) :
      Goes session { session with
        fleet := (session.fleet.start id).1
        pending := some ⟨[], [], start, later⟩ }
  | remove (session : RouterSession) (key : ResourceKey) (later : List ResourceKey)
      (next : session.pending = some ⟨[], [], [], key :: later⟩) :
      Goes session { session with
        routes := (Routes.removeRoute session.routes key).1
        pending := some ⟨(Routes.removeRoute session.routes key).2.stop, [], [], later⟩ }
  | finish (session : RouterSession) (next : session.pending = some ⟨[], [], [], []⟩) :
      Goes session { session with pending := none }

abbrev Carries : RouterSession → RouterSession → Prop :=
  Relation.ReflTransGen Goes

/-- Changes begin one at a time, with links of their own. -/
inductive Step : RouterSession → RouterSession → Prop where
  | begin (session : RouterSession) (mutation : Mutation) (idle : session.pending = none)
      (fresh : session.Fresh mutation) : Step session (session.begin mutation)
  | goes (session later : RouterSession) (goes : Goes session later) : Step session later

abbrev Leads : RouterSession → RouterSession → Prop :=
  Relation.ReflTransGen Step

/-! ### What the change in progress has before it -/

def stops (session : RouterSession) : List LinkId :=
  (session.pending.map (·.stop)).getD []

def waits (session : RouterSession) : List (LinkId × Nat) :=
  (session.pending.map (·.stopping)).getD []

def starts (session : RouterSession) : List LinkId :=
  (session.pending.map (·.start)).getD []

/-- Supervisors that have not ended are in a slot, or waited for. -/
def Tended (session : RouterSession) : Prop :=
  ∀ id index, session.fleet.alive id index = true →
    session.fleet.slot? id = some index ∨ (id, index) ∈ session.waits

/-- What holds at every moment. -/
structure Sound (session : RouterSession) : Prop where
  distinct : Routes.Distinct session.routes
  held : ∀ id ∈ Routes.links session.routes, id ∈ session.handed
  known : ∀ id ∈ session.handed, id < session.fleet.links.length
  slot : ∀ id index, session.fleet.slot? id = some index →
    id ∈ Routes.links session.routes ∨ id ∈ session.stops
  alive : ∀ id index, session.fleet.alive id index = true →
    session.fleet.slot? id = some index ∨ (id, index) ∈ session.waits
  gone : ∀ id ∈ session.stops, id ∈ session.handed ∧ id ∉ Routes.links session.routes
  kept : ∀ id ∈ session.starts, id ∈ Routes.links session.routes

theorem sound_new : new.Sound where
  distinct := by simp [Routes.Distinct, Routes.Holds, new]
  held id mem := by
    obtain ⟨_, _, held⟩ := Routes.mem_links_iff.1 mem
    simp [Routes.Holds, new] at held
  known := by simp [new]
  slot id index hit := by simp [new, Fleet.empty, Fleet.slot?, Fleet.get?] at hit
  alive id index alive := by simp [new, Fleet.empty, Fleet.alive, Fleet.get?] at alive
  gone := by simp [new, stops]
  kept := by simp [new, starts]

variable {session later : RouterSession}

/-! ### Where a supervisor is -/

theorem Tended.fades (tended : session.Tended) {fleet : Fleet} (fades : session.fleet.Fades fleet) :
    { session with fleet }.Tended := by
  intro id index alive
  rw [show Fleet.slot? _ id = _ from fades.slot id]
  exact tended id index (fades.alive id index alive)

/-- The supervisor that a stop takes out of a slot is waited for. -/
theorem Tended.stop (tended : session.Tended) {id : LinkId} {pending : PendingChange}
    (next : session.pending = some { pending with stop := id :: pending.stop }) :
    { session with
      fleet := (session.fleet.beginStop id).1
      pending := some { pending with
        stopping := pending.stopping ++ ((session.fleet.beginStop id).2.map (id, ·)).toList } }.Tended := by
  obtain ⟨taken, emptied⟩ := session.fleet.beginStop_spec id
  have waits : session.waits = pending.stopping := by simp [waits, next]
  intro other index alive
  rw [show Fleet.slot? _ other = _ from emptied.slot other]
  change _ ∨ _ ∈ pending.stopping ++ _
  rw [List.mem_append, ← waits]
  rcases tended other index (emptied.alive other index alive) with slot | mem
  · by_cases same : other = id
    · exact .inr (.inr (by simp [taken, same, ← slot]))
    · exact .inl (by rw [if_neg same, slot])
  · exact .inr (.inl mem)

theorem Tended.stopped (tended : session.Tended) {id : LinkId} {index : Nat} {pending : PendingChange}
    {before after : List (LinkId × Nat)}
    (next : session.pending = some { pending with stopping := before ++ (id, index) :: after })
    (ended : session.fleet.alive id index = false) :
    { session with
      fleet := (session.fleet.endStop id).1
      pending := some { pending with stopping := before ++ after } }.Tended := by
  have fades := session.fleet.fades_endStop id
  have waits : session.waits = before ++ (id, index) :: after := by simp [waits, next]
  intro other place alive
  have was := fades.alive other place alive
  rw [show Fleet.slot? _ other = _ from fades.slot other]
  refine (tended other place was).imp_right fun mem => ?_
  rw [waits, List.mem_append, List.mem_cons] at mem
  refine List.mem_append.2 (mem.imp_right fun mem => mem.resolve_left ?_)
  rintro ⟨⟩
  simp [ended] at was

theorem Tended.start (tended : session.Tended) {id : LinkId} (known : id < session.fleet.links.length)
    (none : session.waits = []) {pending : Option PendingChange} :
    { session with fleet := (session.fleet.start id).1, pending }.Tended := by
  have slot (other : LinkId) (index : Nat) (alive : session.fleet.alive other index = true) :
      session.fleet.slot? other = some index :=
    (tended other index alive).resolve_right (by simp [none])
  intro other index now
  left
  rcases Fleet.start_cases known with ⟨_, fades⟩ | ⟨stopped, started⟩
  · exact (fades.slot other).trans (slot other index (fades.alive other index now))
  · rw [show Fleet.slot? _ other = _ from started.slot other]
    rcases started.alive other index now with was | ⟨rfl, rfl⟩
    · have ne : other ≠ id := by
        rintro rfl
        have begun := Fleet.isStarted_iff.2 ⟨index, slot other index was, was⟩
        simp [stopped] at begun
      rw [if_neg ne, slot other index was]
    · rw [if_pos rfl]

/-! ### The invariant -/

theorem Sound.apart (sound : session.Sound) {mutation : Mutation} (fresh : session.Fresh mutation) :
    Routes.Apart session.routes mutation.brought where
  keys := fresh.keys
  links := fresh.links
  new key rule key' rule' id brings holds := by
    refine fresh.new id (Routes.mem_brought_iff.2 ⟨key, rule, brings⟩) (sound.held id ?_)
    exact Routes.mem_links_iff.2 ⟨key', rule', holds⟩

theorem Sound.begin (sound : session.Sound) {mutation : Mutation} (idle : session.pending = none)
    (fresh : session.Fresh mutation) : (session.begin mutation).Sound := by
  have apart := sound.apart fresh
  obtain ⟨keys, moves⟩ := Routes.plan_moves session.fleet sound.distinct apart
  refine ⟨moves.distinct sound.distinct apart, ?_, ?_, ?_, ?_, ?_, ?_⟩
  · intro id mem
    obtain ⟨key, rule, holds⟩ := Routes.mem_links_iff.1 mem
    refine List.mem_append.2 ((moves.new key rule id holds).imp (fun held => ?_) fun brings => ?_)
    · exact sound.held id (Routes.mem_links_iff.2 ⟨key, rule, held⟩)
    · exact Routes.mem_brought_iff.2 ⟨key, rule, brings⟩
  · intro id mem
    exact (List.mem_append.1 mem).elim (sound.known id) (fresh.known id)
  · intro id index hit
    have mem := (sound.slot id index hit).resolve_right (by simp [stops, idle])
    obtain ⟨key, rule, held⟩ := Routes.mem_links_iff.1 mem
    refine (moves.left key rule id held).imp_left fun holds => ?_
    exact Routes.mem_links_iff.2 ⟨key, rule, holds⟩
  · intro id index alive
    exact .inl ((sound.alive id index alive).resolve_right (by simp [waits, idle]))
  · intro id stop
    obtain ⟨⟨key, _, rule, held⟩, gone⟩ := moves.stopped id stop
    refine ⟨List.mem_append_left _ (sound.held id (Routes.mem_links_iff.2 ⟨key, rule, held⟩)), ?_⟩
    rw [Routes.mem_links_iff]
    rintro ⟨key', rule', holds⟩
    exact gone key' rule' holds
  · intro id start
    obtain ⟨route, _, rule, holds⟩ := moves.started id start
    exact Routes.mem_links_iff.2 ⟨route.key, rule, holds⟩

/-- What only lets supervisors end, or adds links, keeps the invariant. -/
theorem Sound.fades (sound : session.Sound) {fleet : Fleet} (fades : session.fleet.Fades fleet) :
    { session with fleet }.Sound where
  distinct := sound.distinct
  held := sound.held
  known id mem := Nat.lt_of_lt_of_le (sound.known id mem) fades.size
  slot id index hit := sound.slot id index (fades.slot id ▸ hit)
  alive := Tended.fades sound.alive fades
  gone := sound.gone
  kept := sound.kept

theorem Sound.stop (sound : session.Sound) {id : LinkId} {pending : PendingChange}
    (next : session.pending = some { pending with stop := id :: pending.stop }) :
    { session with
      fleet := (session.fleet.beginStop id).1
      pending := some { pending with
        stopping := pending.stopping ++ ((session.fleet.beginStop id).2.map (id, ·)).toList } }.Sound := by
  have emptied := (session.fleet.beginStop_spec id).2
  have stops : session.stops = id :: pending.stop := by simp [stops, next]
  have starts : session.starts = pending.start := by simp [starts, next]
  refine ⟨sound.distinct, sound.held, ?_, ?_, Tended.stop sound.alive next, ?_, ?_⟩
  · exact fun other mem => Nat.lt_of_lt_of_le (sound.known other mem) emptied.size
  · intro other index hit
    rw [show Fleet.slot? _ other = _ from emptied.slot other] at hit
    split at hit
    · cases hit
    · rename_i ne
      refine (sound.slot other index hit).imp_right fun mem => ?_
      rw [stops] at mem
      exact (List.mem_cons.1 mem).resolve_left ne
  · intro other mem
    exact sound.gone other (stops ▸ List.mem_cons_of_mem _ mem)
  · exact fun other mem => sound.kept other (starts ▸ mem)

theorem Sound.stopped (sound : session.Sound) {id : LinkId} {index : Nat} {pending : PendingChange}
    {before after : List (LinkId × Nat)}
    (next : session.pending = some { pending with stopping := before ++ (id, index) :: after })
    (ended : session.fleet.alive id index = false) :
    { session with
      fleet := (session.fleet.endStop id).1
      pending := some { pending with stopping := before ++ after } }.Sound := by
  have fades := session.fleet.fades_endStop id
  have stops : session.stops = pending.stop := by simp [stops, next]
  have starts : session.starts = pending.start := by simp [starts, next]
  refine ⟨sound.distinct, sound.held, ?_, ?_, Tended.stopped sound.alive next ended, ?_, ?_⟩
  · exact fun other mem => Nat.lt_of_lt_of_le (sound.known other mem) fades.size
  · intro other place hit
    exact (sound.slot other place (fades.slot other ▸ hit)).imp_right fun mem => stops ▸ mem
  · exact fun other mem => sound.gone other (stops ▸ mem)
  · exact fun other mem => sound.kept other (starts ▸ mem)

theorem Sound.start (sound : session.Sound) {id : LinkId} {start : List LinkId}
    {removals : List ResourceKey} (next : session.pending = some ⟨[], [], id :: start, removals⟩) :
    { session with
      fleet := (session.fleet.start id).1
      pending := some ⟨[], [], start, removals⟩ }.Sound := by
  have starts : session.starts = id :: start := by simp [starts, next]
  have mapped := sound.kept id (starts ▸ List.mem_cons_self)
  have here := sound.known id (sound.held id mapped)
  have slot (other : LinkId) (index : Nat) (hit : session.fleet.slot? other = some index) :
      other ∈ Routes.links session.routes :=
    (sound.slot other index hit).resolve_right (by simp [stops, next])
  have kept (other : LinkId) (mem : other ∈ start) : other ∈ Routes.links session.routes :=
    sound.kept other (starts ▸ List.mem_cons_of_mem _ mem)
  refine ⟨sound.distinct, sound.held, fun other mem => ?_, fun other index hit => .inl ?_,
    Tended.start sound.alive here (by simp [waits, next]), by simp [stops], kept⟩
  · exact Nat.lt_of_lt_of_le (sound.known other mem) (session.fleet.size_start id)
  · rcases Fleet.start_cases here with ⟨_, fades⟩ | ⟨_, started⟩
    · exact slot other index (fades.slot other ▸ hit)
    · rw [show Fleet.slot? _ other = _ from started.slot other] at hit
      split at hit
      · rename_i same
        exact same ▸ mapped
      · exact slot other index hit

theorem Sound.remove (sound : session.Sound) {key : ResourceKey} {removals : List ResourceKey}
    (next : session.pending = some ⟨[], [], [], key :: removals⟩) :
    { session with
      routes := (Routes.removeRoute session.routes key).1
      pending := some ⟨(Routes.removeRoute session.routes key).2.stop, [], [], removals⟩ }.Sound := by
  have apart : Routes.Apart session.routes [] := ⟨by simp, by simp, by simp [Routes.Brings]⟩
  have moves := Routes.removeRoute_moves session.fleet sound.distinct key
  have held (id : LinkId) (mem : id ∈ Routes.links (Routes.removeRoute session.routes key).1) :
      id ∈ Routes.links session.routes := by
    obtain ⟨place, rule, holds⟩ := Routes.mem_links_iff.1 mem
    have was := (moves.new place rule id holds).resolve_right (by simp [Routes.Brings])
    exact Routes.mem_links_iff.2 ⟨place, rule, was⟩
  refine ⟨moves.distinct sound.distinct apart, fun id mem => sound.held id (held id mem), sound.known,
    ?_, ?_, ?_, by simp [starts]⟩
  · intro id index hit
    have mem := (sound.slot id index hit).resolve_right (by simp [stops, next])
    obtain ⟨place, rule, was⟩ := Routes.mem_links_iff.1 mem
    refine (moves.left place rule id was).imp_left fun holds => ?_
    exact Routes.mem_links_iff.2 ⟨place, rule, holds⟩
  · intro id index alive
    exact .inl ((sound.alive id index alive).resolve_right (by simp [waits, next]))
  · intro id stop
    obtain ⟨⟨place, _, rule, was⟩, gone⟩ := moves.stopped id stop
    refine ⟨sound.held id (Routes.mem_links_iff.2 ⟨place, rule, was⟩), ?_⟩
    rw [Routes.mem_links_iff]
    rintro ⟨place', rule', holds⟩
    exact gone place' rule' holds

theorem Sound.goes (sound : session.Sound) (goes : Goes session later) : later.Sound := by
  cases goes with
  | build spec => exact sound.fades (session.fleet.fades_add spec)
  | act id link later found acts => exact sound.fades (Fleet.fades_put found acts.fades)
  | stop id pending next => exact sound.stop next
  | stopped id index pending before after next ended => exact sound.stopped next ended
  | start id start removals next => exact sound.start next
  | remove key removals next => exact sound.remove next
  | finish next =>
    refine ⟨sound.distinct, sound.held, sound.known, ?_, ?_, by simp [stops], by simp [starts]⟩
    · intro id index hit
      exact .inl ((sound.slot id index hit).resolve_right (by simp [stops, next]))
    · intro id index alive
      exact .inl ((sound.alive id index alive).resolve_right (by simp [waits, next]))

theorem Sound.step (sound : session.Sound) (step : Step session later) : later.Sound := by
  cases step with
  | begin mutation idle fresh => exact sound.begin idle fresh
  | goes _ goes => exact sound.goes goes

theorem Sound.leads (sound : session.Sound) (leads : Leads session later) : later.Sound := by
  induction leads with
  | refl => exact sound
  | tail _ step ih => exact ih.step step

end RouterSession

end TunnelIngress
