import TunnelIngress.Proofs.Tunnel.CarriedChanges
import TunnelIngress.Proofs.Tunnel.LinkUse

/-!
# Replacing a route

What replacing the links of a route by new ones comes to: which link serves a rule from then on, which
links are stopped and which are started. Nothing else changes.
-/

namespace TunnelIngress

/-- Links with one certificate, one set of options and the same ends launch the same daemon, as whatever
else a launch is told comes from the settings. -/
theorem LinkSpec.launch_of_same {settings : TunnelSettings} {rule rule' : Rule}
    {certificate certificate' : List UInt8} {options options' : TunnelOptions}
    (same : (LinkSpec.new settings rule certificate options).same
      (.new settings rule' certificate' options') = true) (clientId : String) :
    (LinkSpec.new settings rule certificate options).launch settings clientId =
      (LinkSpec.new settings rule' certificate' options').launch settings clientId := by
  simp only [LinkSpec.same, Bool.and_eq_true, beq_iff_eq] at same
  obtain ⟨⟨⟨host, origin⟩, rfl⟩, rfl⟩ := same
  unfold LinkSpec.launch
  rw [host, origin]
  rfl

/-- All links of a fleet were made under some settings. -/
def Fleet.MadeUnder (fleet : Fleet) (settings : TunnelSettings) : Prop :=
  ∀ id spec, fleet.spec? id = some spec →
    ∃ rule certificate options, spec = .new settings rule certificate options

/-- Two links tell the daemon the same at a launch, but for the client's id. -/
def Fleet.LaunchAlike (fleet : Fleet) (settings : TunnelSettings) (a b : LinkId) : Prop :=
  ∃ first second, fleet.spec? a = some first ∧ fleet.spec? b = some second ∧
    ∀ clientId, first.launch settings clientId = second.launch settings clientId

theorem Fleet.LaunchAlike.grow {fleet later : Fleet} {settings : TunnelSettings} {a b : LinkId}
    (alike : fleet.LaunchAlike settings a b)
    (kept : ∀ id spec, fleet.spec? id = some spec → later.spec? id = some spec) :
    later.LaunchAlike settings a b := by
  obtain ⟨first, second, here, there, same⟩ := alike
  exact ⟨first, second, kept a first here, kept b second there, same⟩

theorem Fleet.MadeUnder.alike {fleet : Fleet} {settings : TunnelSettings} {a b : LinkId}
    (made : fleet.MadeUnder settings) (same : fleet.same a b = true) :
    fleet.LaunchAlike settings a b := by
  unfold Fleet.same at same
  split at same
  · rename_i first second here there
    have here : fleet.spec? a = some first.spec := congrArg (Option.map Link.spec) here
    have there : fleet.spec? b = some second.spec := congrArg (Option.map Link.spec) there
    obtain ⟨rule, certificate, options, old⟩ := made a first.spec here
    obtain ⟨rule', certificate', options', new⟩ := made b second.spec there
    refine ⟨first.spec, second.spec, here, there, fun clientId => ?_⟩
    rw [old, new] at same ⊢
    exact LinkSpec.launch_of_same same clientId
  · cases same

namespace Changeover

/-- Which link serves a rule: an equal one that served it before, or else the new one. -/
inductive Serves (fleet : Fleet) (old : Option LinkId) (fresh : LinkId) : LinkId → Prop where
  | kept (id : LinkId) (had : old = some id) (equal : fleet.same id fresh = true) :
      Serves fleet old fresh id
  | new (differ : ∀ id, old = some id → fleet.same id fresh = false) : Serves fleet old fresh fresh

/-- The links that are stopped. -/
inductive Stops (fleet : Fleet) (old new : Table Rule LinkId) (id : LinkId) : Prop where
  | dropped (rule : Rule) (had : old.get? rule = some id) (lacks : new.get? rule = .none)
  | replaced (rule : Rule) (fresh : LinkId) (had : old.get? rule = some id)
      (brings : new.get? rule = some fresh) (differ : fleet.same id fresh = false)

/-- The links that are started. -/
inductive Starts (fleet : Fleet) (old new : Table Rule LinkId) (id : LinkId) : Prop where
  | added (rule : Rule) (lacked : old.get? rule = .none) (brings : new.get? rule = some id)
  | replacing (rule : Rule) (gone : LinkId) (had : old.get? rule = some gone)
      (brings : new.get? rule = some id) (differ : fleet.same gone id = false)
  | kept (rule : Rule) (fresh : LinkId) (had : old.get? rule = some id)
      (brings : new.get? rule = some fresh) (equal : fleet.same id fresh = true) (index : Nat)
      (slot : fleet.slot? id = some index) (ended : fleet.alive id index = false)

variable {fleet : Fleet} {old : Table Rule LinkId} {new : Route} {rule : Rule} {id : LinkId}

theorem Serves.alike {settings : TunnelSettings} {old : Option LinkId} {fresh : LinkId}
    (serves : Serves fleet old fresh id) (made : fleet.MadeUnder settings)
    (known : fresh < fleet.links.length) : fleet.LaunchAlike settings id fresh := by
  cases serves with
  | kept id had equal => exact made.alike equal
  | new differ =>
    obtain ⟨spec, found⟩ : ∃ spec, fleet.spec? id = some spec :=
      ⟨_, congrArg (Option.map Link.spec) (List.getElem?_eq_getElem known)⟩
    exact ⟨spec, spec, found, found, fun _ => rfl⟩

theorem serves_settle (fleet : Fleet) (old : Option LinkId) (fresh : LinkId) :
    Serves fleet old fresh (settle fleet old fresh).1 := by
  cases old with
  | none => exact .new nofun
  | some gone =>
    cases same : fleet.same gone fresh with
    | true =>
      simp only [settle, same, if_true]
      exact .kept gone rfl same
    | false =>
      simp only [settle, same, Bool.false_eq_true, if_false]
      exact .new fun id had => Option.some.inj had ▸ same

theorem mem_stop_iff : id ∈ (replace fleet old new).2.stop ↔ Stops fleet old new.links id := by
  rw [mem_replace_stop]
  constructor
  · rintro (⟨rule, fresh, brings, stop⟩ | ⟨rule, had, lacks⟩)
    · cases had : old.get? rule with
      | none => simp [settle, had] at stop
      | some gone =>
        cases same : fleet.same gone fresh with
        | true => simp [settle, had, same] at stop
        | false =>
          obtain rfl : id = gone := by simpa [settle, had, same] using stop
          exact .replaced rule fresh had brings same
    · exact .dropped rule had lacks
  · rintro (⟨rule, had, lacks⟩ | ⟨rule, fresh, had, brings, differ⟩)
    · exact .inr ⟨rule, had, lacks⟩
    · exact .inl ⟨rule, fresh, brings, by simp [settle, had, differ]⟩

/-- A link whose supervisor is still there is not started. -/
theorem isStarted_eq_false {index : Nat} (slot : fleet.slot? id = some index) :
    fleet.isStarted id = false ↔ fleet.alive id index = false := by
  rw [← Bool.not_eq_true, ← Bool.not_eq_true, Fleet.isStarted_iff, slot]
  simp

theorem mem_start_iff (filled : ∀ rule id, old.get? rule = some id → ∃ index, fleet.slot? id = some index) :
    id ∈ (replace fleet old new).2.start ↔ Starts fleet old new.links id := by
  rw [mem_replace_start]
  constructor
  · rintro ⟨rule, fresh, brings, start⟩
    cases had : old.get? rule with
    | none =>
      obtain rfl : id = fresh := by simpa [settle, had] using start
      exact .added rule had brings
    | some gone =>
      cases same : fleet.same gone fresh with
      | true =>
        obtain ⟨index, slot⟩ := filled rule gone had
        cases started : fleet.isStarted gone with
        | true => simp [settle, had, same, started] at start
        | false =>
          obtain rfl : id = gone := by simpa [settle, had, same, started] using start
          exact .kept rule fresh had brings same index slot ((isStarted_eq_false slot).1 started)
      | false =>
        obtain rfl : id = fresh := by simpa [settle, had, same] using start
        exact .replacing rule gone had brings same
  · rintro (⟨rule, lacked, brings⟩ | ⟨rule, gone, had, brings, differ⟩ |
      ⟨rule, fresh, had, brings, equal, index, slot, ended⟩)
    · exact ⟨rule, id, brings, by simp [settle, lacked]⟩
    · exact ⟨rule, id, brings, by simp [settle, had, differ]⟩
    · have started := (isStarted_eq_false slot).2 ended
      exact ⟨rule, fresh, brings, by simp [settle, had, equal, started]⟩

/-- As no link serves two rules afterwards, none is started twice. -/
theorem nodup_start (distinct : ∀ rule rule' id, (replace fleet old new).1.links.get? rule = some id →
      (replace fleet old new).1.links.get? rule' = some id → rule = rule') :
    (replace fleet old new).2.start.Nodup := by
  have served {rule : Rule} {fresh id : LinkId} (mem : (rule, fresh) ∈ new.links.entries)
      (start : id ∈ (settle fleet (old.get? rule) fresh).2.start) :
      (replace fleet old new).1.links.get? rule = some id := by
    rw [replace_links, Table.get?_eq_some_iff.2 mem, (settle_start fleet _ fresh).1 id start]
    rfl
  have start : (replace fleet old new).2.start =
      new.links.entries.flatMap fun entry => (settle fleet (old.get? entry.1) entry.2).2.start := by
    rw [replace_eq]
    simp [settleAll_changes, none]
  rw [start, List.nodup_flatMap]
  constructor
  · rintro ⟨rule, fresh⟩ _
    rcases settle_cases fleet (old.get? rule) fresh with ⟨_, same⟩ | ⟨kept, _, _, same⟩ | ⟨_, _, same⟩
    · simp [same]
    · cases started : fleet.isStarted kept <;> simp [same, started]
    · simp [same]
  · refine (List.pairwise_map.1 new.links.nodup).imp_of_mem ?_
    rintro ⟨rule, fresh⟩ ⟨rule', fresh'⟩ mem mem' ne id start start'
    exact ne (distinct rule rule' id (served mem start) (served mem' start'))

end Changeover

namespace RouterSession

variable {session later : RouterSession} {route : Route} {rule : Rule} {id : LinkId}

/-- A link that was never handed in has no supervisor. -/
theorem Sound.unstarted (sound : session.Sound) (idle : session.pending = none)
    (new : id ∉ session.handed) : session.fleet.slot? id = none := by
  by_contra some
  obtain ⟨index, slot⟩ := Option.ne_none_iff_exists'.1 some
  have held := (sound.slot id index slot).resolve_right (by simp [RouterSession.stops, idle])
  exact new (sound.held id held)

theorem mem_brought (brings : route.links.get? rule = some id) :
    id ∈ (Mutation.update route).brought.flatMap (·.links.values) := by
  rw [Routes.mem_brought_iff]
  exact ⟨route.key, rule, route, List.mem_singleton_self route, rfl, brings⟩

/-- A link is stopped for an update. -/
def Stops (session : RouterSession) (route : Route) (id : LinkId) : Prop :=
  Changeover.Stops session.fleet (Routes.linksOf session.routes route.key) route.links id

/-- A link is started for an update. -/
def Starts (session : RouterSession) (route : Route) (id : LinkId) : Prop :=
  Changeover.Starts session.fleet (Routes.linksOf session.routes route.key) route.links id

theorem held_of_linksOf (had : (Routes.linksOf session.routes route.key).get? rule = some id) :
    id ∈ Routes.links session.routes :=
  Routes.mem_links_iff.2 ⟨route.key, rule, Routes.linksOf_iff.1 had⟩

theorem Stops.held (stops : session.Stops route id) : id ∈ Routes.links session.routes := by
  cases stops with
  | dropped rule had lacks => exact held_of_linksOf had
  | replaced rule fresh had brings differ => exact held_of_linksOf had

theorem mem_stop_update_iff :
    id ∈ ((Mutation.update route).plan session.fleet session.routes).changes.stop ↔
      session.Stops route id :=
  Changeover.mem_stop_iff

theorem mem_start_update_iff (run : Leads new session) (idle : session.pending = none) :
    id ∈ ((Mutation.update route).plan session.fleet session.routes).changes.start ↔
      session.Starts route id :=
  Changeover.mem_start_iff fun _ _ had => held_filled run idle (held_of_linksOf had)

/-- What an update asks of links: those that it starts do not run, and it stops none of them. -/
theorem orderly_update (run : Leads new session) (idle : session.pending = none)
    (fresh : session.Fresh (.update route)) :
    ((Mutation.update route).plan session.fleet session.routes).changes.Orderly session.fleet := by
  have sound := sound_new.leads run
  have apart := sound.apart fresh
  have moves := Routes.put_moves session.fleet sound.distinct apart
  have distinct := moves.distinct sound.distinct apart
  have rests {rule : Rule} {id : LinkId} (brings : route.links.get? rule = some id) :
      session.fleet.isStarted id = false := by
    have slot := sound.unstarted idle (fresh.new id (mem_brought brings))
    rw [Bool.eq_false_iff]
    intro started
    obtain ⟨index, taken, _⟩ := Fleet.isStarted_iff.1 started
    cases slot.symm.trans taken
  refine ⟨?_, ?_, ?_⟩
  · refine Changeover.nodup_start fun rule rule' id held held' => ?_
    exact (distinct route.key rule route.key rule' id (Routes.holds_insert.2 (by rwa [if_pos rfl]))
      (Routes.holds_insert.2 (by rwa [if_pos rfl]))).2
  · intro id start stop
    obtain ⟨brought, _, rule, holds⟩ := moves.started id start
    exact (moves.stopped id stop).2 _ _ holds
  · intro id start
    cases (mem_start_update_iff run idle).1 start with
    | added rule lacked brings => exact rests brings
    | replacing rule gone had brings differ => exact rests brings
    | kept rule fresh had brings equal index slot ended =>
      exact (Changeover.isStarted_eq_false slot).2 ended

theorem updated_last (pending : PendingChange)
    (next : (session.begin (.update route)).pending = some pending) : pending.later = [] := by
  cases next
  rfl

theorem updated_routes (carries : Carries (session.begin (.update route)) later) (key : ResourceKey) :
    later.routes.get? key = if key = route.key then
      some (Changeover.replace session.fleet (Routes.linksOf session.routes route.key) route).1
    else session.routes.get? key := by
  rw [(carries_routes carries updated_last).1]
  exact Table.get?_insert

/-- Once an update is complete, each link that it starts has one supervisor more, and no other link
has. -/
theorem updated_starts (run : Leads new session) (idle : session.pending = none)
    (fresh : session.Fresh (.update route)) {asked begun : List LinkId}
    (underway : Underway session.fleet
      ((Mutation.update route).plan session.fleet session.routes).changes later asked begun)
    (complete : later.pending = none) (id : LinkId) :
    (session.Starts route id → later.fleet.starts id = session.fleet.starts id + 1) ∧
      (¬ session.Starts route id → later.fleet.starts id = session.fleet.starts id) := by
  have all : begun = ((Mutation.update route).plan session.fleet session.routes).changes.start := by
    rw [underway.starts]
    simp [RouterSession.starts, complete]
  rw [← mem_start_update_iff run idle, ← all, underway.count id]
  have once : begun.Nodup := all ▸ (orderly_update run idle fresh).once
  refine ⟨fun mem => ?_, fun absent => ?_⟩
  · rw [List.count_eq_one_of_mem once mem]
  · rw [List.count_eq_zero_of_not_mem absent, Nat.add_zero]

/-- Once an update is complete, the links that had a supervisor in their slot and have none any more are
those that it stops. -/
theorem updated_stops (run : Leads new session) (idle : session.pending = none)
    (fresh : session.Fresh (.update route)) {asked begun : List LinkId}
    (underway : Underway session.fleet
      ((Mutation.update route).plan session.fleet session.routes).changes later asked begun)
    (complete : later.pending = none) (id : LinkId) :
    session.Stops route id ↔ session.fleet.slot? id ≠ none ∧ later.fleet.slot? id = none := by
  have orderly := orderly_update run idle fresh
  have all : asked = ((Mutation.update route).plan session.fleet session.routes).changes.stop := by
    rw [underway.stops]
    simp [RouterSession.stops, complete]
  constructor
  · intro stops
    obtain ⟨index, slot⟩ := held_filled run idle stops.held
    have mem := mem_stop_update_iff.2 stops
    have unbegun : id ∉ begun := fun here =>
      orderly.apart id (underway.starts ▸ List.mem_append_left _ here) mem
    refine ⟨by simp [slot], ?_⟩
    rw [underway.slot id unbegun, if_pos (all ▸ mem)]
  · rintro ⟨had, lacks⟩
    have unbegun : id ∉ begun := fun here => by simpa [lacks] using underway.filled id here
    rw [underway.slot id unbegun] at lacks
    split at lacks
    · rename_i mem
      exact mem_stop_update_iff.1 (all ▸ mem)
    · exact absurd lacks had

/-- **Replacing a route changes no more than it has to.** While an update is carried out and after it, the
other routes are as they were, and the route has exactly the new rules. An equal link that served a rule
before stays, and any other gives way to the new one; either tells the daemon what the new one would. No
link is started before all that are to be stopped have come to rest. Once the update is complete, the
links that lost their supervisor are those whose rule is gone and those that gave way, and the links that
got one are those whose rule is new, those that replaced another, and those that stayed although their
supervisor had ended. -/
theorem replaced_exactly (settings : TunnelSettings) (run : Leads new session)
    (idle : session.pending = none) (fresh : session.Fresh (.update route))
    (made : session.fleet.MadeUnder settings)
    (carries : Carries (session.begin (.update route)) later) :
    (∀ key, key ≠ route.key → later.routes.get? key = session.routes.get? key) ∧
    (∃ placed, later.routes.get? route.key = some placed ∧ placed.key = route.key ∧
      placed.options = route.options ∧
      (∀ rule, placed.links.contains rule = route.links.contains rule) ∧
      ∀ rule new, route.links.get? rule = some new →
        ∃ live, placed.links.get? rule = some live ∧
          Changeover.Serves session.fleet ((Routes.linksOf session.routes route.key).get? rule) new live ∧
          later.fleet.LaunchAlike settings live new) ∧
    ((∃ id, session.fleet.starts id < later.fleet.starts id) →
      later.stops = [] ∧ later.waits = [] ∧ ∀ id, session.Stops route id →
        later.fleet.slot? id = none ∧ ∀ index, later.fleet.alive id index = false) ∧
    (later.pending = none → ∀ id,
      (session.Stops route id ↔ session.fleet.slot? id ≠ none ∧ later.fleet.slot? id = none) ∧
      (session.Stops route id → ∀ index, later.fleet.alive id index = false) ∧
      (session.Starts route id → later.fleet.starts id = session.fleet.starts id + 1) ∧
      (¬ session.Starts route id → later.fleet.starts id = session.fleet.starts id)) := by
  have sound := sound_new.leads run
  have orderly := orderly_update run idle fresh
  have routes := updated_routes carries
  obtain ⟨sound', asked, begun, underway⟩ := (underway_begin session (.update route)).carries orderly
    (sound.begin idle fresh) updated_last carries
  refine ⟨fun key other => ?_, ⟨_, (routes route.key).trans (if_pos rfl), rfl, rfl, fun rule => ?_, ?_⟩,
    ?_, fun complete id => ?_⟩
  · exact (routes key).trans (if_neg other)
  · rw [Table.contains_eq_isSome, Table.contains_eq_isSome, Changeover.replace_links,
      Option.isSome_map]
  · intro rule new brings
    have serves := Changeover.serves_settle session.fleet
      ((Routes.linksOf session.routes route.key).get? rule) new
    refine ⟨_, Changeover.replace_links.trans (congrArg _ brings), serves, ?_⟩
    refine (serves.alike made (fresh.known new (mem_brought brings))).grow fun id spec found => ?_
    exact carries_spec carries found
  · rintro ⟨started, more⟩
    have some : begun ≠ [] := by
      rintro rfl
      have same := underway.count started
      rw [List.count_nil] at same
      omega
    obtain ⟨asked_all, ended⟩ := underway.ordered some
    refine ⟨asked_all, ended, fun id stops => ?_⟩
    exact underway.stopped_first orderly sound' some (mem_stop_update_iff.2 stops)
  · have stopped := updated_stops run idle fresh underway complete id
    refine ⟨stopped, fun stops index => ?_, updated_starts run idle fresh underway complete id⟩
    rw [Bool.eq_false_iff]
    intro alive
    have slot := (sound'.alive id index alive).resolve_right (by simp [RouterSession.waits, complete])
    cases (stopped.1 stops).2.symm.trans slot

/-- The site is served, and a link with another certificate is made for it. -/
def renewing : RouterSession :=
  { served with fleet := (served.fleet.add { siteSpec with certificate := [1] }).1 }

theorem leads_renewing : Leads new renewing :=
  (Relation.ReflTransGen.refl (r := Step) (a := new))
    |>.tail (.goes _ _ (.build _ siteSpec))
    |>.tail (.begin _ (.update (siteRoute 0)) rfl ⟨by decide, by decide, by decide, by decide⟩)
    |>.tail (.goes _ _ (.start _ 0 [] [] rfl))
    |>.tail (.goes _ _ (.finish _ rfl))
    |>.tail (.goes _ _ (.build _ _))

/-- The link is stopped and the one with the other certificate started. -/
theorem replaced_exactly_certificate : ∃ later,
    Carries (renewing.begin (.update (siteRoute 1))) later ∧ later.pending = none ∧
      (∀ index, later.fleet.alive 0 index = false) ∧ later.fleet.starts 1 = renewing.fleet.starts 1 + 1 ∧
      later.fleet.isStarted 1 = true := by
  have fresh : renewing.Fresh (.update (siteRoute 1)) := ⟨by decide, by decide, by decide, by decide⟩
  have made : renewing.fleet.MadeUnder {} := by
    intro id spec found
    rcases id with _ | _ | _
    · cases found
      exact ⟨_, _, _, rfl⟩
    · cases found
      exact ⟨_, _, _, rfl⟩
    · cases found
  have carries := (Relation.ReflTransGen.refl (r := Goes) (a := renewing.begin (.update (siteRoute 1))))
    |>.tail (.stop _ 0 ⟨[], [], [1], []⟩ rfl)
    |>.tail (.act _ 0 _ _ rfl (.launch 0 _ rfl (.inl rfl)))
    |>.tail (.act _ 0 _ _ rfl (.ended 0 _ .exited none rfl rfl))
    |>.tail (.stopped _ 0 0 ⟨[], [], [1], []⟩ [] [] rfl rfl)
    |>.tail (.start _ 1 [] [] rfl)
    |>.tail (.finish _ rfl)
  have same : renewing.fleet.same 0 1 = false := by decide
  have stops : renewing.Stops (siteRoute 1) 0 := .replaced siteSpec.rule 1 rfl rfl same
  have starts : renewing.Starts (siteRoute 1) 1 := .replacing siteSpec.rule 0 rfl rfl same
  have complete := (replaced_exactly {} leads_renewing rfl fresh made carries).2.2.2 rfl
  exact ⟨_, carries, rfl, (complete 0).2.1 stops, (complete 1).2.2.1 starts, rfl⟩

end RouterSession

end TunnelIngress
