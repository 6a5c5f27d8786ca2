import TunnelIngress.Proofs.Tunnel.FilledSlots
import TunnelIngress.Proofs.Tunnel.LinkUse
import TunnelIngress.Proofs.Tunnel.RouteBatches

/-!
# Routes refreshed together and one by one

A batch of new routes ends with the routes that refreshing them one by one ends with. But it starts all
links that any of its routes placed, after it has stopped all that any of them replaced. So a link that one
route of the batch brings and another takes away is started and never stopped, where single refreshes stop
it.
-/

namespace TunnelIngress

namespace RouterSession

/-- New routes have links that are known, of their own, and that were not handed in before. Their keys can
repeat. -/
structure Unused (session : RouterSession) (news : List Route) : Prop where
  nodup : (news.flatMap (·.links.values)).Nodup
  known : ∀ id ∈ news.flatMap (·.links.values), id < session.fleet.links.length
  new : ∀ id ∈ news.flatMap (·.links.values), id ∉ session.handed

/-- Changes begin one at a time, with links of their own, and a batch can have several routes of one key. -/
inductive Arises : RouterSession → Prop where
  | new : Arises new
  | begin (session : RouterSession) (mutation : Mutation) (arises : Arises session)
      (idle : session.pending = none) (unused : session.Unused mutation.brought) :
      Arises (session.begin mutation)
  | goes (session later : RouterSession) (arises : Arises session) (goes : Goes session later) :
      Arises later

/-- Routes are refreshed one by one, each call after the end of the one before. -/
inductive OneByOne : RouterSession → List Route → RouterSession → Prop where
  | nil (session : RouterSession) : OneByOne session [] session
  | cons {session middle later : RouterSession} {new : Route} {rest : List Route}
      (carries : Carries (session.begin (.refresh [new])) middle) (complete : middle.pending = none)
      (others : OneByOne middle rest later) : OneByOne session (new :: rest) later

/-- A link that does not run is placed by a route of a batch and is not held in the end. -/
structure Overtaken (session : RouterSession) (news : List Route) (id : LinkId) : Prop where
  placed : Routes.Places session.fleet session.routes news id
  rests : session.fleet.isStarted id = false
  gone : id ∉ Routes.links (Routes.refreshAll session.fleet session.routes news).1

variable {session middle later together apart : RouterSession} {mutation : Mutation} {new : Route}
  {news rest : List Route} {id : LinkId}

/-! ### Links that are known -/

/-- Links that the routes hold, that have a supervisor or that are to be started were handed in. -/
structure Tidy (session : RouterSession) : Prop where
  distinct : Routes.Distinct session.routes
  held : ∀ id ∈ Routes.links session.routes, id ∈ session.handed
  known : ∀ id ∈ session.handed, id < session.fleet.links.length
  starts : ∀ id ∈ session.starts, id ∈ session.handed
  staffed : ∀ id, session.Staffed id → id ∈ session.handed
  tended : session.Tended

theorem tidy_new : Tidy .new where
  distinct := sound_new.distinct
  held := sound_new.held
  known := sound_new.known
  starts _ start := nomatch start
  staffed _ := fun ⟨_, slot⟩ => nomatch slot
  tended := sound_new.alive

theorem Tidy.spare (tidy : session.Tidy) (unused : session.Unused news) :
    Routes.Spare session.fleet session.routes news where
  nodup := unused.nodup
  new id mem held := unused.new id mem (tidy.held id held)
  rests id mem := by
    rw [Bool.eq_false_iff]
    intro started
    obtain ⟨index, slot, _⟩ := Fleet.isStarted_iff.1 started
    exact unused.new id mem (tidy.staffed id ⟨index, slot⟩)

/-- What a change plans concerns links that were handed in, or that it brings. -/
theorem Tidy.plan (tidy : session.Tidy) (unused : session.Unused mutation.brought) :
    Routes.Distinct (mutation.plan session.fleet session.routes).routes ∧
      (∀ id ∈ Routes.links (mutation.plan session.fleet session.routes).routes,
        id ∈ Routes.links session.routes ∨ id ∈ mutation.brought.flatMap (·.links.values)) ∧
      ∀ id ∈ (mutation.plan session.fleet session.routes).changes.start,
        id ∈ Routes.links session.routes ∨ id ∈ mutation.brought.flatMap (·.links.values) := by
  suffices moved : (mutation.brought.map (·.key)).Nodup →
      Routes.Distinct (mutation.plan session.fleet session.routes).routes ∧
        (∀ id ∈ Routes.links (mutation.plan session.fleet session.routes).routes,
          id ∈ Routes.links session.routes ∨ id ∈ mutation.brought.flatMap (·.links.values)) ∧
        ∀ id ∈ (mutation.plan session.fleet session.routes).changes.start,
          id ∈ Routes.links session.routes ∨ id ∈ mutation.brought.flatMap (·.links.values) by
    cases mutation with
    | update route => exact moved (List.nodup_singleton _)
    | refresh news =>
      have batch := (tidy.spare unused).batch tidy.distinct
      exact ⟨batch.distinct, batch.held, fun id start => batch.known id ((batch.start id).1 start).1⟩
    | remove key => exact moved List.nodup_nil
    | drop kind object keys => exact moved List.nodup_nil
    | halt => exact moved List.nodup_nil
  intro keys
  have apart : Routes.Apart session.routes mutation.brought :=
    ⟨keys, unused.nodup, fun key rule key' rule' id brings holds =>
      unused.new id (Routes.mem_brought_iff.2 ⟨key, rule, brings⟩)
        (tidy.held id (Routes.mem_links_iff.2 ⟨key', rule', holds⟩))⟩
  obtain ⟨_, moves⟩ := Routes.plan_moves session.fleet tidy.distinct apart
  have held (id : LinkId) (mem : id ∈ Routes.links (mutation.plan session.fleet session.routes).routes) :
      id ∈ Routes.links session.routes ∨ id ∈ mutation.brought.flatMap (·.links.values) := by
    obtain ⟨key, rule, holds⟩ := Routes.mem_links_iff.1 mem
    exact (moves.new key rule id holds).imp (fun was => Routes.mem_links_iff.2 ⟨key, rule, was⟩)
      fun brings => Routes.mem_brought_iff.2 ⟨key, rule, brings⟩
  refine ⟨moves.distinct tidy.distinct apart, held, fun id start => held id ?_⟩
  obtain ⟨route, _, rule, holds⟩ := moves.started id start
  exact Routes.mem_links_iff.2 ⟨route.key, rule, holds⟩

theorem Tidy.begin (tidy : session.Tidy) (idle : session.pending = none)
    (unused : session.Unused mutation.brought) :
    (session.begin mutation).Tidy := by
  obtain ⟨distinct, held, starts⟩ := tidy.plan unused
  have handed (id : LinkId)
      (mem : id ∈ Routes.links session.routes ∨ id ∈ mutation.brought.flatMap (·.links.values)) :
      id ∈ (session.begin mutation).handed :=
    List.mem_append.2 (mem.imp_left (tidy.held id))
  exact
    { distinct
      held := fun id mem => handed id (held id mem)
      known := fun id mem => (List.mem_append.1 mem).elim (tidy.known id) (unused.known id)
      starts := fun id start => handed id (starts id start)
      staffed := fun id filled => List.mem_append_left _ (tidy.staffed id filled)
      tended := (advanced_begin tidy.tended idle).tended }

theorem Tidy.goes (tidy : session.Tidy) (goes : Goes session later) : later.Tidy := by
  obtain ⟨handed, grown⟩ := goes_handed goes
  have known (id : LinkId) (mem : id ∈ later.handed) : id < later.fleet.links.length :=
    Nat.lt_of_lt_of_le (tidy.known id (handed ▸ mem)) grown
  obtain ⟨distinct, held, here, starts, staffed, tended⟩ := tidy
  cases goes with
  | build spec =>
    have fades := session.fleet.fades_add spec
    exact ⟨distinct, held, known, starts, fun id filled => staffed id ((staffed_fades fades).1 filled),
      tended.fades fades⟩
  | act other link later found acts =>
    have fades := Fleet.fades_put found acts.fades
    exact ⟨distinct, held, known, starts, fun id filled => staffed id ((staffed_fades fades).1 filled),
      tended.fades fades⟩
  | stop other pending next =>
    refine ⟨distinct, held, known, fun id start => starts id ?_, fun id filled => ?_, tended.stop next⟩
    · simpa [RouterSession.starts, next] using start
    · exact staffed id (staffed_beginStop.1 filled).2
  | stopped other index pending before after next ended =>
    have fades := session.fleet.fades_endStop other
    refine ⟨distinct, held, known, fun id start => starts id ?_, fun id filled => ?_,
      tended.stopped next ended⟩
    · simpa [RouterSession.starts, next] using start
    · exact staffed id ((staffed_fades fades).1 filled)
  | start other start removals next =>
    have due : session.starts = other :: start := by simp [RouterSession.starts, next]
    have own : other ∈ session.handed := starts other (due ▸ List.mem_cons_self)
    refine ⟨distinct, held, known, fun id mem => starts id (due ▸ List.mem_cons_of_mem _ mem),
      fun id filled => ?_, tended.start (here other own) (by simp [RouterSession.waits, next])⟩
    rcases (staffed_start (here other own)).1 filled with rfl | was
    · exact own
    · exact staffed id was
  | remove key removals next =>
    have moves := Routes.removeRoute_moves session.fleet distinct key
    have apart : Routes.Apart session.routes [] := ⟨by simp, by simp, by simp [Routes.Brings]⟩
    refine ⟨moves.distinct distinct apart, fun id mem => ?_, known, by simp [RouterSession.starts], staffed,
      fun id index alive => ?_⟩
    · obtain ⟨place, rule, holds⟩ := Routes.mem_links_iff.1 mem
      have was := (moves.new place rule id holds).resolve_right (by simp [Routes.Brings])
      exact held id (Routes.mem_links_iff.2 ⟨place, rule, was⟩)
    · exact .inl ((tended id index alive).resolve_right (by simp [RouterSession.waits, next]))
  | finish next =>
    refine ⟨distinct, held, known, by simp [RouterSession.starts], staffed, fun id index alive => ?_⟩
    exact .inl ((tended id index alive).resolve_right (by simp [RouterSession.waits, next]))

theorem Tidy.carries (tidy : session.Tidy) (carries : Carries session later) : later.Tidy := by
  induction carries with
  | refl => exact tidy
  | tail _ goes ih => exact ih.goes goes

theorem Arises.tidy (arises : session.Arises) : session.Tidy := by
  induction arises with
  | new => exact tidy_new
  | begin session mutation _ idle unused ih => exact ih.begin idle unused
  | goes session later _ goes ih => exact ih.goes goes

/-! ### Batches -/

/-- When a batch is complete, the routes are as planned. A slot is filled if the batch started its link, or
if it was filled before and the batch did not stop the link. -/
theorem Tidy.refreshed (tidy : session.Tidy) (idle : session.pending = none) (unused : session.Unused news)
    (carries : Carries (session.begin (.refresh news)) later) (complete : later.pending = none) :
    later.routes = (Routes.refreshAll session.fleet session.routes news).1 ∧
      ∀ id, later.Staffed id ↔ id ∈ (Routes.refreshAll session.fleet session.routes news).2.start ∨
        session.Staffed id ∧ id ∉ (Routes.refreshAll session.fleet session.routes news).2.stop := by
  constructor
  · refine (carries_routes carries fun pending next => ?_).1
    cases next
    rfl
  · have begun : (session.begin (.refresh news)).Tidy := tidy.begin idle unused
    have started : ∀ id ∈ ((Mutation.refresh news).plan session.fleet session.routes).changes.start,
        id < session.fleet.links.length :=
      fun id start => begun.known id (begun.starts id start)
    exact (staffed_complete tidy.tended idle started rfl carries complete).2

theorem Unused.tail (unused : session.Unused (new :: rest))
    (carries : Carries (session.begin (.refresh [new])) middle) :
    middle.Unused rest := by
  obtain ⟨nodup, known, new⟩ := unused
  rw [List.flatMap_cons, List.nodup_append] at nodup
  simp only [List.flatMap_cons, List.mem_append] at known new
  obtain ⟨handed, grown⟩ := carries_handed carries
  refine ⟨nodup.2.1, fun id mem => Nat.lt_of_lt_of_le (known id (.inr mem)) grown, fun id mem here => ?_⟩
  rw [handed] at here
  rcases List.mem_append.1 here with was | own
  · exact new id (.inr mem) was
  · exact nodup.2.2 id (by simpa [Mutation.brought] using own) id mem rfl

theorem Unused.head (unused : session.Unused (new :: rest)) : session.Unused [new] := by
  obtain ⟨nodup, known, new⟩ := unused
  rw [List.flatMap_cons, List.nodup_append] at nodup
  simp only [List.flatMap_cons, List.mem_append] at known new
  exact ⟨by simpa using nodup.1, fun id mem => known id (.inl (by simpa using mem)),
    fun id mem => new id (.inl (by simpa using mem))⟩

/-- What routes that are refreshed one by one come to, told by the tunnels that there were at some time
before the first of them. -/
theorem OneByOne.ends {fleet : Fleet} (calls : OneByOne session news apart) (tidy : session.Tidy)
    (idle : session.pending = none) (unused : session.Unused news)
    (spare : Routes.Spare fleet session.routes news)
    (kept : ∀ id spec, fleet.spec? id = some spec → session.fleet.spec? id = some spec)
    (known : ∀ id, id ∈ Routes.links session.routes ∨ id ∈ news.flatMap (·.links.values) →
      id < fleet.links.length) :
    apart.Tidy ∧ apart.pending = none ∧ apart.routes = (Routes.refreshAll fleet session.routes news).1 ∧
      ∀ id, apart.Staffed id ↔ (Routes.Places fleet session.routes news id ∨ session.Staffed id) ∧
        id ∉ (Routes.refreshAll fleet session.routes news).2.stop := by
  induction calls with
  | nil session =>
    refine ⟨tidy, idle, rfl, fun id => ⟨fun staffed => ⟨.inr staffed, List.not_mem_nil⟩, ?_⟩⟩
    rintro ⟨places | staffed, _⟩
    · cases places
    · exact staffed
  | @cons session middle apart new rest carries complete others ih =>
    have begun : (session.begin (.refresh [new])).Tidy := tidy.begin idle unused.head
    have ended := begun.carries carries
    obtain ⟨routes, staffed⟩ := tidy.refreshed idle unused.head carries complete
    rw [Routes.refreshAll_single] at routes staffed
    have first := spare.head.single tidy.distinct
    have actual := (tidy.spare unused.head).single tidy.distinct
    have brings (id : LinkId) (mem : id ∈ new.links.values) : id < fleet.links.length :=
      known id (.inr (List.mem_append_left _ mem))
    obtain ⟨same, stop⟩ :=
      Routes.refreshRoute_of_kept kept (fun id mem => known id (.inl mem)) brings
    rw [same] at routes
    have later (id : LinkId)
        (mem : id ∈ Routes.links middle.routes ∨ id ∈ rest.flatMap (·.links.values)) :
        id < fleet.links.length := by
      rw [routes] at mem
      rcases mem with held | brought
      · refine known id ((first.held id held).imp_right fun own => ?_)
        exact List.mem_append_left _ (by simpa using own)
      · exact known id (.inr (List.mem_append_right _ brought))
    have kept' (id : LinkId) (spec : LinkSpec) (was : fleet.spec? id = some spec) :
        middle.fleet.spec? id = some spec :=
      carries_spec carries (kept id spec was)
    have others : Routes.Spare fleet middle.routes rest := routes ▸ spare.tail first
    have second := others.batch ended.distinct
    obtain ⟨ended, done, last, filled⟩ := ih ended complete (unused.tail carries) others kept' later
    rw [Routes.refreshAll_cons, ← routes]
    refine ⟨ended, done, last, fun id => ?_⟩
    -- What the first route stops is not placed by it, nor by a later one.
    have replaced (stopped : id ∈ (Routes.refreshRoute session.routes fleet new).2.stop) :
        ¬(∃ rule, Routes.Holds middle.routes new.key rule id) ∧
          ¬Routes.Places fleet middle.routes rest id := by
      obtain ⟨unheld, unbrought⟩ := spare.gone first stopped
      rw [← routes] at unheld
      refine ⟨fun ⟨rule, holds⟩ => unheld (Routes.mem_links_iff.2 ⟨new.key, rule, holds⟩), fun places => ?_⟩
      exact (second.known id places).elim unheld unbrought
    have runs (started : session.fleet.isStarted id = true) : session.Staffed id := by
      obtain ⟨index, slot, _⟩ := Fleet.isStarted_iff.1 started
      exact ⟨index, slot⟩
    rw [filled, staffed, Routes.places_cons, Changeover.append_stop, List.mem_append, not_or, stop,
      actual.start, Routes.places_single, Routes.places_single, same, ← routes]
    constructor
    · rintro ⟨places | ⟨holds, _⟩ | ⟨was, unstopped⟩, last⟩
      · exact ⟨.inl (.inr places), fun stopped => (replaced stopped).2 places, last⟩
      · exact ⟨.inl (.inl holds), fun stopped => (replaced stopped).1 holds, last⟩
      · exact ⟨.inr was, unstopped, last⟩
    · rintro ⟨(holds | places) | was, unstopped, last⟩
      · cases started : session.fleet.isStarted id with
        | true => exact ⟨.inr (.inr ⟨runs started, unstopped⟩), last⟩
        | false => exact ⟨.inr (.inl ⟨holds, rfl⟩), last⟩
      · exact ⟨.inl places, last⟩
      · exact ⟨.inr (.inr ⟨was, unstopped⟩), last⟩

/-- What single calls come to, told by the batch of the same routes. -/
theorem Tidy.oneByOne (tidy : session.Tidy) (idle : session.pending = none) (unused : session.Unused news)
    (calls : OneByOne session news apart) :
    apart.Tidy ∧ apart.pending = none ∧
      apart.routes = (Routes.refreshAll session.fleet session.routes news).1 ∧
      ∀ id, apart.Staffed id ↔
        (Routes.Places session.fleet session.routes news id ∨ session.Staffed id) ∧
          id ∉ (Routes.refreshAll session.fleet session.routes news).2.stop := by
  refine calls.ends tidy idle unused (tidy.spare unused) (fun _ _ was => was) fun id mem => ?_
  exact mem.elim (fun held => tidy.known id (tidy.held id held)) (unused.known id)

/-- A batch leaves the slots filled that single calls fill, and those of the links that it overtakes. -/
theorem Tidy.staffed_together (tidy : session.Tidy) (idle : session.pending = none)
    (unused : session.Unused news) (batch : Carries (session.begin (.refresh news)) together)
    (complete : together.pending = none) (calls : OneByOne session news apart) :
    together.Staffed id ↔ apart.Staffed id ∨ session.Overtaken news id := by
  have links := (tidy.spare unused).batch tidy.distinct
  obtain ⟨_, filled⟩ := tidy.refreshed idle unused batch complete
  obtain ⟨_, _, _, filled'⟩ := tidy.oneByOne idle unused calls
  rw [filled, filled', links.start]
  constructor
  · rintro (⟨placed, rests⟩ | ⟨was, unstopped⟩)
    · by_cases held : id ∈ Routes.links (Routes.refreshAll session.fleet session.routes news).1
      · exact .inl ⟨.inl placed, fun stop => (links.stop id stop).2 held⟩
      · exact .inr ⟨placed, rests, held⟩
    · exact .inl ⟨.inr was, unstopped⟩
  · rintro (⟨placed | was, unstopped⟩ | ⟨placed, rests, _⟩)
    · cases started : session.fleet.isStarted id with
      | true =>
        obtain ⟨index, slot, _⟩ := Fleet.isStarted_iff.1 started
        exact .inr ⟨⟨index, slot⟩, unstopped⟩
      | false => exact .inl ⟨placed, rfl⟩
    · exact .inr ⟨was, unstopped⟩
    · exact .inl ⟨placed, rests⟩

/-- Single calls leave no slot filled whose link the routes do not hold, if there was none before. -/
theorem Tidy.oneByOne_held (tidy : session.Tidy) (idle : session.pending = none)
    (unused : session.Unused news) (calls : OneByOne session news apart)
    (held : ∀ id, session.Staffed id → id ∈ Routes.links session.routes)
    (staffed : apart.Staffed id) : id ∈ Routes.links apart.routes := by
  have links := (tidy.spare unused).batch tidy.distinct
  obtain ⟨_, _, routes, filled⟩ := tidy.oneByOne idle unused calls
  obtain ⟨reached, unstopped⟩ := (filled id).1 staffed
  rw [routes]
  rcases reached with placed | was
  · exact (links.placed id placed).resolve_right unstopped
  · exact (links.left id (held id was)).resolve_right unstopped

/-- **A batch leaves the links running that it overtakes, and is otherwise like single calls.** A batch of
new routes, with any keys, ends with the routes that the calls one by one end with. It leaves the slots
filled that they fill, and besides those of the links that one of its routes placed and another took away,
unless they ran when it began. No route holds such a link, and the single calls leave it stopped. As long as
no supervisor ends by itself the same is true of the links that are live. There is no such link when the
keys of the batch are distinct. And where all filled slots belonged to routes before, they do so after the
single calls, while after the batch the only others are those of the links that it overtook. -/
theorem refreshed_together (arises : session.Arises) (idle : session.pending = none)
    (unused : session.Unused news) (batch : Carries (session.begin (.refresh news)) together)
    (complete : together.pending = none) (calls : OneByOne session news apart) :
    together.routes = apart.routes ∧
    (∀ id, together.Staffed id ↔ apart.Staffed id ∨ session.Overtaken news id) ∧
    (∀ id, together.Steady id → apart.Steady id →
      (together.Live id ↔ apart.Live id ∨ session.Overtaken news id)) ∧
    (∀ id, session.Overtaken news id → id ∉ Routes.links together.routes ∧ ¬apart.Staffed id ∧
      ¬apart.Live id) ∧
    ((news.map (·.key)).Nodup → ∀ id, ¬session.Overtaken news id) ∧
    ((∀ id, session.Staffed id → id ∈ Routes.links session.routes) →
      (∀ id, apart.Staffed id → id ∈ Routes.links apart.routes) ∧
      ∀ id, together.Staffed id → id ∈ Routes.links together.routes ∨ session.Overtaken news id) := by
  have tidy := arises.tidy
  have links := (tidy.spare unused).batch tidy.distinct
  have begun : (session.begin (.refresh news)).Tidy := tidy.begin idle unused
  have tended := (begun.carries batch).tended
  obtain ⟨routes, _⟩ := tidy.refreshed idle unused batch complete
  obtain ⟨ended, done, routes', filled⟩ := tidy.oneByOne idle unused calls
  have same : together.routes = apart.routes := routes.trans routes'.symm
  have staffed (id : LinkId) : together.Staffed id ↔ apart.Staffed id ∨ session.Overtaken news id :=
    tidy.staffed_together idle unused batch complete calls
  refine ⟨same, staffed, fun id steady steady' => ?_, fun id overtaken => ?_, fun nodup id overtaken => ?_,
    fun held => ⟨fun id => tidy.oneByOne_held idle unused calls held, fun id fills => ?_⟩⟩
  · rw [live_iff tended complete steady, live_iff ended.tended done steady', staffed]
  · have stopped := (links.placed id overtaken.placed).resolve_left overtaken.gone
    have unfilled : ¬apart.Staffed id := fun fills => ((filled id).1 fills).2 stopped
    exact ⟨routes ▸ overtaken.gone, unfilled, fun live => unfilled (live.staffed ended.tended done)⟩
  · exact overtaken.gone (overtaken.placed.held nodup)
  · refine ((staffed id).1 fills).imp_left fun fills => ?_
    rw [same]
    exact tidy.oneByOne_held idle unused calls held fills

/-- The site is served, and links with two other certificates are made for it. -/
def renewedTwice : RouterSession :=
  { served with
    fleet :=
      ((served.fleet.add { siteSpec with certificate := [1] }).1.add
        { siteSpec with certificate := [2] }).1 }

theorem arises_renewedTwice : Arises renewedTwice := by
  have first := Arises.goes _ _ .new (.build _ siteSpec)
  have begun := Arises.begin _ (.update (siteRoute 0)) first rfl ⟨by decide, by decide, by decide⟩
  have started := Arises.goes _ _ begun (.start _ 0 [] [] rfl)
  have complete := Arises.goes _ _ started (.finish _ rfl)
  have second := Arises.goes _ _ complete (.build _ { siteSpec with certificate := [1] })
  exact .goes _ _ second (.build _ { siteSpec with certificate := [2] })

theorem unused_renewedTwice : renewedTwice.Unused [siteRoute 1, siteRoute 2] :=
  ⟨by decide, by decide, by decide⟩

/-- The batch stops the first two links and then starts the last two. -/
theorem renewedTwice_together : ∃ together,
    Carries (renewedTwice.begin (.refresh [siteRoute 1, siteRoute 2])) together ∧ together.pending = none ∧
      (∀ id, together.Steady id) ∧ together.Live 1 ∧ 1 ∉ Routes.links together.routes := by
  have carries := (Relation.ReflTransGen.refl (r := Goes)
      (a := renewedTwice.begin (.refresh [siteRoute 1, siteRoute 2])))
    |>.tail (.stop _ 0 ⟨[1], [], [1, 2], []⟩ rfl)
    |>.tail (.stop _ 1 ⟨[], [(0, 0)], [1, 2], []⟩ rfl)
    |>.tail (.act _ 0 _ _ rfl (.launch 0 _ rfl (.inl rfl)))
    |>.tail (.act _ 0 _ _ rfl (.ended 0 _ .exited none rfl rfl))
    |>.tail (.stopped _ 0 0 ⟨[], [], [1, 2], []⟩ [] [] rfl rfl)
    |>.tail (.start _ 1 [2] [] rfl)
    |>.tail (.start _ 2 [] [] rfl)
    |>.tail (.finish _ rfl)
  refine ⟨_, carries, rfl, fun id index slot => ?_, ⟨0, rfl⟩, by decide⟩
  rcases id with _ | _ | _ | _ <;> cases slot <;> rfl

/-- The second call stops the link that the first one started. -/
theorem renewedTwice_oneByOne : ∃ apart,
    OneByOne renewedTwice [siteRoute 1, siteRoute 2] apart ∧ (∀ id, apart.Steady id) ∧ ¬apart.Live 1 := by
  have first := (Relation.ReflTransGen.refl (r := Goes) (a := renewedTwice.begin (.refresh [siteRoute 1])))
    |>.tail (.stop _ 0 ⟨[], [], [1], []⟩ rfl)
    |>.tail (.act _ 0 _ _ rfl (.launch 0 _ rfl (.inl rfl)))
    |>.tail (.act _ 0 _ _ rfl (.ended 0 _ .exited none rfl rfl))
    |>.tail (.stopped _ 0 0 ⟨[], [], [1], []⟩ [] [] rfl rfl)
    |>.tail (.start _ 1 [] [] rfl)
    |>.tail (.finish _ rfl)
  refine ⟨_, .cons first rfl (.cons (Relation.ReflTransGen.refl
    |>.tail (.stop _ 1 ⟨[], [], [2], []⟩ rfl)
    |>.tail (.act _ 1 _ _ rfl (.launch 0 _ rfl (.inl rfl)))
    |>.tail (.act _ 1 _ _ rfl (.ended 0 _ .exited none rfl rfl))
    |>.tail (.stopped _ 1 0 ⟨[], [], [2], []⟩ [] [] rfl rfl)
    |>.tail (.start _ 2 [] [] rfl)
    |>.tail (.finish _ rfl)) rfl (.nil _)), fun id index slot => ?_, ?_⟩
  · rcases id with _ | _ | _ | _ <;> cases slot
    rfl
  · rintro ⟨index, alive⟩
    cases index with
    | zero => cases alive
    | succ index => cases alive

theorem refreshed_together_twice : ∃ together apart,
    Carries (renewedTwice.begin (.refresh [siteRoute 1, siteRoute 2])) together ∧ together.pending = none ∧
      OneByOne renewedTwice [siteRoute 1, siteRoute 2] apart ∧ together.routes = apart.routes ∧
      together.Staffed 1 ∧ ¬apart.Staffed 1 := by
  obtain ⟨together, batch, complete, _⟩ := renewedTwice_together
  obtain ⟨apart, calls, _⟩ := renewedTwice_oneByOne
  obtain ⟨same, staffed, _, gone, _⟩ :=
    refreshed_together arises_renewedTwice rfl unused_renewedTwice batch complete calls
  have overtaken : renewedTwice.Overtaken [siteRoute 1, siteRoute 2] 1 :=
    ⟨.now siteSpec.rule ⟨_, rfl, rfl⟩, rfl, by decide⟩
  exact ⟨together, apart, batch, complete, calls, same, (staffed 1).2 (.inr overtaken),
    (gone 1 overtaken).2.1⟩

/-- After the batch a link runs that no route holds, and that does not run after the single calls, though no
supervisor has ended by itself. -/
theorem overtaken_runs_on : ∃ session news together apart id,
    Arises session ∧ session.pending = none ∧ session.Unused news ∧
      Carries (session.begin (.refresh news)) together ∧ together.pending = none ∧
        OneByOne session news apart ∧
      (∀ id, together.Steady id) ∧ (∀ id, apart.Steady id) ∧
      together.Live id ∧ ¬apart.Live id ∧ id ∉ Routes.links together.routes := by
  obtain ⟨together, batch, complete, steady, live, unheld⟩ := renewedTwice_together
  obtain ⟨apart, calls, steady', ended⟩ := renewedTwice_oneByOne
  exact ⟨renewedTwice, [siteRoute 1, siteRoute 2], together, apart, 1, arises_renewedTwice, rfl,
    unused_renewedTwice, batch, complete, calls, steady, steady', live, ended, unheld⟩

end RouterSession

end TunnelIngress
