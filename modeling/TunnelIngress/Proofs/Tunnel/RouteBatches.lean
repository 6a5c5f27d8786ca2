import TunnelIngress.Proofs.Tunnel.SettledRoutes

/-!
# Routes replaced in a batch

A batch replaces routes one after the other, and a later one of its routes can replace what an earlier one
brought. So besides the links that the routes hold in the end there are those that they held in between.
-/

namespace TunnelIngress

/-! ### Fleets with the same tunnels -/

section

variable {fleet later : Fleet} (kept : ∀ id spec, fleet.spec? id = some spec → later.spec? id = some spec)

include kept

theorem Fleet.same_of_kept {a b : LinkId} (first : a < fleet.links.length)
    (second : b < fleet.links.length) :
    later.same a b = fleet.same a b := by
  have found {id : LinkId} (known : id < fleet.links.length) :
      ∃ link now, fleet.get? id = some link ∧ later.get? id = some now ∧ now.spec = link.spec := by
    obtain ⟨link, found⟩ : ∃ link, fleet.get? id = some link := ⟨_, List.getElem?_eq_getElem known⟩
    obtain ⟨now, there, equal⟩ :=
      Option.map_eq_some_iff.1 (kept id link.spec (congrArg (Option.map Link.spec) found))
    exact ⟨link, now, found, there, equal⟩
  obtain ⟨link, now, here, there, equal⟩ := found first
  obtain ⟨link', now', here', there', equal'⟩ := found second
  simp [Fleet.same, here, there, equal, here', there', equal']

/-- Which links serve a route, and which make way, depends on the tunnels alone. -/
theorem Changeover.replace_of_kept {old : Table Rule LinkId} {new : Route}
    (had : ∀ id ∈ old.values, id < fleet.links.length)
    (brings : ∀ id ∈ new.links.values, id < fleet.links.length) :
    (replace later old new).1 = (replace fleet old new).1 ∧
      ∀ id, id ∈ (replace later old new).2.stop ↔ id ∈ (replace fleet old new).2.stop := by
  have settled {rule : Rule} {fresh : LinkId} (hit : new.links.get? rule = some fresh) :
      (settle later (old.get? rule) fresh).1 = (settle fleet (old.get? rule) fresh).1 ∧
        (settle later (old.get? rule) fresh).2.stop = (settle fleet (old.get? rule) fresh).2.stop := by
    cases was : old.get? rule with
    | none => exact ⟨rfl, rfl⟩
    | some id =>
      have same := Fleet.same_of_kept kept (had id (Table.mem_values_iff.2 ⟨rule, was⟩))
        (brings fresh (Table.mem_values_iff.2 ⟨rule, hit⟩))
      simp only [settle, same]
      split <;> exact ⟨rfl, rfl⟩
  constructor
  · refine Route.ext rfl rfl (Table.ext_of_keys ?_ fun rule _ => ?_)
    · rw [keys_replace, keys_replace]
    · rw [replace_links, replace_links]
      cases hit : new.links.get? rule with
      | none => rfl
      | some fresh => exact congrArg some (settled hit).1
  · intro id
    rw [mem_replace_stop, mem_replace_stop]
    refine or_congr_left (exists_congr fun rule => exists_congr fun fresh => and_congr_right fun hit => ?_)
    rw [(settled hit).2]

theorem Routes.refreshRoute_of_kept {routes : Routes} {new : Route}
    (had : ∀ id ∈ Routes.links routes, id < fleet.links.length)
    (brings : ∀ id ∈ new.links.values, id < fleet.links.length) :
    (refreshRoute routes later new).1 = (refreshRoute routes fleet new).1 ∧
      ∀ id, id ∈ (refreshRoute routes later new).2.stop ↔ id ∈ (refreshRoute routes fleet new).2.stop := by
  unfold refreshRoute
  cases hit : routes.get? new.key with
  | none => exact ⟨rfl, fun _ => .rfl⟩
  | some old =>
    have known (id : LinkId) (mem : id ∈ old.links.values) : id < fleet.links.length := by
      obtain ⟨rule, held⟩ := Table.mem_values_iff.1 mem
      exact had id (mem_links_iff.2 ⟨new.key, rule, old, hit, held⟩)
    obtain ⟨same, stop⟩ := Changeover.replace_of_kept kept known brings
    refine ⟨?_, stop⟩
    simp only [putRoute, same]

end

namespace Routes

variable {fleet : Fleet} {routes middle after : Routes} {changes : Changeover} {new : Route}
  {news rest : List Route} {id : LinkId} {key : ResourceKey}

/-- The routes after a batch, and what has to happen to the links. -/
def refreshAll (fleet : Fleet) (routes : Routes) (news : List Route) : Routes × Changeover :=
  forEach routes news fun routes new => refreshRoute routes fleet new

theorem refreshAll_cons (fleet : Fleet) (routes : Routes) (new : Route) (rest : List Route) :
    refreshAll fleet routes (new :: rest) =
      ((refreshAll fleet (refreshRoute routes fleet new).1 rest).1,
        (refreshRoute routes fleet new).2 ++ (refreshAll fleet (refreshRoute routes fleet new).1 rest).2) :=
  forEach_cons routes new rest _

theorem refreshAll_single (fleet : Fleet) (routes : Routes) (new : Route) :
    refreshAll fleet routes [new] = refreshRoute routes fleet new := by
  rw [refreshAll_cons]
  simp [refreshAll, forEach, Changeover.append_def, Changeover.none]

/-- One of the new routes has a link when it takes its place. -/
inductive Places (fleet : Fleet) : Routes → List Route → LinkId → Prop where
  | now {routes : Routes} {new : Route} {rest : List Route} {id : LinkId} (rule : Rule)
      (held : Holds (refreshRoute routes fleet new).1 new.key rule id) :
      Places fleet routes (new :: rest) id
  | later {routes : Routes} {new : Route} {rest : List Route} {id : LinkId}
      (places : Places fleet (refreshRoute routes fleet new).1 rest id) :
      Places fleet routes (new :: rest) id

theorem places_single : Places fleet routes [new] id ↔
    ∃ rule, Holds (refreshRoute routes fleet new).1 new.key rule id := by
  constructor
  · rintro (⟨rule, held⟩ | none)
    · exact ⟨rule, held⟩
    · cases none
  · rintro ⟨rule, held⟩
    exact .now rule held

theorem places_cons : Places fleet routes (new :: rest) id ↔
    Places fleet routes [new] id ∨ Places fleet (refreshRoute routes fleet new).1 rest id := by
  rw [places_single]
  constructor
  · rintro (⟨rule, held⟩ | places)
    · exact .inl ⟨rule, held⟩
    · exact .inr places
  · rintro (⟨rule, held⟩ | places)
    · exact .now rule held
    · exact .later places

/-- New routes have links of their own, which no route holds and which do not run. -/
structure Spare (fleet : Fleet) (routes : Routes) (news : List Route) : Prop where
  nodup : (news.flatMap (·.links.values)).Nodup
  new : ∀ id ∈ news.flatMap (·.links.values), id ∉ links routes
  rests : ∀ id ∈ news.flatMap (·.links.values), fleet.isStarted id = false

/-- What a batch does to the links: one that it stops is not held in the end, and one that it starts was
placed by one of its routes. -/
structure Batch (fleet : Fleet) (routes : Routes) (news : List Route) (after : Routes)
    (changes : Changeover) : Prop where
  distinct : Distinct after
  held : ∀ id ∈ links after, id ∈ links routes ∨ id ∈ news.flatMap (·.links.values)
  left : ∀ id ∈ links routes, id ∈ links after ∨ id ∈ changes.stop
  known : ∀ id, Places fleet routes news id → id ∈ links routes ∨ id ∈ news.flatMap (·.links.values)
  placed : ∀ id, Places fleet routes news id → id ∈ links after ∨ id ∈ changes.stop
  stop : ∀ id ∈ changes.stop, (id ∈ links routes ∨ id ∈ news.flatMap (·.links.values)) ∧ id ∉ links after
  start : ∀ id, id ∈ changes.start ↔ Places fleet routes news id ∧ fleet.isStarted id = false

theorem Spare.apart (spare : Spare fleet routes [new]) : Apart routes [new] where
  keys := List.nodup_singleton _
  links := spare.nodup
  new key rule key' rule' id brings held :=
    spare.new id (mem_brought_iff.2 ⟨key, rule, brings⟩) (mem_links_iff.2 ⟨key', rule', held⟩)

/-- Only links that do not run are started. -/
theorem Spare.stopped (spare : Spare fleet routes [new])
    (start : id ∈ (refreshRoute routes fleet new).2.start) : fleet.isStarted id = false := by
  have rests {fresh : LinkId} {rule : Rule} (hit : new.links.get? rule = some fresh) :
      fleet.isStarted fresh = false :=
    spare.rests fresh (by simpa using Table.mem_values_iff.2 ⟨rule, hit⟩)
  unfold refreshRoute at start
  cases there : routes.get? new.key with
  | none => simp [there, Changeover.none] at start
  | some old =>
    rw [there] at start
    obtain ⟨rule, fresh, hit, start⟩ := Changeover.mem_replace_start.1 start
    rcases Changeover.settle_cases fleet (old.links.get? rule) fresh with
      ⟨_, same⟩ | ⟨kept, _, _, same⟩ | ⟨_, _, same⟩
    · obtain rfl : id = fresh := by simpa [same] using start
      exact rests hit
    · cases started : fleet.isStarted kept with
      | true => simp [same, started] at start
      | false =>
        obtain rfl : id = kept := by simpa [same, started] using start
        exact started
    · obtain rfl : id = fresh := by simpa [same] using start
      exact rests hit

theorem Spare.single (spare : Spare fleet routes [new]) (distinct : Distinct routes) :
    Batch fleet routes [new] (refreshRoute routes fleet new).1 (refreshRoute routes fleet new).2 := by
  have moves := refreshRoute_moves fleet distinct spare.apart
  have held (id : LinkId) (mem : id ∈ links (refreshRoute routes fleet new).1) :
      id ∈ links routes ∨ id ∈ [new].flatMap (·.links.values) := by
    obtain ⟨key, rule, holds⟩ := mem_links_iff.1 mem
    exact (moves.new key rule id holds).imp (fun was => mem_links_iff.2 ⟨key, rule, was⟩)
      fun brings => mem_brought_iff.2 ⟨key, rule, brings⟩
  have here (id : LinkId) (places : Places fleet routes [new] id) :
      id ∈ links (refreshRoute routes fleet new).1 := by
    obtain ⟨rule, holds⟩ := places_single.1 places
    exact mem_links_iff.2 ⟨new.key, rule, holds⟩
  refine ⟨moves.distinct distinct spare.apart, held, fun id mem => ?_,
    fun id places => held id (here id places), fun id places => .inl (here id places), fun id stop => ?_,
    fun id => ⟨fun start => ⟨?_, spare.stopped start⟩, ?_⟩⟩
  · obtain ⟨key, rule, holds⟩ := mem_links_iff.1 mem
    exact (moves.left key rule id holds).imp_left fun still => mem_links_iff.2 ⟨key, rule, still⟩
  · obtain ⟨⟨key, _, rule, was⟩, gone⟩ := moves.stopped id stop
    refine ⟨.inl (mem_links_iff.2 ⟨key, rule, was⟩), fun mem => ?_⟩
    obtain ⟨key', rule', holds⟩ := mem_links_iff.1 mem
    exact gone key' rule' holds
  · obtain ⟨brought, mem, rule, holds⟩ := moves.started id start
    obtain rfl := List.mem_singleton.1 mem
    exact .now rule holds
  · rintro ⟨places, rests⟩
    obtain ⟨rule, holds⟩ := places_single.1 places
    exact (moves.runs new (List.mem_singleton_self new) rule id holds).resolve_right (by simp [rests])

theorem Spare.head (spare : Spare fleet routes (new :: rest)) : Spare fleet routes [new] := by
  obtain ⟨nodup, new, rests⟩ := spare
  rw [List.flatMap_cons, List.nodup_append] at nodup
  simp only [List.flatMap_cons, List.mem_append] at new rests
  exact ⟨by simpa using nodup.1, fun id mem => new id (.inl (by simpa using mem)),
    fun id mem => rests id (.inl (by simpa using mem))⟩

theorem Spare.tail (spare : Spare fleet routes (new :: rest))
    (first : Batch fleet routes [new] middle changes) : Spare fleet middle rest := by
  have nodup := spare.nodup
  rw [List.flatMap_cons, List.nodup_append] at nodup
  refine ⟨nodup.2.1, fun id mem here => ?_, fun id mem => spare.rests id (List.mem_append_right _ mem)⟩
  rcases first.held id here with was | brought
  · exact spare.new id (List.mem_append_right _ mem) was
  · exact nodup.2.2 id (by simpa using brought) id mem rfl

/-- What the first route of a batch stops is not placed again. -/
theorem Spare.gone (spare : Spare fleet routes (new :: rest))
    (first : Batch fleet routes [new] middle changes) (stop : id ∈ changes.stop) :
    id ∉ links middle ∧ id ∉ rest.flatMap (·.links.values) := by
  obtain ⟨was, gone⟩ := first.stop id stop
  refine ⟨gone, fun brought => ?_⟩
  rcases was with held | own
  · exact spare.new id (List.mem_append_right _ brought) held
  · have nodup := spare.nodup
    rw [List.flatMap_cons, List.nodup_append] at nodup
    exact nodup.2.2 id (by simpa using own) id brought rfl

theorem Batch.cons (spare : Spare fleet routes (new :: rest))
    (first : Batch fleet routes [new] (refreshRoute routes fleet new).1 (refreshRoute routes fleet new).2)
    (second : Batch fleet (refreshRoute routes fleet new).1 rest after changes) :
    Batch fleet routes (new :: rest) after ((refreshRoute routes fleet new).2 ++ changes) := by
  have all (id : LinkId) : id ∈ (new :: rest).flatMap (·.links.values) ↔
      id ∈ [new].flatMap (·.links.values) ∨ id ∈ rest.flatMap (·.links.values) := by
    simp
  have earlier (id : LinkId)
      (mem : id ∈ links (refreshRoute routes fleet new).1 ∨ id ∈ rest.flatMap (·.links.values)) :
      id ∈ links routes ∨ id ∈ (new :: rest).flatMap (·.links.values) := by
    rw [all]
    rcases mem with mem | mem
    · exact (first.held id mem).imp_right .inl
    · exact .inr (.inr mem)
  have last (id : LinkId)
      (mem : id ∈ links (refreshRoute routes fleet new).1 ∨ id ∈ (refreshRoute routes fleet new).2.stop) :
      id ∈ links after ∨ id ∈ ((refreshRoute routes fleet new).2 ++ changes).stop := by
    rw [Changeover.append_stop, List.mem_append]
    rcases mem with still | gone
    · exact (second.left id still).imp_right .inr
    · exact .inr (.inl gone)
  refine ⟨second.distinct, fun id mem => earlier id (second.held id mem),
    fun id mem => last id (first.left id mem),
    fun id places => ?_, fun id places => ?_, fun id stop => ?_, fun id => ?_⟩
  · rcases places_cons.1 places with here | later
    · exact (first.known id here).imp_right fun own => (all id).2 (.inl own)
    · exact earlier id (second.known id later)
  · rcases places_cons.1 places with here | later
    · exact last id (first.placed id here)
    · exact (second.placed id later).imp_right (List.mem_append_right _)
  · rcases List.mem_append.1 stop with stop | stop
    · obtain ⟨unheld, unbrought⟩ := spare.gone first stop
      refine ⟨(first.stop id stop).1.imp_right fun own => (all id).2 (.inl own), fun back => ?_⟩
      exact (second.held id back).elim unheld unbrought
    · exact ⟨earlier id (second.stop id stop).1, (second.stop id stop).2⟩
  · rw [Changeover.append_start, List.mem_append, first.start, second.start, ← or_and_right, ← places_cons]

theorem Spare.batch (spare : Spare fleet routes news) (distinct : Distinct routes) :
    Batch fleet routes news (refreshAll fleet routes news).1 (refreshAll fleet routes news).2 := by
  induction news generalizing routes with
  | nil =>
    have none (id : LinkId) : ¬Places fleet routes [] id := fun places => by cases places
    exact ⟨distinct, fun _ mem => .inl mem, fun _ mem => .inl mem, fun id places => absurd places (none id),
      fun id places => absurd places (none id), fun _ stop => (by cases stop),
      fun id => ⟨fun start => (by cases start), fun placed => absurd placed.1 (none id)⟩⟩
  | cons new rest ih =>
    have first := spare.head.single distinct
    rw [refreshAll_cons]
    exact .cons spare first (ih (spare.tail first) first.distinct)

/-! ### Routes with keys of their own -/

theorem get?_refreshRoute (other : key ≠ new.key) :
    (refreshRoute routes fleet new).1.get? key = routes.get? key := by
  unfold refreshRoute
  cases routes.get? new.key with
  | none => rfl
  | some old => exact Table.get?_insert.trans (if_neg other)

theorem get?_refreshAll (other : key ∉ news.map (·.key)) :
    (refreshAll fleet routes news).1.get? key = routes.get? key := by
  induction news generalizing routes with
  | nil => rfl
  | cons new rest ih =>
    rw [List.map_cons, List.mem_cons, not_or] at other
    rw [refreshAll_cons]
    exact (ih other.2).trans (get?_refreshRoute other.1)

/-- What a route of a batch places stays if no other route of the batch has its key. -/
theorem Places.held (places : Places fleet routes news id) (nodup : (news.map (·.key)).Nodup) :
    id ∈ links (refreshAll fleet routes news).1 := by
  induction places with
  | now rule held =>
    rw [List.map_cons, List.nodup_cons] at nodup
    rw [refreshAll_cons]
    exact mem_links_iff.2 ⟨_, rule, (holds_congr (get?_refreshAll nodup.1)).2 held⟩
  | later places ih =>
    rw [List.map_cons, List.nodup_cons] at nodup
    rw [refreshAll_cons]
    exact ih nodup.2

end Routes

end TunnelIngress
