import TunnelIngress.Proofs.Tunnel.LinkMoves

/-!
# How each change moves links

The links that every single change of the routes moves, and those that a whole change does.
-/

namespace TunnelIngress

namespace Routes

variable {fleet : Fleet} {before after : Routes} {fresh : List Route} {keys : List ResourceKey}
  {changes : Changeover}

/-! ### Single changes -/

def linksOf (routes : Routes) (key : ResourceKey) : Table Rule LinkId :=
  ((routes.get? key).map (·.links)).getD ∅

theorem linksOf_iff {key : ResourceKey} {rule : Rule} {id : LinkId} :
    (linksOf before key).get? rule = some id ↔ Holds before key rule id := by
  unfold linksOf Holds
  cases before.get? key <;> simp

theorem holds_insert {key other : ResourceKey} {route : Route} {rule : Rule} {id : LinkId} :
    Holds (Table.insert before key route) other rule id ↔
      if other = key then route.links.get? rule = some id else Holds before other rule id := by
  unfold Holds
  rw [Table.get?_insert]
  split <;> simp

theorem put_moves (fleet : Fleet) {new : Route} (distinct : Distinct before)
    (apart : Apart before [new]) :
    Moves fleet [new] [new.key] before (putRoute before fleet (linksOf before new.key) new).1
      (putRoute before fleet (linksOf before new.key) new).2 := by
  let old := linksOf before new.key
  let replaced := (Changeover.replace fleet old new).1
  have holds (key : ResourceKey) (rule : Rule) (id : LinkId) :
      Holds (putRoute before fleet old new).1 key rule id ↔
        if key = new.key then replaced.links.get? rule = some id else Holds before key rule id :=
    holds_insert
  have brings (rule : Rule) (id : LinkId) (hit : new.links.get? rule = some id) :
      Brings [new] new.key rule id :=
    ⟨new, List.mem_singleton_self new, rfl, hit⟩
  have settled (rule : Rule) (id : LinkId) : replaced.links.get? rule = some id ↔
      ∃ fresh, new.links.get? rule = some fresh ∧
        (Changeover.settle fleet (old.get? rule) fresh).1 = id := by
    rw [Changeover.replace_links, Option.map_eq_some_iff]
  have kept_or_new (key : ResourceKey) (rule : Rule) (id : LinkId)
      (held : Holds (putRoute before fleet old new).1 key rule id) :
      Holds before key rule id ∨ Brings [new] key rule id := by
    rw [holds] at held
    split at held
    · rename_i same
      subst same
      obtain ⟨fresh, hit, rfl⟩ := (settled rule id).1 held
      rcases Changeover.settle_cases fleet (old.get? rule) fresh with
        ⟨_, same⟩ | ⟨kept, was, _, same⟩ | ⟨_, _, same⟩
      · exact .inr (same ▸ brings rule fresh hit)
      · exact .inl (same ▸ linksOf_iff.1 was)
      · exact .inr (same ▸ brings rule fresh hit)
    · exact .inl held
  -- A link that a route held can only be held in the same place, and that place has another link now.
  have gone (rule : Rule) (id : LinkId) (was : Holds before new.key rule id)
      (now : replaced.links.get? rule ≠ some id) (key' : ResourceKey) (rule' : Rule) :
      ¬ Holds (putRoute before fleet old new).1 key' rule' id := by
    intro held
    rcases kept_or_new key' rule' id held with same | brought
    · obtain ⟨rfl, rfl⟩ := distinct _ _ _ _ _ was same
      rw [holds, if_pos rfl] at held
      exact now held
    · exact apart.new _ _ _ _ id brought was
  refine ⟨?_, kept_or_new, ?_, ?_, ?_, ?_⟩
  · intro key absent
    change (Table.insert before new.key replaced).get? key = _
    rw [Table.get?_insert, if_neg (by simpa using absent)]
  · intro key rule id held
    rw [holds]
    split
    · rename_i same
      subst same
      have was := linksOf_iff.2 held
      rw [settled]
      cases hit : new.links.get? rule with
      | none => exact .inr (Changeover.mem_replace_stop.2 (.inr ⟨rule, was, hit⟩))
      | some fresh =>
        rcases Changeover.settle_cases fleet (old.get? rule) fresh with
          ⟨none, _⟩ | ⟨kept, is, _, same⟩ | ⟨dropped, is, same⟩
        · simp [old, was] at none
        · obtain rfl : id = kept := by simpa [old, was] using is
          exact .inl ⟨fresh, rfl, by rw [same]⟩
        · obtain rfl : id = dropped := by simpa [old, was] using is
          exact .inr (Changeover.mem_replace_stop.2 (.inl ⟨rule, fresh, hit, by simp [old, same]⟩))
    · exact .inl held
  · intro id stop
    rcases Changeover.mem_replace_stop.1 stop with ⟨rule, fresh, hit, stop⟩ | ⟨rule, was, hit⟩
    · rcases Changeover.settle_cases fleet (old.get? rule) fresh with
        ⟨_, same⟩ | ⟨_, _, _, same⟩ | ⟨dropped, was, same⟩
      · simp [old, same] at stop
      · simp [old, same] at stop
      · obtain rfl : id = dropped := by simpa [old, same] using stop
        have held := linksOf_iff.1 was
        refine ⟨⟨new.key, List.mem_singleton_self _, rule, held⟩, gone rule id held ?_⟩
        intro now
        obtain ⟨other, hit', now⟩ := (settled rule id).1 now
        obtain rfl : fresh = other := by simpa [hit] using hit'
        rw [same] at now
        exact apart.new _ _ _ _ id (brings rule id (now ▸ hit)) held
    · have held := linksOf_iff.1 was
      refine ⟨⟨new.key, List.mem_singleton_self _, rule, held⟩, gone rule id held ?_⟩
      intro now
      obtain ⟨other, hit', _⟩ := (settled rule id).1 now
      simp [hit] at hit'
  · intro id start
    obtain ⟨rule, fresh, hit, start⟩ := Changeover.mem_replace_start.1 start
    refine ⟨new, List.mem_singleton_self _, rule, ?_⟩
    rw [holds, if_pos rfl, settled]
    exact ⟨fresh, hit, ((Changeover.settle_start fleet _ fresh).1 id start).symm⟩
  · intro route mem rule id held
    obtain rfl := List.mem_singleton.1 mem
    rw [holds, if_pos rfl] at held
    obtain ⟨fresh, hit, rfl⟩ := (settled rule id).1 held
    refine (Changeover.settle_start fleet (old.get? rule) fresh).2.imp_left fun start => ?_
    exact Changeover.mem_replace_start.2 ⟨rule, fresh, hit, start⟩

theorem refreshRoute_moves (fleet : Fleet) {new : Route} (distinct : Distinct before)
    (apart : Apart before [new]) :
    Moves fleet [new] [new.key] before (refreshRoute before fleet new).1
      (refreshRoute before fleet new).2 := by
  have put := put_moves fleet distinct apart
  unfold linksOf at put
  unfold refreshRoute
  cases hit : before.get? new.key with
  | none => exact .refl fleet _ before (by simpa using hit)
  | some route => simpa [hit] using put

theorem removeRoute_moves (fleet : Fleet) (distinct : Distinct before) (key : ResourceKey) :
    Moves fleet [] [key] before (removeRoute before key).1 (removeRoute before key).2 := by
  unfold removeRoute
  cases hit : before.get? key with
  | none => exact .refl fleet _ before (by simp)
  | some route =>
    have holds (other : ResourceKey) (rule : Rule) (id : LinkId) :
        Holds (Table.erase before key) other rule id ↔ other ≠ key ∧ Holds before other rule id := by
      unfold Holds
      rw [Table.get?_erase]
      split <;> simp_all
    refine ⟨?_, ?_, ?_, ?_, ?_, ?_⟩
    · intro other absent
      change (Table.erase before key).get? other = _
      rw [Table.get?_erase, if_neg (by simpa using absent)]
    · exact fun other rule id held => .inl ((holds other rule id).1 held).2
    · intro other rule id held
      by_cases same : other = key
      · obtain ⟨found, hit', was⟩ := held
        obtain rfl : route = found := by simpa [same, hit] using hit'
        exact .inr (Table.mem_values_iff.2 ⟨rule, was⟩)
      · exact .inl ((holds other rule id).2 ⟨same, held⟩)
    · intro id stop
      obtain ⟨rule, was⟩ := Table.mem_values_iff.1 stop
      refine ⟨⟨key, List.mem_singleton_self key, rule, route, hit, was⟩, fun other rule' held => ?_⟩
      obtain ⟨ne, held⟩ := (holds other rule' id).1 held
      exact ne (distinct _ _ _ _ id held ⟨route, hit, was⟩).1
    · exact fun id start => by cases start
    · exact fun new mem => by cases mem

theorem dropDependents_moves (fleet : Fleet) (distinct : Distinct before) (kind : Kind)
    (object key : ResourceKey) :
    Moves fleet [] [key] before (dropDependents before kind object key).1
      (dropDependents before kind object key).2 := by
  unfold dropDependents
  cases hit : before.get? key with
  | none => exact .refl fleet _ before (by simp)
  | some route =>
    have holds (other : ResourceKey) (rule : Rule) (id : LinkId) :
        Holds (Table.insert before key
          { route with links := route.links.filter fun rule _ => !rule.dependsOn kind object })
          other rule id ↔
        Holds before other rule id ∧ (other = key → rule.dependsOn kind object = false) := by
      rw [holds_insert, Table.get?_filter]
      split
      · rename_i same
        simp [same, Holds, hit, Option.filter_eq_some_iff]
      · rename_i ne
        simp [ne]
    refine ⟨?_, ?_, ?_, ?_, ?_, ?_⟩
    · intro other absent
      change (Table.insert before key _).get? other = _
      rw [Table.get?_insert, if_neg (by simpa using absent)]
    · exact fun other rule id held => .inl ((holds other rule id).1 held).1
    · intro other rule id held
      by_cases doomed : other = key ∧ rule.dependsOn kind object = true
      · obtain ⟨rfl, doomed⟩ := doomed
        obtain ⟨found, hit', was⟩ := held
        obtain rfl : route = found := by simpa [hit] using hit'
        refine .inr (Table.mem_values_iff.2 ⟨rule, ?_⟩)
        rw [Table.get?_filter, was]
        simp [doomed]
      · refine .inl ((holds other rule id).2 ⟨held, fun same => ?_⟩)
        simpa [same] using doomed
    · intro id stop
      obtain ⟨rule, was⟩ := Table.mem_values_iff.1 stop
      rw [Table.get?_filter, Option.filter_eq_some_iff] at was
      have here : Holds before key rule id := ⟨route, hit, was.1⟩
      refine ⟨⟨key, List.mem_singleton_self key, rule, here⟩, fun other rule' held => ?_⟩
      obtain ⟨held, kept⟩ := (holds other rule' id).1 held
      obtain ⟨rfl, rfl⟩ := distinct _ _ _ _ id held here
      simp [kept rfl] at was
    · exact fun id start => by cases start
    · exact fun new mem => by cases mem

/-! ### Whole changes -/

theorem forEach_cons {α : Type} (routes : Routes) (item : α) (rest : List α)
    (change : Routes → α → Routes × Changeover) :
    forEach routes (item :: rest) change =
      ((forEach (change routes item).1 rest change).1,
        (change routes item).2 ++ (forEach (change routes item).1 rest change).2) := by
  suffices general : ∀ (items : List α) (routes : Routes) (changes : Changeover),
      items.foldl (fun (done : Routes × Changeover) item =>
        ((change done.1 item).1, done.2 ++ (change done.1 item).2)) (routes, changes) =
      ((forEach routes items change).1, changes ++ (forEach routes items change).2) from
    general rest _ _
  intro items
  induction items with
  | nil => simp [forEach, Changeover.append_def, Changeover.none]
  | cons first rest ih =>
    intro routes changes
    have once : forEach routes (first :: rest) change =
        ((forEach (change routes first).1 rest change).1, Changeover.none ++ (change routes first).2 ++
          (forEach (change routes first).1 rest change).2) := ih _ _
    rw [List.foldl_cons, ih, once]
    simp [Changeover.append_def, Changeover.none]

/-- The new routes after the first are apart from what the first one leaves. -/
theorem Apart.tail {middle : Routes} {new : Route} (apart : Apart before (new :: fresh))
    (moves : Moves fleet [new] keys before middle changes) : Apart middle fresh where
  keys := (List.nodup_cons.1 apart.keys).2
  links := by
    have links := apart.links
    rw [List.flatMap_cons, List.nodup_append] at links
    exact links.2.1
  new key rule key' rule' id brings holds := by
    have brings' : Brings (new :: fresh) key rule id := by
      obtain ⟨route, mem, brought⟩ := brings
      exact ⟨route, List.mem_cons_of_mem _ mem, brought⟩
    rcases moves.new key' rule' id holds with held | ⟨route, mem, rfl, hit⟩
    · exact apart.new _ _ _ _ id brings' held
    · obtain rfl := List.mem_singleton.1 mem
      have links := apart.links
      rw [List.flatMap_cons, List.nodup_append] at links
      exact links.2.2 id (Table.mem_values_iff.2 ⟨rule', hit⟩) id (mem_brought_iff.2 ⟨key, rule, brings⟩)
        rfl

theorem Apart.head {new : Route} (apart : Apart before (new :: fresh)) : Apart before [new] where
  keys := by simp
  links := by
    have links := apart.links
    rw [List.flatMap_cons, List.nodup_append] at links
    simpa using links.1
  new key rule key' rule' id brings := by
    obtain ⟨route, mem, brought⟩ := brings
    obtain rfl := List.mem_singleton.1 mem
    exact apart.new _ _ _ _ id ⟨route, List.mem_cons_self, brought⟩

theorem refreshAll_moves (distinct : Distinct before) (apart : Apart before fresh) :
    let done := forEach before fresh fun routes route => refreshRoute routes fleet route
    Moves fleet fresh (fresh.map (·.key)) before done.1 done.2 := by
  induction fresh generalizing before with
  | nil => exact .refl fleet [] before (by simp)
  | cons new rest ih =>
    have first := refreshRoute_moves fleet distinct apart.head
    have second := ih (first.distinct distinct apart.head) (apart.tail first)
    intro done
    rw [show done = _ from forEach_cons before new rest _]
    refine first.trans second ?_ ?_
    · intro route mem
      obtain rfl := List.mem_singleton.1 mem
      exact (List.nodup_cons.1 apart.keys).1
    · intro key rule key' rule' id brings
      obtain ⟨route, mem, brought⟩ := brings
      exact apart.new _ _ _ _ id ⟨route, List.mem_cons_of_mem _ mem, brought⟩

theorem dropAll_moves (fleet : Fleet) (distinct : Distinct before) (kind : Kind) (object : ResourceKey)
    (keys : List ResourceKey) :
    let done := forEach before keys fun routes key => dropDependents routes kind object key
    Moves fleet [] keys before done.1 done.2 := by
  induction keys generalizing before with
  | nil => exact .refl fleet [] before (by simp)
  | cons key rest ih =>
    have none : Apart before [] := ⟨by simp, by simp, by simp [Brings]⟩
    have first := dropDependents_moves fleet distinct kind object key
    have second := ih (first.distinct distinct none)
    intro done
    rw [show done = _ from forEach_cons before key rest _]
    exact first.trans second (by simp) (by simp [Brings])

theorem plan_moves (fleet : Fleet) (distinct : Distinct before) {mutation : Mutation}
    (apart : Apart before mutation.brought) :
    ∃ keys, Moves fleet mutation.brought keys before (mutation.plan fleet before).routes
      (mutation.plan fleet before).changes := by
  cases mutation with
  | update route => exact ⟨_, put_moves fleet distinct apart⟩
  | refresh routes => exact ⟨_, refreshAll_moves distinct apart⟩
  | remove key => exact ⟨_, removeRoute_moves fleet distinct key⟩
  | drop kind object keys =>
    cases kind with
    | ingress => exact ⟨[], .refl fleet [] before (by simp [Mutation.brought])⟩
    | endpoint => exact ⟨_, dropAll_moves fleet distinct .endpoint object keys⟩
    | secret => exact ⟨_, dropAll_moves fleet distinct .secret object keys⟩
    | service => exact ⟨_, dropAll_moves fleet distinct .service object keys⟩
  | halt =>
    have none (key : ResourceKey) (rule : Rule) (id : LinkId) :
        ¬ Holds (∅ : Table ResourceKey Route) key rule id := by
      simp [Holds]
    have stops (id : LinkId) : id ∈ (Mutation.halt.plan fleet before).changes.stop ↔
        ∃ key rule, Holds before key rule id := by
      simp only [Mutation.plan, List.mem_flatMap, Table.mem_values_iff, Holds]
      constructor
      · rintro ⟨route, ⟨key, hit⟩, rule, held⟩
        exact ⟨key, rule, route, hit, held⟩
      · rintro ⟨key, rule, route, hit, held⟩
        exact ⟨route, ⟨key, hit⟩, rule, held⟩
    refine ⟨before.keys, ?_, ?_, ?_, ?_, ?_, ?_⟩
    · intro key absent
      cases hit : before.get? key with
      | none => rfl
      | some route => exact absurd (Table.mem_keys_iff.2 ⟨route, hit⟩) absent
    · exact fun key rule id held => absurd held (none key rule id)
    · exact fun key rule id held => .inr ((stops id).2 ⟨key, rule, held⟩)
    · intro id stop
      obtain ⟨key, rule, route, hit, held⟩ := (stops id).1 stop
      exact ⟨⟨key, Table.mem_keys_iff.2 ⟨route, hit⟩, rule, route, hit, held⟩,
        fun key rule => none key rule id⟩
    · exact fun id start => by cases start
    · exact fun route mem => by cases mem

end Routes

end TunnelIngress
