import TunnelIngress.Tunnel.Network

/-!
# Replacing the links of a route

For each rule of the new route, the link that serves it and what has to happen to the old and the new
link.
-/

namespace TunnelIngress

namespace Changeover

variable {fleet : Fleet} {old : Table Rule LinkId} {new : Route} {rule : Rule} {id : LinkId}

theorem append_def (a b : Changeover) : a ++ b = ⟨a.stop ++ b.stop, a.start ++ b.start⟩ :=
  rfl

@[simp]
theorem append_stop (a b : Changeover) : (a ++ b).stop = a.stop ++ b.stop :=
  rfl

@[simp]
theorem append_start (a b : Changeover) : (a ++ b).start = a.start ++ b.start :=
  rfl

/-- A rule that had no link gets the new one, an equal old link stays, and any other makes way. -/
theorem settle_cases (fleet : Fleet) (old : Option LinkId) (new : LinkId) :
    old = .none ∧ settle fleet old new = (new, ⟨[], [new]⟩) ∨
    (∃ kept, old = some kept ∧ fleet.same kept new = true ∧
      settle fleet old new = (kept, ⟨[], if fleet.isStarted kept then [] else [kept]⟩)) ∨
    ∃ gone, old = some gone ∧ settle fleet old new = (new, ⟨[gone], [new]⟩) := by
  cases old with
  | none => exact .inl ⟨rfl, rfl⟩
  | some link =>
    by_cases same : fleet.same link new = true
    · exact .inr (.inl ⟨link, rfl, same, by simp [settle, same]⟩)
    · exact .inr (.inr ⟨link, rfl, by simp [settle, same]⟩)

def settleAll (fleet : Fleet) (old : Table Rule LinkId) (done : Table Rule LinkId × Changeover)
    (entries : List (Rule × LinkId)) : Table Rule LinkId × Changeover :=
  entries.foldl
    (fun (done : Table Rule LinkId × Changeover) entry =>
      let (id, changes) := settle fleet (old.get? entry.1) entry.2
      (done.1.insert entry.1 id, done.2 ++ changes))
    done

theorem settleAll_other {entries : List (Rule × LinkId)} (absent : rule ∉ entries.map (·.1))
    (done : Table Rule LinkId × Changeover) :
    (settleAll fleet old done entries).1.get? rule = done.1.get? rule := by
  induction entries generalizing done with
  | nil => rfl
  | cons entry rest ih =>
    rw [List.map_cons, List.mem_cons, not_or] at absent
    refine (ih absent.2 _).trans ?_
    rw [Table.get?_insert, if_neg absent.1]

theorem settleAll_entry {entries : List (Rule × LinkId)} (nodup : (entries.map (·.1)).Nodup)
    (mem : (rule, id) ∈ entries) (done : Table Rule LinkId × Changeover) :
    (settleAll fleet old done entries).1.get? rule = some (settle fleet (old.get? rule) id).1 := by
  induction entries generalizing done with
  | nil => cases mem
  | cons entry rest ih =>
    rw [List.map_cons, List.nodup_cons] at nodup
    rcases List.mem_cons.1 mem with rfl | mem
    · refine (settleAll_other nodup.1 _).trans ?_
      rw [Table.get?_insert, if_pos rfl]
    · exact ih nodup.2 mem _

theorem settleAll_changes (entries : List (Rule × LinkId)) (done : Table Rule LinkId × Changeover) :
    (settleAll fleet old done entries).2 = done.2 ++
      ⟨entries.flatMap fun entry => (settle fleet (old.get? entry.1) entry.2).2.stop,
        entries.flatMap fun entry => (settle fleet (old.get? entry.1) entry.2).2.start⟩ := by
  induction entries generalizing done with
  | nil => simp [settleAll, append_def]
  | cons entry rest ih =>
    refine (ih _).trans ?_
    simp [append_def]

theorem replace_eq (fleet : Fleet) (old : Table Rule LinkId) (new : Route) :
    replace fleet old new =
      let (links, changes) := settleAll fleet old (new.links, none) new.links.entries
      ({ new with links },
        changes ++ ⟨(old.filter fun rule _ => !new.links.contains rule).values, []⟩) :=
  rfl

theorem replace_links :
    (replace fleet old new).1.links.get? rule =
      (new.links.get? rule).map fun id => (settle fleet (old.get? rule) id).1 := by
  rw [replace_eq]
  cases hit : new.links.get? rule with
  | none =>
    have absent : rule ∉ new.links.entries.map (·.1) := by
      intro mem
      obtain ⟨id, found⟩ := Table.mem_keys_iff.1 mem
      simp [hit] at found
    exact (settleAll_other absent _).trans hit
  | some id =>
    exact settleAll_entry new.links.nodup (Table.get?_eq_some_iff.1 hit) _

theorem mem_replace_stop :
    id ∈ (replace fleet old new).2.stop ↔
      (∃ rule fresh, new.links.get? rule = some fresh ∧
        id ∈ (settle fleet (old.get? rule) fresh).2.stop) ∨
      ∃ rule, old.get? rule = some id ∧ new.links.get? rule = .none := by
  rw [replace_eq]
  simp only [settleAll_changes, append_stop, none, List.nil_append, List.mem_append,
    List.mem_flatMap, Table.mem_values_iff, Table.get?_filter]
  refine or_congr ?_ (exists_congr fun rule => ?_)
  · constructor
    · rintro ⟨⟨rule, fresh⟩, mem, stop⟩
      exact ⟨rule, fresh, Table.get?_eq_some_iff.2 mem, stop⟩
    · rintro ⟨rule, fresh, hit, stop⟩
      exact ⟨_, Table.get?_eq_some_iff.1 hit, stop⟩
  · simp [Option.filter_eq_some_iff, Table.contains_eq_isSome]

theorem mem_replace_start :
    id ∈ (replace fleet old new).2.start ↔
      ∃ rule fresh, new.links.get? rule = some fresh ∧
        id ∈ (settle fleet (old.get? rule) fresh).2.start := by
  rw [replace_eq]
  simp only [settleAll_changes, append_start, none, List.nil_append, List.append_nil,
    List.mem_flatMap]
  constructor
  · rintro ⟨⟨rule, fresh⟩, mem, start⟩
    exact ⟨rule, fresh, Table.get?_eq_some_iff.2 mem, start⟩
  · rintro ⟨rule, fresh, hit, start⟩
    exact ⟨_, Table.get?_eq_some_iff.1 hit, start⟩

/-- Only the link that then serves the rule is started, and it is unless it runs. -/
theorem settle_start (fleet : Fleet) (old : Option LinkId) (new : LinkId) :
    (∀ id ∈ (settle fleet old new).2.start, id = (settle fleet old new).1) ∧
      ((settle fleet old new).1 ∈ (settle fleet old new).2.start ∨
        fleet.isStarted (settle fleet old new).1 = true) := by
  rcases settle_cases fleet old new with ⟨_, same⟩ | ⟨kept, _, _, same⟩ | ⟨_, _, same⟩
  · simp [same]
  · by_cases started : fleet.isStarted kept = true <;> simp [same, started]
  · simp [same]

end Changeover

end TunnelIngress
