import TunnelIngress.Proofs.Tunnel.ChangeRuns

/-!
# What became of a supervisor

Supervisors end and new ones come, but none comes back. So the one that is found in a slot after a change
has run since the change began, if the change found its link running or was to start it.
-/

namespace TunnelIngress

namespace Fleet

variable {fleet middle later : Fleet} {id other : LinkId} {index : Nat}

/-- A supervisor that ran in a fleet, or that was started later. -/
def Runs (fleet : Fleet) (id : LinkId) (index : Nat) : Prop :=
  fleet.alive id index = true ∨ fleet.starts id ≤ index

/-- Supervisors have ended, and those that run besides were started later. -/
structure Follows (fleet later : Fleet) : Prop where
  starts : ∀ id, fleet.starts id ≤ later.starts id
  alive : ∀ id index, later.alive id index = true → fleet.Runs id index

theorem Follows.refl (fleet : Fleet) : fleet.Follows fleet :=
  ⟨fun _ => Nat.le_refl _, fun _ _ alive => .inl alive⟩

theorem Follows.runs (follows : fleet.Follows later) (runs : later.Runs id index) : fleet.Runs id index :=
  runs.elim (follows.alive id index) fun new => .inr (Nat.le_trans (follows.starts id) new)

theorem Follows.trans (first : fleet.Follows middle) (second : middle.Follows later) :
    fleet.Follows later :=
  ⟨fun id => Nat.le_trans (first.starts id) (second.starts id),
    fun id index alive => first.runs (second.alive id index alive)⟩

theorem Fades.follows (fades : fleet.Fades later) : fleet.Follows later :=
  ⟨fun id => Nat.le_of_eq (fades.starts id).symm, fun id index alive => .inl (fades.alive id index alive)⟩

theorem follows_beginStop (fleet : Fleet) (id : LinkId) : fleet.Follows (fleet.beginStop id).1 :=
  have emptied := (fleet.beginStop_spec id).2
  ⟨fun other => Nat.le_of_eq (emptied.starts other).symm,
    fun other index alive => .inl (emptied.alive other index alive)⟩

theorem start_unknown (unknown : ¬id < fleet.links.length) : (fleet.start id).1 = fleet := by
  have none : fleet.get? id = none := List.getElem?_eq_none (Nat.le_of_not_lt unknown)
  simp [start, none]

theorem follows_start (fleet : Fleet) (id : LinkId) : fleet.Follows (fleet.start id).1 := by
  by_cases known : id < fleet.links.length
  · rcases start_cases known with ⟨_, fades⟩ | ⟨_, started⟩
    · exact fades.follows
    · refine ⟨fun other => ?_, fun other index alive => ?_⟩
      · rw [started.starts]
        split
        · rename_i here
          exact here ▸ Nat.le_succ _
        · exact Nat.le_refl _
      · rcases started.alive other index alive with was | ⟨rfl, rfl⟩
        · exact .inl was
        · exact .inr (Nat.le_refl _)
  · rw [start_unknown known]
    exact .refl fleet

/-- A start changes the slot of its link alone, where a supervisor runs then. -/
theorem slot?_start (hit : (fleet.start id).1.slot? other = some index) :
    fleet.slot? other = some index ∧ other ≠ id ∨ fleet.Runs other index := by
  by_cases known : id < fleet.links.length
  · rcases start_cases known with ⟨runs, fades⟩ | ⟨_, started⟩
    · rw [fades.slot] at hit
      by_cases here : other = id
      · obtain ⟨found, slot, alive⟩ := isStarted_iff.1 runs
        subst here
        cases slot.symm.trans hit
        exact .inr (.inl alive)
      · exact .inl ⟨hit, here⟩
    · rw [started.slot] at hit
      split at hit
      · rename_i here
        cases hit
        exact .inr (.inr (here ▸ Nat.le_refl _))
      · exact .inl ⟨hit, ‹_›⟩
  · rw [start_unknown known] at hit
    refine .inl ⟨hit, ?_⟩
    rintro rfl
    have none : fleet.get? other = none := List.getElem?_eq_none (Nat.le_of_not_lt known)
    simp [slot?, none] at hit

end Fleet

namespace RouterSession

variable {fleet : Fleet} {session later : RouterSession} {id : LinkId}

/-- If there is a supervisor in the slot of a link, it ran in some fleet or was started later. -/
def Recent (fleet : Fleet) (session : RouterSession) (id : LinkId) : Prop :=
  ∀ index, session.fleet.slot? id = some index → fleet.Runs id index

theorem recent_of_started (started : session.fleet.isStarted id = true) :
    Recent session.fleet session id := by
  obtain ⟨found, slot, alive⟩ := Fleet.isStarted_iff.1 started
  intro index hit
  cases slot.symm.trans hit
  exact .inl alive

theorem goes_follows (goes : Goes session later) : session.fleet.Follows later.fleet := by
  cases goes with
  | build spec => exact (session.fleet.fades_add spec).follows
  | act id link later found acts => exact (Fleet.fades_put found acts.fades).follows
  | stop id pending next => exact session.fleet.follows_beginStop id
  | stopped id index pending before after next ended => exact (session.fleet.fades_endStop id).follows
  | start id start removals next => exact session.fleet.follows_start id
  | remove key removals next => exact .refl _
  | finish next => exact .refl _

/-- A link that is to be started has a recent supervisor in its slot once it was started. -/
theorem Recent.goes (follows : fleet.Follows session.fleet)
    (recent : id ∈ session.starts ∨ Recent fleet session id)
    (goes : Goes session later) : id ∈ later.starts ∨ Recent fleet later id := by
  have fades {now : Fleet} {pending : Option PendingChange} (fades : session.fleet.Fades now)
      (same : RouterSession.starts { session with fleet := now, pending } = session.starts) :
      id ∈ RouterSession.starts { session with fleet := now, pending } ∨
        Recent fleet { session with fleet := now, pending } id := by
    rw [same]
    exact recent.imp_right fun recent index hit => recent index (fades.slot id ▸ hit)
  cases goes with
  | build spec => exact fades (session.fleet.fades_add spec) rfl
  | act other link later found acts => exact fades (Fleet.fades_put found acts.fades) rfl
  | stop other pending next =>
    have starts : session.starts = pending.start := by simp [RouterSession.starts, next]
    rw [starts] at recent
    refine recent.imp_right fun recent index hit => ?_
    have hit := ((session.fleet.beginStop_spec other).2.slot id).symm.trans hit
    split at hit
    · cases hit
    · exact recent index hit
  | stopped other index pending before after next ended =>
    exact fades (session.fleet.fades_endStop other) (by simp [RouterSession.starts, next])
  | start other start removals next =>
    have starts : session.starts = other :: start := by simp [RouterSession.starts, next]
    rw [starts] at recent
    by_cases waits : id ∈ start
    · exact .inl waits
    · refine .inr fun index hit => ?_
      rcases Fleet.slot?_start hit with ⟨was, ne⟩ | runs
      · have here : id ∉ other :: start := fun mem => (List.mem_cons.1 mem).elim ne waits
        exact recent.resolve_left here index was
      · exact follows.runs runs
  | remove key removals next =>
    exact .inr fun index hit => recent.resolve_left (by simp [RouterSession.starts, next]) index hit
  | finish next =>
    exact .inr fun index hit => recent.resolve_left (by simp [RouterSession.starts, next]) index hit

theorem carries_follows (carries : Carries session later) : session.fleet.Follows later.fleet := by
  induction carries with
  | refl => exact .refl _
  | tail _ goes ih => exact ih.trans (goes_follows goes)

theorem Recent.carries (follows : fleet.Follows session.fleet)
    (recent : id ∈ session.starts ∨ Recent fleet session id) (carries : Carries session later) :
    id ∈ later.starts ∨ Recent fleet later id := by
  induction carries with
  | refl => exact recent
  | tail before goes ih => exact Recent.goes (follows.trans (carries_follows before)) ih goes

/-- A change that stops nothing leaves the slot and the supervisors of a link that it does not start. -/
theorem goes_undisturbed (goes : Goes session later) (stops : session.stops = [])
    (last : ∀ pending, session.pending = some pending → pending.later = [])
    (unstarted : id ∉ session.starts) :
    later.fleet.slot? id = session.fleet.slot? id ∧ later.fleet.starts id = session.fleet.starts id ∧
      later.stops = [] ∧ id ∉ later.starts := by
  cases goes with
  | build spec =>
    have fades := session.fleet.fades_add spec
    exact ⟨fades.slot id, fades.starts id, stops, unstarted⟩
  | act other link later found acts =>
    have fades := Fleet.fades_put found acts.fades
    exact ⟨fades.slot id, fades.starts id, stops, unstarted⟩
  | stop other pending next => simp [RouterSession.stops, next] at stops
  | stopped other index pending before after next ended =>
    have fades := session.fleet.fades_endStop other
    exact ⟨fades.slot id, fades.starts id, by simpa [RouterSession.stops, next] using stops,
      by simpa [RouterSession.starts, next] using unstarted⟩
  | start other start removals next =>
    have starts : session.starts = other :: start := by simp [RouterSession.starts, next]
    rw [starts, List.mem_cons, not_or] at unstarted
    suffices same : (session.fleet.start other).1.slot? id = session.fleet.slot? id ∧
        (session.fleet.start other).1.starts id = session.fleet.starts id from
      ⟨same.1, same.2, rfl, unstarted.2⟩
    by_cases known : other < session.fleet.links.length
    · rcases Fleet.start_cases known with ⟨_, fades⟩ | ⟨_, started⟩
      · exact ⟨fades.slot id, fades.starts id⟩
      · exact ⟨(started.slot id).trans (if_neg unstarted.1), (started.starts id).trans (if_neg unstarted.1)⟩
    · rw [Fleet.start_unknown known]
      exact ⟨rfl, rfl⟩
  | remove key removals next => cases last _ next
  | finish next => exact ⟨rfl, rfl, rfl, by simp [RouterSession.starts]⟩

theorem carries_undisturbed (carries : Carries session later) (stops : session.stops = [])
    (last : ∀ pending, session.pending = some pending → pending.later = [])
    (unstarted : id ∉ session.starts) :
    later.fleet.slot? id = session.fleet.slot? id ∧ later.fleet.starts id = session.fleet.starts id := by
  suffices all :
      (later.fleet.slot? id = session.fleet.slot? id ∧ later.fleet.starts id = session.fleet.starts id) ∧
      later.stops = [] ∧ id ∉ later.starts from all.1
  induction carries with
  | refl => exact ⟨⟨rfl, rfl⟩, stops, unstarted⟩
  | tail before goes ih =>
    obtain ⟨⟨slot, starts⟩, stops, unstarted⟩ := ih
    obtain ⟨slot', starts', rest⟩ := goes_undisturbed goes stops (carries_routes before last).2 unstarted
    exact ⟨⟨slot'.trans slot, starts'.trans starts⟩, rest⟩

end RouterSession

end TunnelIngress
