import TunnelIngress.Proofs.Control.DraftLinks
import TunnelIngress.Proofs.Tunnel.SlotHistories

/-!
# The slots that a change leaves filled

A change empties the slots of all links that it stops before it starts any link. So whatever it stops and
starts, even where the two overlap, its end says of each slot whether it is filled.
-/

namespace TunnelIngress

namespace RouterSession

/-- A link has a supervisor in its slot. -/
def Staffed (session : RouterSession) (id : LinkId) : Prop :=
  ∃ index, session.fleet.slot? id = some index

/-- A link has a supervisor that has not ended. -/
def Live (session : RouterSession) (id : LinkId) : Prop :=
  ∃ index, session.fleet.alive id index = true

/-- If there is a supervisor in the slot of a link, it has not ended. -/
def Steady (session : RouterSession) (id : LinkId) : Prop :=
  ∀ index, session.fleet.slot? id = some index → session.fleet.alive id index = true

variable {session later : RouterSession} {id other : LinkId}

theorem Live.staffed (live : session.Live id) (tended : session.Tended) (idle : session.pending = none) :
    session.Staffed id := by
  obtain ⟨index, alive⟩ := live
  exact ⟨index, (tended id index alive).resolve_right (by simp [RouterSession.waits, idle])⟩

theorem live_iff (tended : session.Tended) (idle : session.pending = none) (steady : session.Steady id) :
    session.Live id ↔ session.Staffed id :=
  ⟨fun live => live.staffed tended idle, fun ⟨index, slot⟩ => ⟨index, steady index slot⟩⟩

theorem staffed_fades {fleet : Fleet} (fades : session.fleet.Fades fleet) {pending : Option PendingChange} :
    Staffed { session with fleet, pending } id ↔ session.Staffed id := by
  unfold Staffed
  rw [fades.slot]

theorem staffed_beginStop {pending : Option PendingChange} :
    Staffed { session with fleet := (session.fleet.beginStop other).1, pending } id ↔
      id ≠ other ∧ session.Staffed id := by
  unfold Staffed
  rw [show Fleet.slot? _ id = _ from (session.fleet.beginStop_spec other).2.slot id]
  by_cases here : id = other <;> simp [here]

theorem staffed_start (known : other < session.fleet.links.length) {pending : Option PendingChange} :
    Staffed { session with fleet := (session.fleet.start other).1, pending } id ↔
      id = other ∨ session.Staffed id := by
  unfold Staffed
  rcases Fleet.start_cases known with ⟨runs, fades⟩ | ⟨_, started⟩
  · rw [show Fleet.slot? _ id = _ from fades.slot id]
    obtain ⟨index, slot, _⟩ := Fleet.isStarted_iff.1 runs
    constructor
    · exact .inr
    · rintro (rfl | staffed)
      · exact ⟨index, slot⟩
      · exact staffed
  · rw [show Fleet.slot? _ id = _ from started.slot id]
    by_cases here : id = other <;> simp [here]

/-- How far a change has come: the links that it has asked to stop and those that it has started, and the
slots that these have emptied and filled. -/
structure Advanced (before session : RouterSession) (changes : Changeover) (asked begun : List LinkId) :
    Prop where
  stops : changes.stop = asked ++ session.stops
  starts : changes.start = begun ++ session.starts
  ordered : begun ≠ [] → session.stops = []
  grown : before.fleet.links.length ≤ session.fleet.links.length
  staffed : ∀ id, session.Staffed id ↔ id ∈ begun ∨ before.Staffed id ∧ id ∉ asked
  tended : session.Tended

variable {before : RouterSession} {changes : Changeover} {asked begun : List LinkId}

theorem advanced_begin {mutation : Mutation} (tended : session.Tended) (idle : session.pending = none) :
    Advanced session (session.begin mutation) (mutation.plan session.fleet session.routes).changes [] []
    where
  stops := rfl
  starts := rfl
  ordered none := absurd rfl none
  grown := Nat.le_refl _
  staffed id := by simp [Staffed, RouterSession.begin]
  tended id index alive :=
    .inl ((tended id index alive).resolve_right (by simp [RouterSession.waits, idle]))

theorem Advanced.goes (advanced : Advanced before session changes asked begun)
    (known : ∀ id ∈ changes.start, id < before.fleet.links.length)
    (last : ∀ pending, session.pending = some pending → pending.later = []) (goes : Goes session later) :
    ∃ asked begun, Advanced before later changes asked begun := by
  have grown := Nat.le_trans advanced.grown (goes_handed goes).2
  obtain ⟨stops, starts, ordered, large, staffed, tended⟩ := advanced
  cases goes with
  | build spec =>
    have fades := session.fleet.fades_add spec
    exact ⟨asked, begun, stops, starts, ordered, grown, fun id => (staffed_fades fades).trans (staffed id),
      tended.fades fades⟩
  | act other link later found acts =>
    have fades := Fleet.fades_put found acts.fades
    exact ⟨asked, begun, stops, starts, ordered, grown, fun id => (staffed_fades fades).trans (staffed id),
      tended.fades fades⟩
  | stop other pending next =>
    have left : session.stops = other :: pending.stop := by simp [RouterSession.stops, next]
    have due : session.starts = pending.start := by simp [RouterSession.starts, next]
    have none : begun = [] := by
      by_contra some
      cases left.symm.trans (ordered some)
    subst none
    refine ⟨asked ++ [other], [], ?_, ?_, fun some => absurd rfl some, grown, fun id => ?_,
      tended.stop next⟩
    · rw [stops, left, List.append_cons]
      rfl
    · rw [starts, due]
      rfl
    · rw [staffed_beginStop, staffed]
      simp only [List.not_mem_nil, false_or, List.mem_append, List.mem_singleton]
      tauto
  | stopped other index pending before after next ended =>
    refine ⟨asked, begun, stops.trans ?_, starts.trans ?_, fun some => ?_, grown, fun id => ?_,
      tended.stopped next ended⟩
    · simp [RouterSession.stops, next]
    · simp [RouterSession.starts, next]
    · simpa [RouterSession.stops, next] using ordered some
    · exact (staffed_fades (session.fleet.fades_endStop other)).trans (staffed id)
  | start other start removals next =>
    have left : session.stops = [] := by simp [RouterSession.stops, next]
    have due : session.starts = other :: start := by simp [RouterSession.starts, next]
    have here : other < session.fleet.links.length :=
      Nat.lt_of_lt_of_le (known other (by simp [starts, due])) large
    refine ⟨asked, begun ++ [other], ?_, ?_, fun _ => rfl, grown, fun id => ?_,
      tended.start here (by simp [RouterSession.waits, next])⟩
    · rw [stops, left]
      rfl
    · rw [starts, due, List.append_cons]
      rfl
    · rw [staffed_start here, staffed]
      simp only [List.mem_append, List.mem_singleton]
      tauto
  | remove key removals next => cases last _ next
  | finish next =>
    refine ⟨asked, begun, stops.trans ?_, starts.trans ?_, fun _ => rfl, grown, staffed,
      fun id index alive => ?_⟩
    · simp [RouterSession.stops, next]
    · simp [RouterSession.starts, next]
    · exact .inl ((tended id index alive).resolve_right (by simp [RouterSession.waits, next]))

theorem Advanced.carries (advanced : Advanced before session changes asked begun)
    (known : ∀ id ∈ changes.start, id < before.fleet.links.length)
    (last : ∀ pending, session.pending = some pending → pending.later = [])
    (carries : Carries session later) :
    ∃ asked begun, Advanced before later changes asked begun := by
  induction carries with
  | refl => exact ⟨asked, begun, advanced⟩
  | tail before goes ih =>
    obtain ⟨asked, begun, advanced⟩ := ih
    exact advanced.goes known (carries_routes before last).2 goes

/-- When a change is complete, a slot is filled if its link was to be started, or if it was filled before
and the link was not to be stopped. -/
theorem staffed_complete {mutation : Mutation} (tended : session.Tended) (idle : session.pending = none)
    (known : ∀ id ∈ (mutation.plan session.fleet session.routes).changes.start,
      id < session.fleet.links.length)
    (last : (mutation.plan session.fleet session.routes).later = [])
    (carries : Carries (session.begin mutation) later) (complete : later.pending = none) :
    later.Tended ∧ ∀ id, later.Staffed id ↔
      id ∈ (mutation.plan session.fleet session.routes).changes.start ∨
        session.Staffed id ∧ id ∉ (mutation.plan session.fleet session.routes).changes.stop := by
  have last (pending : PendingChange) (next : (session.begin mutation).pending = some pending) :
      pending.later = [] := by
    cases next
    exact last
  obtain ⟨asked, begun, advanced⟩ := (advanced_begin tended idle).carries known last carries
  refine ⟨advanced.tended, fun id => ?_⟩
  rw [advanced.staffed, advanced.starts, advanced.stops]
  simp [RouterSession.starts, RouterSession.stops, complete]

end RouterSession

end TunnelIngress
