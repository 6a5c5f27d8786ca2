import TunnelIngress.Proofs.Tunnel.RoutePlaces
import TunnelIngress.Proofs.Tunnel.RouterSession

/-!
# A change from its beginning to its end

The routes are as a change left them when it began, unless it has more of them to remove, and no link
ever gets another tunnel.
-/

namespace TunnelIngress

namespace RouterSession

variable {session later waiting router : RouterSession}

/-- A change that has no routes to remove leaves the routes in place. -/
theorem goes_routes (goes : Goes session later)
    (last : ∀ pending, session.pending = some pending → pending.later = []) :
    later.routes = session.routes ∧ ∀ pending, later.pending = some pending → pending.later = [] := by
  cases goes with
  | build spec => exact ⟨rfl, last⟩
  | act id link later found acts => exact ⟨rfl, last⟩
  | stop id pending next =>
    have none : pending.later = [] := by simpa using last _ next
    refine ⟨rfl, fun other same => ?_⟩
    cases same
    exact none
  | stopped id index pending before after next ended =>
    have none : pending.later = [] := by simpa using last _ next
    refine ⟨rfl, fun other same => ?_⟩
    cases same
    exact none
  | start id start removals next =>
    have none : removals = [] := by simpa using last _ next
    refine ⟨rfl, fun other same => ?_⟩
    cases same
    exact none
  | remove key removals next => simpa using last _ next
  | finish next => exact ⟨rfl, by simp⟩

theorem carries_routes (carries : Carries session later)
    (last : ∀ pending, session.pending = some pending → pending.later = []) :
    later.routes = session.routes ∧ ∀ pending, later.pending = some pending → pending.later = [] := by
  induction carries with
  | refl => exact ⟨rfl, last⟩
  | tail _ goes ih =>
    obtain ⟨same, last⟩ := ih
    obtain ⟨same', last⟩ := goes_routes goes last
    exact ⟨same'.trans same, last⟩

/-- Once it has begun, a change brings no route where there is none. -/
theorem goes_absent (goes : Goes session later) {key : ResourceKey}
    (absent : session.routes.get? key = none) : later.routes.get? key = none := by
  cases goes with
  | remove removed removals next =>
    refine (Routes.get?_removeRoute session.routes removed key).trans ?_
    split
    · rfl
    · exact absent
  | _ => exact absent

theorem goes_spec (goes : Goes session later) {id : LinkId} {spec : LinkSpec}
    (was : session.fleet.spec? id = some spec) : later.fleet.spec? id = some spec := by
  cases goes with
  | build other => exact (session.fleet.fades_add other).spec id spec was
  | act other link later found acts => exact (Fleet.fades_put found acts.fades).spec id spec was
  | stop other pending next => exact (session.fleet.beginStop_spec other).2.spec id spec was
  | stopped other index pending before after next ended =>
    exact (session.fleet.fades_endStop other).spec id spec was
  | start other start removals next => exact session.fleet.start_spec? other was
  | remove key removals next => exact was
  | finish next => exact was

theorem carries_spec (carries : Carries session later) {id : LinkId} {spec : LinkSpec}
    (was : session.fleet.spec? id = some spec) : later.fleet.spec? id = some spec := by
  induction carries with
  | refl => exact was
  | tail _ goes ih => exact goes_spec goes ih

theorem goes_idle (goes : Goes session later) (idle : session.pending = none) :
    later.pending = none := by
  cases goes with
  | build spec => exact idle
  | act id link later found acts => exact idle
  | stop id pending next => cases idle.symm.trans next
  | stopped id index pending before after next ended => cases idle.symm.trans next
  | start id start removals next => cases idle.symm.trans next
  | remove key removals next => cases idle.symm.trans next
  | finish next => rfl

theorem carries_idle (carries : Carries session later) (idle : session.pending = none) :
    later.pending = none ∧ later.routes = session.routes := by
  refine ⟨?_, (carries_routes carries fun pending next => nomatch idle.symm.trans next).1⟩
  induction carries with
  | refl => exact idle
  | tail _ goes ih => exact goes_idle goes ih

/-- A change that waited to begin, and that removes no routes in the end, comes to the routes that it
planned. -/
theorem carried {mutation : Mutation} (idle : session.pending = none) (waits : Carries session waiting)
    (carries : Carries (waiting.begin mutation) router)
    (last : (mutation.plan waiting.fleet session.routes).later = []) :
    router.routes = (mutation.plan waiting.fleet session.routes).routes ∧
    (∀ id spec, session.fleet.spec? id = some spec → waiting.fleet.spec? id = some spec) ∧
    ∀ id spec, waiting.fleet.spec? id = some spec → router.fleet.spec? id = some spec := by
  have same := (carries_idle waits idle).2
  refine ⟨?_, fun _ _ was => carries_spec waits was, fun _ _ was => carries_spec carries was⟩
  have planned : ∀ pending, (waiting.begin mutation).pending = some pending → pending.later = [] := by
    intro pending next
    cases next
    rw [same]
    exact last
  rw [(carries_routes carries planned).1, ← same]
  rfl

end RouterSession

end TunnelIngress
