import TunnelIngress.Proofs.Tunnel.RouterSession

/-!
# Changes come to an end

A supervisor that is waited for can always come to its end: its daemon is launched, if it is not in
flight, and exits. So a change can be carried on until it is complete, whatever it stops, starts and
removes.
-/

namespace TunnelIngress

namespace Link

variable {link : Link}

theorem supervisor?_setPhase (link : Link) (index : Nat) (phase : SupervisorPhase) :
    (link.setPhase index phase).supervisor? index =
      (link.supervisor? index).map ({ · with phase }) := by
  simp [setPhase, supervisor?]

theorem alive_supervisorEnded (link : Link) (index : Nat) :
    (link.supervisorEnded index).alive index = false := by
  have ended : (link.supervisorEnded index).supervisor? index = _ :=
    link.supervisor?_setPhase index .ended
  rw [Link.alive, ended]
  cases link.supervisor? index <;> rfl

theorem daemonEnded_exited (link : Link) (index : Nat) :
    (link.daemonEnded index .exited none).1 = link.supervisorEnded index := by
  unfold daemonEnded
  split <;> rfl

theorem acts_exited {index : Nat} {supervisor : Supervisor}
    (found : link.supervisor? index = some supervisor) (runs : supervisor.phase = .daemon) :
    link.Acts (link.supervisorEnded index) := by
  rw [← link.daemonEnded_exited index]
  exact .ended index supervisor .exited none found runs

theorem can_end (link : Link) (index : Nat) :
    ∃ later, Relation.ReflTransGen Acts link later ∧ later.alive index = false := by
  cases found : link.supervisor? index with
  | none => exact ⟨link, .refl, by simp [Link.alive, found]⟩
  | some supervisor =>
    have launch (waits : supervisor.phase = .spawned ∨ supervisor.phase = .delay) :
        ∃ later, Relation.ReflTransGen Acts link later ∧ later.alive index = false := by
      have runs : (link.launched index).supervisor? index = some { supervisor with phase := .daemon } := by
        refine (link.supervisor?_setPhase index .daemon).trans ?_
        rw [found]
        rfl
      refine ⟨_, .tail (.single (.launch index supervisor found waits)) (acts_exited runs rfl), ?_⟩
      exact alive_supervisorEnded _ index
    cases phase : supervisor.phase with
    | spawned => exact launch (.inl phase)
    | delay => exact launch (.inr phase)
    | daemon => exact ⟨_, .single (acts_exited found phase), link.alive_supervisorEnded index⟩
    | ended => exact ⟨link, .refl, by simp [Link.alive, found, Supervisor.alive, phase]⟩

end Link

namespace RouterSession

variable {session : RouterSession}

theorem acts_carries {id : LinkId} {link later : Link} (found : session.fleet.get? id = some link)
    (acts : Relation.ReflTransGen Link.Acts link later) :
    ∃ fleet, Carries session { session with fleet } ∧ fleet.get? id = some later := by
  induction acts with
  | refl => exact ⟨session.fleet, .refl, found⟩
  | @tail middle later _ acts ih =>
    obtain ⟨fleet, carries, found⟩ := ih
    refine ⟨fleet.modify id fun _ => later, carries.tail (.act _ id middle later found acts), ?_⟩
    rw [Fleet.get?_put found, if_pos rfl]

theorem can_end (session : RouterSession) (id : LinkId) (index : Nat) :
    ∃ fleet, Carries session { session with fleet } ∧ fleet.alive id index = false := by
  cases found : session.fleet.get? id with
  | none => exact ⟨session.fleet, .refl, by simp [Fleet.alive, found]⟩
  | some link =>
    obtain ⟨later, acts, ended⟩ := link.can_end index
    obtain ⟨fleet, carries, found⟩ := acts_carries found acts
    exact ⟨fleet, carries, by simp [Fleet.alive, found, ended]⟩

/-- The links that are to be stopped are asked to, and then their supervisors end one by one. -/
theorem can_stop {stop start : List LinkId} {stopping : List (LinkId × Nat)} {later : List ResourceKey}
    (next : session.pending = some ⟨stop, stopping, start, later⟩) :
    ∃ after, Carries session after ∧ after.pending = some ⟨[], [], start, later⟩ := by
  induction stop generalizing session stopping with
  | nil =>
    induction stopping generalizing session with
    | nil => exact ⟨session, .refl, next⟩
    | cons first rest ih =>
      obtain ⟨id, index⟩ := first
      obtain ⟨fleet, carries, ended⟩ := session.can_end id index
      let stopped : RouterSession := { session with
        fleet := (fleet.endStop id).1
        pending := some ⟨[], rest, start, later⟩ }
      obtain ⟨after, more, done⟩ := ih (show stopped.pending = _ from rfl)
      refine ⟨after, carries.trans (.head ?_ more), done⟩
      exact .stopped _ id index ⟨[], [], start, later⟩ [] rest next ended
  | cons id rest ih =>
    let asked : RouterSession := { session with
      fleet := (session.fleet.beginStop id).1
      pending := some ⟨rest, stopping ++ ((session.fleet.beginStop id).2.map (id, ·)).toList, start,
        later⟩ }
    obtain ⟨after, more, done⟩ := ih (show asked.pending = _ from rfl)
    exact ⟨after, .head (.stop session id ⟨rest, stopping, start, later⟩ next) more, done⟩

theorem can_start {start : List LinkId} {later : List ResourceKey}
    (next : session.pending = some ⟨[], [], start, later⟩) :
    ∃ after, Carries session after ∧ after.pending = some ⟨[], [], [], later⟩ := by
  induction start generalizing session with
  | nil => exact ⟨session, .refl, next⟩
  | cons id rest ih =>
    let started : RouterSession := { session with
      fleet := (session.fleet.start id).1
      pending := some ⟨[], [], rest, later⟩ }
    obtain ⟨after, more, done⟩ := ih (show started.pending = _ from rfl)
    exact ⟨after, .head (.start session id rest later next) more, done⟩

theorem can_remove {later : List ResourceKey} (next : session.pending = some ⟨[], [], [], later⟩) :
    ∃ after, Carries session after ∧ after.pending = none := by
  induction later generalizing session with
  | nil => exact ⟨_, .single (.finish session next), rfl⟩
  | cons key rest ih =>
    let removed : RouterSession := { session with
      routes := (Routes.removeRoute session.routes key).1
      pending := some ⟨(Routes.removeRoute session.routes key).2.stop, [], [], rest⟩ }
    obtain ⟨stopped, carries, next'⟩ := can_stop (show removed.pending = _ from rfl)
    obtain ⟨after, more, done⟩ := ih next'
    exact ⟨after, .head (.remove session key rest next) (carries.trans more), done⟩

/-- **A change can always be completed.** -/
theorem can_complete (session : RouterSession) :
    ∃ after, Carries session after ∧ after.pending = none := by
  cases next : session.pending with
  | none => exact ⟨session, .refl, next⟩
  | some pending =>
    obtain ⟨stopped, carries, next⟩ := can_stop next
    obtain ⟨started, more, next⟩ := can_start next
    obtain ⟨after, rest, done⟩ := can_remove next
    exact ⟨after, (carries.trans more).trans rest, done⟩

end RouterSession

end TunnelIngress
