import TunnelIngress.Proofs.Tunnel.LinkLifecycle

/-!
# Starts that overlap stops

A stop takes the supervisor out of the slot before that one has ended. A start that comes while the stop
waits finds the slot empty and puts a second supervisor beside the first. Without such a start there are
never two.
-/

namespace TunnelIngress

namespace LinkSession

variable {session : LinkSession} {events : List LinkEvent} {spec : LinkSpec}

/-- The supervisors that are alive after a start are those that stops still wait for and the new one. -/
theorem Sound.alive_start (sound : session.Sound) (stopped : session.link.isStarted = false)
    (index : Nat) : session.link.start.1.alive index = true ↔
      index = session.link.supervisors.length ∨
        index ∈ session.stopping ∧ session.link.alive index = true := by
  obtain ⟨_, _, supervisors⟩ := Link.start_spec stopped
  rw [Link.alive_iff, supervisors index]
  split
  · rename_i new
    simp [new, Supervisor.alive]
  · rename_i old
    rw [← Link.alive_iff]
    constructor
    · intro alive
      exact .inr ⟨sound.waited stopped alive, alive⟩
    · rintro (new | ⟨_, alive⟩)
      · exact absurd new old
      · exact alive

/-- **When a start doubles a supervisor.** A live supervisor is in the slot or waited for by a stop, so
there is one at most when no stop waits. A start does nothing exactly while a live supervisor is in the
slot; else it puts a new one beside those that stops wait for. As long as no start comes while a stop
waits, there are never two, and no daemon is in flight while the link is stopped. -/
theorem start_beside (runs : Runs Free (new spec) events session) :
    (∀ index, session.link.alive index = true →
      session.link.slot = some index ∨ index ∈ session.stopping) ∧
    (session.stopping = [] → ∀ index other, session.link.alive index = true →
      session.link.alive other = true → index = other) ∧
    (∀ later, session.step? .start = some later →
      (session.link.isStarted = true → later = session) ∧
      (session.link.isStarted = false → ∀ index, later.link.alive index = true ↔
        index = session.link.supervisors.length ∨
          index ∈ session.stopping ∧ session.link.alive index = true)) ∧
    (Runs Apart (new spec) events session →
      (∀ index other, session.link.alive index = true → session.link.alive other = true →
        index = other) ∧
      ∀ index, session.link.phase? index = some .daemon → session.link.state ≠ .stopped) := by
  have sound := (sound_new spec).runs runs
  refine ⟨sound.alive, ?_, ?_, ?_⟩
  · intro calm index other alive alive'
    have here := (sound.alive index alive).resolve_right (by simp [calm])
    exact (sound.alone here calm other alive').symm
  · intro later step
    cases step
    refine ⟨fun started => ?_, sound.alive_start⟩
    rw [Link.start_of_started started]
  · intro apart
    have lone := (lone_new spec).runs apart
    refine ⟨fun index other => lone.unique, fun index serves state => ?_⟩
    have alive := alive_of_phase? serves (by simp)
    cases (lone.quiet_of_stopped state index).symm.trans alive

/-- The link is stopped and started again before its first daemon has ended: two are in flight, and when
the first one ends the link counts as stopped. -/
theorem overlapping_start_doubles : ∃ doubled later,
    Runs Free (new RouterSession.siteSpec)
      [.start, .act 0 .launch, .stop, .start, .act 1 .launch] doubled ∧
    doubled.link.phase? 0 = some .daemon ∧ doubled.link.phase? 1 = some .daemon ∧
    doubled.step? (.act 0 (.ended .exited none)) = some later ∧
    later.link.state = .stopped ∧ later.link.phase? 1 = some .daemon := by
  have doubled := (Runs.nil : Runs Free (new RouterSession.siteSpec) [] _)
    |>.snoc .start trivial rfl
    |>.snoc (.act 0 .launch) trivial rfl
    |>.snoc .stop trivial rfl
    |>.snoc .start trivial rfl
    |>.snoc (.act 1 .launch) trivial rfl
  exact ⟨_, _, doubled, rfl, rfl, rfl, rfl, rfl⟩

/-- One stop waits, and the start beside it is the only thing that makes two. -/
theorem start_beside_waiting : ∃ session later,
    Runs Free (new RouterSession.siteSpec) [.start, .act 0 .launch, .stop] session ∧
    session.step? .start = some later ∧
    ∀ index, later.link.alive index = true ↔
      index = 1 ∨ index ∈ session.stopping ∧ session.link.alive index = true := by
  have stopping := (Runs.nil : Runs Free (new RouterSession.siteSpec) [] _)
    |>.snoc .start trivial rfl
    |>.snoc (.act 0 .launch) trivial rfl
    |>.snoc .stop trivial rfl
  exact ⟨_, _, stopping, rfl, ((start_beside stopping).2.2.1 _ rfl).2 rfl⟩

end LinkSession

end TunnelIngress
