import TunnelIngress.Tunnel.Fleet

/-!
# What happens to supervisors

The supervisors of a link come only by a start and leave the slot only by a stop or by the start of
another. Whatever daemons do on their own, no supervisor comes back to life.
-/

namespace TunnelIngress

namespace Link

/-- What a supervisor and its daemon do on their own: the daemon is launched, connects, and comes to an
end, and a supervisor that waits to launch it again quits if it was asked to. -/
inductive Acts (link : Link) : Link → Prop where
  | launch (index : Nat) (supervisor : Supervisor) (found : link.supervisor? index = some supervisor)
      (waits : supervisor.phase = .spawned ∨ supervisor.phase = .delay) :
      Acts link (link.launched index)
  | connect : Acts link link.connected
  | ended (index : Nat) (supervisor : Supervisor) (outcome : DaemonOutcome) (delay : Option Duration)
      (found : link.supervisor? index = some supervisor) (runs : supervisor.phase = .daemon) :
      Acts link (link.daemonEnded index outcome delay).1
  | quit (index : Nat) (supervisor : Supervisor) (found : link.supervisor? index = some supervisor)
      (waits : supervisor.phase = .delay) (asked : supervisor.quit = true) :
      Acts link (link.supervisorEnded index)

/-- The same supervisors in the same slot, of which some may have ended. -/
structure Fades (link later : Link) : Prop where
  spec : later.spec = link.spec
  slot : later.slot = link.slot
  starts : later.supervisors.length = link.supervisors.length
  alive : ∀ index, later.alive index = true → link.alive index = true

variable {link later : Link}

theorem Fades.refl (link : Link) : link.Fades link :=
  ⟨rfl, rfl, rfl, fun _ alive => alive⟩

theorem fades_setState (fades : link.Fades later) (state : LinkState) :
    link.Fades (later.setState state) :=
  ⟨fades.spec, fades.slot, fades.starts, fades.alive⟩

/-- A supervisor that has not ended may go to any phase. -/
theorem fades_setPhase {index : Nat} (phase : SupervisorPhase) (alive : link.alive index = true) :
    link.Fades (link.setPhase index phase) := by
  refine ⟨rfl, rfl, by simp [setPhase], fun other mem => ?_⟩
  simp only [Link.alive, supervisor?, setPhase, List.getElem?_modify] at mem
  by_cases same : index = other
  · exact same ▸ alive
  · simpa [same, Link.alive, supervisor?] using mem

theorem Acts.fades (acts : link.Acts later) : link.Fades later := by
  have alive {index : Nat} {supervisor : Supervisor} (found : link.supervisor? index = some supervisor)
      (goes_on : supervisor.phase ≠ .ended) : link.alive index = true := by
    simp [Link.alive, found, Supervisor.alive, goes_on]
  cases acts with
  | launch index supervisor found waits =>
    refine fades_setState (fades_setPhase _ (alive found ?_)) _
    rcases waits with waits | waits <;> simp [waits]
  | connect =>
    unfold connected
    split
    · exact fades_setState (.refl link) _
    · exact .refl link
  | ended index supervisor outcome delay found runs =>
    have running := alive found (by simp [runs])
    have ended : link.Fades (link.supervisorEnded index) :=
      fades_setState (fades_setPhase _ running) _
    unfold daemonEnded
    split
    · exact ended
    · cases outcome with
      | exited => exact ended
      | failed =>
        have repairing := fades_setState (.refl link) .repairing
        have next : (link.setState .repairing).Fades ((link.setState .repairing).setPhase index
            (if delay.isSome then .delay else .ended)) := fades_setPhase _ running
        exact ⟨next.spec, next.slot, next.starts, fun index alive =>
          repairing.alive index (next.alive index alive)⟩
  | quit index supervisor found waits asked =>
    exact fades_setState (fades_setPhase _ (alive found (by simp [waits]))) _

theorem start_of_started (started : link.isStarted = true) : link.start.1 = link := by
  simp [start, started]

theorem start_of_stopped (stopped : link.isStarted = false) :
    link.start.1.spec = link.spec ∧ link.start.1.slot = some link.supervisors.length ∧
      link.start.1.supervisors.length = link.supervisors.length + 1 ∧
      ∀ index, link.start.1.alive index = true →
        link.alive index = true ∨ index = link.supervisors.length := by
  unfold start
  rw [if_neg (by simp [stopped])]
  refine ⟨rfl, rfl, by simp, fun index alive => ?_⟩
  by_cases before : index < link.supervisors.length
  · left
    simpa [Link.alive, supervisor?, List.getElem?_append_left before] using alive
  · right
    have inside : index < link.supervisors.length + 1 := by
      apply Nat.lt_of_not_le
      intro beyond
      have none : (link.supervisors ++ [⟨.spawned, false⟩])[index]? = none :=
        List.getElem?_eq_none (by simpa using beyond)
      simp only [Link.alive, supervisor?, none] at alive
      cases alive
    omega

theorem beginStop_spec (link : Link) :
    link.beginStop.2 = link.slot ∧ link.beginStop.1.spec = link.spec ∧
      link.beginStop.1.slot = none ∧
      link.beginStop.1.supervisors.length = link.supervisors.length ∧
      ∀ index, link.beginStop.1.alive index = link.alive index := by
  unfold beginStop
  cases hit : link.slot with
  | none => exact ⟨rfl, rfl, hit, rfl, fun _ => rfl⟩
  | some taken =>
    refine ⟨rfl, rfl, rfl, by simp, fun index => ?_⟩
    simp only [Link.alive, supervisor?, List.getElem?_modify]
    by_cases same : taken = index
    · cases link.supervisors[index]? <;> simp [same, Supervisor.alive]
    · simp [same]

theorem fades_endStop (link : Link) : link.Fades link.endStop.1 :=
  fades_setState (.refl link) _

end Link

namespace Fleet

def slot? (fleet : Fleet) (id : LinkId) : Option Nat :=
  (fleet.get? id).bind (·.slot)

def spec? (fleet : Fleet) (id : LinkId) : Option LinkSpec :=
  (fleet.get? id).map (·.spec)

def starts (fleet : Fleet) (id : LinkId) : Nat :=
  ((fleet.get? id).map (·.supervisors.length)).getD 0

/-- Other links may have come, supervisors may have ended, and all else is as it was. -/
structure Fades (fleet later : Fleet) : Prop where
  size : fleet.links.length ≤ later.links.length
  spec : ∀ id spec, fleet.spec? id = some spec → later.spec? id = some spec
  slot : ∀ id, later.slot? id = fleet.slot? id
  starts : ∀ id, later.starts id = fleet.starts id
  alive : ∀ id index, later.alive id index = true → fleet.alive id index = true

variable {fleet : Fleet} {id other : LinkId}

theorem Fades.refl (fleet : Fleet) : fleet.Fades fleet :=
  ⟨Nat.le_refl _, fun _ _ same => same, fun _ => rfl, fun _ => rfl, fun _ _ alive => alive⟩

theorem get?_modify (change : Link → Link) :
    (fleet.modify id change).get? other =
      if other = id then (fleet.get? id).map change else fleet.get? other := by
  simp only [get?, modify, List.getElem?_modify]
  by_cases same : other = id
  · simp [same]
  · simp [same, Ne.symm same]

theorem size_modify (change : Link → Link) :
    (fleet.modify id change).links.length = fleet.links.length := by
  simp [modify]

/-! ### A link takes the place of another -/

section

variable {link : Link} (found : fleet.get? id = some link) (later : Link)

include found

theorem get?_put : (fleet.modify id fun _ => later).get? other =
    if other = id then some later else fleet.get? other := by
  rw [get?_modify, found]
  rfl

theorem slot?_put : (fleet.modify id fun _ => later).slot? other =
    if other = id then later.slot else fleet.slot? other := by
  unfold slot?
  rw [get?_put found]
  split <;> rfl

theorem starts_put : (fleet.modify id fun _ => later).starts other =
    if other = id then later.supervisors.length else fleet.starts other := by
  unfold starts
  rw [get?_put found]
  split <;> rfl

theorem alive_put {index : Nat} : (fleet.modify id fun _ => later).alive other index =
    if other = id then later.alive index else fleet.alive other index := by
  unfold Fleet.alive
  rw [get?_put found]
  split <;> rfl

theorem spec?_put {later : Link} (same : later.spec = link.spec) :
    (fleet.modify id fun _ => later).spec? other = fleet.spec? other := by
  unfold spec?
  rw [get?_put found]
  split
  · rename_i here
    simp [here, found, same]
  · rfl

/-- What changes in one link changes in the fleet. -/
theorem fades_put {later : Link} (fades : link.Fades later) :
    fleet.Fades (fleet.modify id fun _ => later) := by
  refine ⟨Nat.le_of_eq (size_modify _).symm, fun other spec was => ?_, fun other => ?_, fun other => ?_,
    fun other index alive => ?_⟩
  · rw [spec?_put found fades.spec, was]
  · rw [slot?_put found, fades.slot]
    split
    · rename_i here
      simp [here, slot?, found]
    · rfl
  · rw [starts_put found, fades.starts]
    split
    · rename_i here
      simp [here, starts, found]
    · rfl
  · rw [alive_put found] at alive
    split at alive
    · rename_i here
      simpa [here, Fleet.alive, found] using fades.alive index alive
    · exact alive

end

theorem fades_endStop (fleet : Fleet) (id : LinkId) : fleet.Fades (fleet.endStop id).1 := by
  unfold endStop
  cases found : fleet.get? id with
  | none => exact .refl fleet
  | some link => exact fades_put found link.fades_endStop

theorem get?_add (fleet : Fleet) (spec : LinkSpec) (other : LinkId) : (fleet.add spec).1.get? other =
    if other = fleet.links.length then some (.new spec) else fleet.get? other := by
  simp only [add, get?, List.getElem?_append]
  split
  · rename_i before
    rw [if_neg (Nat.ne_of_lt before)]
  · rename_i beyond
    split
    · rename_i same
      simp [same]
    · rename_i ne
      have past : fleet.links.length < other :=
        Nat.lt_of_le_of_ne (Nat.le_of_not_lt beyond) (Ne.symm ne)
      rw [List.getElem?_eq_none (Nat.sub_pos_of_lt past), List.getElem?_eq_none (Nat.le_of_lt past)]

theorem get?_fresh (fleet : Fleet) : fleet.get? fleet.links.length = none :=
  List.getElem?_eq_none (Nat.le_refl _)

theorem fades_add (fleet : Fleet) (spec : LinkSpec) : fleet.Fades (fleet.add spec).1 := by
  have fresh := fleet.get?_fresh
  have hit := fleet.get?_add spec
  refine ⟨by simp [add], fun other known was => ?_, fun other => ?_, fun other => ?_,
    fun other index alive => ?_⟩
  · unfold spec? at *
    rw [hit]
    split
    · rename_i same
      simp [same, fresh] at was
    · exact was
  · unfold slot?
    rw [hit]
    split
    · rename_i same
      simp [same, fresh, Link.new]
    · rfl
  · unfold starts
    rw [hit]
    split
    · rename_i same
      simp [same, fresh, Link.new]
    · rfl
  · unfold Fleet.alive at *
    rw [hit] at alive
    split at alive
    · simp [Link.new, Link.alive, Link.supervisor?] at alive
    · exact alive

/-! ### Starts and stops -/

/-- A link has one supervisor more, and that one is in its slot. -/
structure Started (fleet later : Fleet) (id : LinkId) : Prop where
  size : fleet.links.length ≤ later.links.length
  spec : ∀ other spec, fleet.spec? other = some spec → later.spec? other = some spec
  slot : ∀ other, later.slot? other = if other = id then some (fleet.starts id) else fleet.slot? other
  starts : ∀ other, later.starts other = if other = id then fleet.starts id + 1 else fleet.starts other
  alive : ∀ other index, later.alive other index = true →
    fleet.alive other index = true ∨ other = id ∧ index = fleet.starts id

/-- The slot of a link is empty. -/
structure Emptied (fleet later : Fleet) (id : LinkId) : Prop where
  size : fleet.links.length ≤ later.links.length
  spec : ∀ other spec, fleet.spec? other = some spec → later.spec? other = some spec
  slot : ∀ other, later.slot? other = if other = id then none else fleet.slot? other
  starts : ∀ other, later.starts other = fleet.starts other
  alive : ∀ other index, later.alive other index = true → fleet.alive other index = true

theorem isStarted_iff :
    fleet.isStarted id = true ↔ ∃ index, fleet.slot? id = some index ∧ fleet.alive id index = true := by
  unfold isStarted slot? Fleet.alive Link.isStarted
  cases fleet.get? id with
  | none => simp
  | some link => simp [Option.any_eq_true]

theorem Fades.stopped {later : Fleet} (fades : fleet.Fades later) (stopped : fleet.isStarted id = false) :
    later.isStarted id = false := by
  rw [Bool.eq_false_iff] at stopped ⊢
  intro started
  obtain ⟨index, slot, alive⟩ := isStarted_iff.1 started
  exact stopped (isStarted_iff.2 ⟨index, fades.slot id ▸ slot, fades.alive id index alive⟩)

/-- A link that is started stays as it is, and any other is started. -/
theorem start_cases (known : id < fleet.links.length) :
    fleet.isStarted id = true ∧ fleet.Fades (fleet.start id).1 ∨
      fleet.isStarted id = false ∧ fleet.Started (fleet.start id).1 id := by
  obtain ⟨link, found⟩ : ∃ link, fleet.get? id = some link := ⟨_, List.getElem?_eq_getElem known⟩
  have begun : (fleet.start id).1 = fleet.modify id fun _ => link.start.1 := by
    simp [start, found]
  have state : fleet.isStarted id = link.isStarted := by
    simp [isStarted, found]
  have count : fleet.starts id = link.supervisors.length := by
    simp [starts, found]
  rw [begun, state]
  cases started : link.isStarted with
  | true =>
    refine .inl ⟨rfl, fades_put found ?_⟩
    rw [Link.start_of_started started]
    exact .refl link
  | false =>
    obtain ⟨same, slot, starts, alive⟩ := Link.start_of_stopped started
    refine .inr ⟨rfl, Nat.le_of_eq (size_modify _).symm, fun other spec was => ?_, fun other => ?_,
      fun other => ?_, fun other index mem => ?_⟩
    · rw [spec?_put found same, was]
    · rw [slot?_put found, slot, count]
    · rw [starts_put found, starts, count]
    · rw [alive_put found] at mem
      split at mem
      · rename_i here
        rcases alive index mem with before | new
        · left
          simpa [here, Fleet.alive, found] using before
        · exact .inr ⟨here, new.trans count.symm⟩
      · exact .inl mem

theorem size_start (fleet : Fleet) (id : LinkId) :
    fleet.links.length ≤ (fleet.start id).1.links.length := by
  by_cases known : id < fleet.links.length
  · rcases start_cases known with ⟨_, fades⟩ | ⟨_, started⟩
    · exact fades.size
    · exact started.size
  · have none : fleet.get? id = none := List.getElem?_eq_none (Nat.le_of_not_lt known)
    simp [start, none]

theorem start_spec? (fleet : Fleet) (id : LinkId) {other : LinkId} {spec : LinkSpec}
    (was : fleet.spec? other = some spec) : (fleet.start id).1.spec? other = some spec := by
  by_cases known : id < fleet.links.length
  · rcases start_cases known with ⟨_, fades⟩ | ⟨_, started⟩
    · exact fades.spec other spec was
    · exact started.spec other spec was
  · have none : fleet.get? id = none := List.getElem?_eq_none (Nat.le_of_not_lt known)
    simpa [start, none] using was

theorem beginStop_spec (fleet : Fleet) (id : LinkId) :
    (fleet.beginStop id).2 = fleet.slot? id ∧ fleet.Emptied (fleet.beginStop id).1 id := by
  unfold beginStop
  cases found : fleet.get? id with
  | none =>
    refine ⟨by simp [slot?, found], Nat.le_refl _, fun _ _ was => was, fun other => ?_, fun _ => rfl,
      fun _ _ alive => alive⟩
    by_cases here : other = id <;> simp [here, slot?, found]
  | some link =>
    obtain ⟨taken, same, slot, starts, alive⟩ := link.beginStop_spec
    refine ⟨by simp [slot?, found, taken], Nat.le_of_eq (size_modify _).symm, fun other spec was => ?_,
      fun other => ?_, fun other => ?_, fun other index mem => ?_⟩
    · exact (spec?_put found same).trans was
    · exact (slot?_put found _).trans (by rw [slot])
    · refine (starts_put found _).trans ?_
      split
      · rename_i here
        simp [here, Fleet.starts, found, starts]
      · rfl
    · rw [show Fleet.alive _ other index = _ from alive_put found _] at mem
      split at mem
      · rename_i here
        simpa [here, Fleet.alive, found, alive] using mem
      · exact mem

end Fleet

end TunnelIngress
