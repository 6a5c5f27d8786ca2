import TunnelIngress.Proofs.Tunnel.LinkLifecycle
import Mathlib.Algebra.BigOperators.Group.List.Basic
import Mathlib.Algebra.Order.BigOperators.Group.List
import Mathlib.Algebra.Ring.Int.Defs

/-!
# The gauge of active links

A start counts the link in, a stop counts it out once the supervisor it took has ended, and a start that
replaces a supervisor which ended by itself does both. A start holds the link until it has counted, so no
other call finds the link in between; a stop counts when it holds nothing any more, and others may come
before.

So what a link has contributed to the gauge is its supervisors that some stop has or will have to count
out, less what is still to be counted. Each event leaves that as it is, and so the gauge is never off by
more than the calls in progress.
-/

namespace TunnelIngress

/-- What an observation adds to the gauge. -/
def Observation.gain : Observation → Int
  | linkStarted => 1
  | linkStopped => -1
  | reconciliation .. | depth _ | requeue _ | repair _ => 0

theorem Metrics.activeLinks_record (metrics : Metrics) (seen : Observation) :
    (metrics.record seen).activeLinks = metrics.activeLinks + seen.gain := by
  cases seen with
  | linkStarted => rfl
  | linkStopped => rfl
  | reconciliation kind result seconds => exact (Int.add_zero _).symm
  | depth depth => exact (Int.add_zero _).symm
  | requeue outcome => exact (Int.add_zero _).symm
  | repair host => exact (Int.add_zero _).symm

def totalGain (seen : List Observation) : Int :=
  (seen.map Observation.gain).sum

@[simp]
theorem totalGain_nil : totalGain [] = 0 :=
  rfl

@[simp]
theorem totalGain_cons (first : Observation) (rest : List Observation) :
    totalGain (first :: rest) = first.gain + totalGain rest := by
  simp [totalGain]

@[simp]
theorem totalGain_append (seen more : List Observation) :
    totalGain (seen ++ more) = totalGain seen + totalGain more := by
  simp [totalGain]

namespace LinkSession

/-- What is observed of an event. -/
def seen (session : LinkSession) : LinkEvent → List Observation
  | .start => session.link.start.2.2
  | .stopped _ => session.link.endStop.2
  | .act index (.ended outcome delay) => (session.link.daemonEnded index outcome delay).2
  | _ => []

/-- The supervisors that were counted in and have not been counted out: one in the slot, and those that
stops have taken and wait for. -/
def load (session : LinkSession) : Nat :=
  session.link.slot.toList.length + session.stopping.length

variable {session later : LinkSession} {event : LinkEvent} {index : Nat}

theorem seen_start (stopped : session.link.isStarted = false) :
    session.seen .start =
      (if session.link.slot.isSome then [.linkStopped] else []) ++ [.linkStarted] := by
  simp [seen, Link.start, stopped]

theorem seen_start_of_started (started : session.link.isStarted = true) : session.seen .start = [] := by
  simp [seen, Link.start, started]

/-- After a start a supervisor is in the slot, also when the start did nothing. What it records is that
the one before it is gone, if there was one, and then that it is there. -/
theorem start_holds (session : LinkSession) :
    session.link.start.1.slot.isSome = true ∧ session.seen .start <:+ [.linkStopped, .linkStarted] := by
  cases started : session.link.isStarted with
  | true =>
    rw [seen_start_of_started started, Link.start_of_started started]
    obtain ⟨index, slot, _⟩ := (Option.any_eq_true _ _).1 started
    exact ⟨slot ▸ rfl, List.nil_suffix⟩
  | false =>
    rw [seen_start started, (Link.start_spec started).1]
    refine ⟨rfl, ?_⟩
    split
    · exact List.suffix_refl _
    · exact List.suffix_cons _ _

theorem totalGain_ended (link : Link) (outcome : DaemonOutcome) (delay : Option Duration) :
    totalGain (link.daemonEnded index outcome delay).2 = 0 := by
  unfold Link.daemonEnded
  split
  · rfl
  · cases outcome <;> rfl

/-- Whatever is observed of an event is what the event does to the supervisors that count. -/
theorem load_step (step : session.step? event = some later) :
    (later.load : Int) = session.load + totalGain (session.seen event) := by
  cases event with
  | start =>
    cases step
    cases started : session.link.isStarted with
    | true =>
      rw [seen_start_of_started started, Link.start_of_started started]
      simp [load]
    | false =>
      rw [seen_start started]
      simp only [load, (Link.start_spec started).1]
      cases session.link.slot with
      | none =>
        simp [Observation.gain]
        omega
      | some replaced => simp [Observation.gain]
  | stop =>
    cases step
    obtain ⟨taken, _, emptied, _⟩ := session.link.beginStop_spec
    simp only [load, emptied, taken, seen, List.length_append, totalGain_nil]
    simp
    omega
  | stopped index =>
    obtain ⟨mem, _, rfl⟩ := step?_stopped step
    have fewer := List.length_erase_add_one mem
    simp only [load, seen, Link.endStop, Link.setState, totalGain_cons, totalGain_nil, Observation.gain]
    omega
  | elapsed index =>
    obtain ⟨_, rfl⟩ := step?_elapsed step
    simp [load, seen]
  | act index act =>
    obtain ⟨supervisor, found, _, rfl⟩ := step?_act step
    have silent : totalGain (session.seen (.act index act)) = 0 := by
      cases act with
      | ended outcome delay => exact totalGain_ended session.link outcome delay
      | launch => rfl
      | connect => rfl
      | quit => rfl
    simp [load, silent, (Link.act_spec found act).1]

end LinkSession

/-! ### A link and the calls in progress -/

structure CountedLink where
  session : LinkSession
  /-- What the start that holds the link is still to record. -/
  held : List Observation
  /-- What is recorded without holding the link, and has not been yet. -/
  loose : List Observation
  events : List LinkEvent

namespace CountedLink

def new (spec : LinkSpec) : CountedLink :=
  { session := .new spec, held := [], loose := [], events := [] }

/-- A call finds the link only when no start holds it. What comes of supervisors, and a stop that
returns, needs nothing. -/
inductive Moves (link : CountedLink) : CountedLink → Prop where
  | called (event : LinkEvent) (call : event = .start ∨ event = .stop) (free : link.held = [])
      (session : LinkSession) (step : link.session.step? event = some session) :
      Moves link
        { link with
          session, held := link.session.seen event, events := link.events ++ [event] }
  | came (event : LinkEvent) (uncalled : event ≠ .start ∧ event ≠ .stop) (session : LinkSession)
      (step : link.session.step? event = some session) :
      Moves link
        { link with
          session
          loose := link.loose ++ link.session.seen event
          events := link.events ++ [event] }

/-- A start records in the order in which things happened. -/
inductive Records (seen : Observation) (link : CountedLink) : CountedLink → Prop where
  | held (rest : List Observation) (next : link.held = seen :: rest) :
      Records seen link { link with held := rest }
  | loose (before after : List Observation) (one : link.loose = before ++ seen :: after) :
      Records seen link { link with loose := before ++ after }

/-- What the gauge has of a link. -/
def counted (link : CountedLink) : Int :=
  link.session.load - totalGain link.held - totalGain link.loose

/-- Each start was followed by a stop. -/
def EachStopped (events : List LinkEvent) : Prop :=
  ∀ before after, events = before ++ .start :: after → .stop ∈ after

/-- No stop of the link is pending, nor is a start in the middle of its work. -/
def Rests (link : CountedLink) : Prop :=
  link.session.stopping = [] ∧ link.held = [] ∧ .linkStopped ∉ link.loose

structure Sound (link : CountedLink) : Prop where
  held : link.held <:+ [.linkStopped, .linkStarted]
  started : link.held ≠ [] → link.session.link.slot.isSome = true
  loose : ∀ seen ∈ link.loose, seen.gain ≤ 0
  stopped : EachStopped link.events → link.session.link.slot = none

variable {link later : CountedLink} {event : LinkEvent} {seen : Observation}

theorem sound_new (spec : LinkSpec) : (new spec).Sound where
  held := List.nil_suffix
  started none := absurd rfl none
  loose _ mem := nomatch mem
  stopped _ := rfl

theorem counted_moves (moves : link.Moves later) : later.counted = link.counted := by
  cases moves with
  | called event call free session step =>
    have load := LinkSession.load_step step
    simp only [counted, free, totalGain_nil]
    omega
  | came event uncalled session step =>
    have load := LinkSession.load_step step
    simp only [counted, totalGain_append]
    omega

theorem counted_records (records : link.Records seen later) :
    later.counted = link.counted + seen.gain := by
  cases records with
  | held rest next =>
    simp only [counted, next, totalGain_cons]
    omega
  | loose before after one =>
    simp only [counted, one, totalGain_append, totalGain_cons]
    omega

/-- Only a call changes who is in the slot. -/
theorem slot_of_uncalled {session later : LinkSession} (uncalled : event ≠ .start ∧ event ≠ .stop)
    (step : session.step? event = some later) : later.link.slot = session.link.slot := by
  cases event with
  | start => exact absurd rfl uncalled.1
  | stop => exact absurd rfl uncalled.2
  | stopped index =>
    obtain ⟨_, _, rfl⟩ := LinkSession.step?_stopped step
    rfl
  | elapsed index =>
    obtain ⟨_, rfl⟩ := LinkSession.step?_elapsed step
    rfl
  | act index act =>
    obtain ⟨supervisor, found, _, rfl⟩ := LinkSession.step?_act step
    exact (Link.act_spec found act).1

theorem seen_uncalled (session : LinkSession) (uncalled : event ≠ .start ∧ event ≠ .stop) :
    ∀ seen ∈ session.seen event, seen.gain ≤ 0 := by
  intro seen mem
  cases event with
  | start => exact absurd rfl uncalled.1
  | stop => exact absurd rfl uncalled.2
  | elapsed index => cases mem
  | stopped index =>
    obtain rfl := List.mem_singleton.1 mem
    decide
  | act index act =>
    cases act with
    | launch => cases mem
    | connect => cases mem
    | quit => cases mem
    | ended outcome delay =>
      simp only [LinkSession.seen, Link.daemonEnded] at mem
      split at mem
      · cases mem
      · cases outcome with
        | exited => cases mem
        | failed =>
          obtain rfl := List.mem_singleton.1 mem
          exact Int.le_refl 0

theorem EachStopped.before {events : List LinkEvent} (each : EachStopped (events ++ [event]))
    (other : event ≠ .stop) : EachStopped events := by
  intro before after split
  have mem := each before (after ++ [event]) (by rw [split, List.append_assoc, List.cons_append])
  refine (List.mem_append.1 mem).resolve_right fun last => ?_
  exact other (List.mem_singleton.1 last).symm

theorem Sound.moves (sound : link.Sound) (moves : link.Moves later) : later.Sound := by
  cases moves with
  | called event call free session step =>
    rcases call with rfl | rfl
    · cases step
      obtain ⟨started, recorded⟩ := link.session.start_holds
      exact ⟨recorded, fun _ => started, sound.loose, fun each => nomatch each link.events [] rfl⟩
    · cases step
      have emptied := link.session.link.beginStop_spec.2.2.1
      exact ⟨List.nil_suffix, fun none => absurd rfl none, sound.loose, fun _ => emptied⟩
  | came event uncalled session step =>
    have slot := slot_of_uncalled uncalled step
    refine ⟨sound.held, fun some => slot ▸ sound.started some, fun seen mem => ?_, fun each => ?_⟩
    · rcases List.mem_append.1 mem with mem | mem
      · exact sound.loose seen mem
      · exact seen_uncalled link.session uncalled seen mem
    · exact slot.trans (sound.stopped (each.before uncalled.2))

theorem Sound.records (sound : link.Sound) (records : link.Records seen later) : later.Sound := by
  cases records with
  | held rest next =>
    have suffix : rest <:+ link.held := next ▸ List.suffix_cons seen rest
    have started : link.held ≠ [] := next ▸ List.cons_ne_nil seen rest
    exact ⟨suffix.trans sound.held, fun _ => sound.started started, sound.loose, sound.stopped⟩
  | loose before after one =>
    refine ⟨sound.held, sound.started, fun other mem => sound.loose other ?_, sound.stopped⟩
    rw [one]
    exact (List.mem_append.1 mem).elim (List.mem_append_left _) fun mem =>
      List.mem_append_right _ (List.mem_cons_of_mem seen mem)

/-- A start that is in the middle of its work has a supervisor in the slot to count in. -/
theorem Sound.held_le (sound : link.Sound) :
    totalGain link.held ≤ link.session.link.slot.toList.length := by
  cases slot : link.session.link.slot with
  | none =>
    have free : link.held = [] := by
      by_contra some
      cases (sound.started some).symm.trans (congrArg Option.isSome slot)
    simp [free]
  | some index =>
    have recorded := sound.held
    rw [List.suffix_cons_iff, List.suffix_cons_iff, List.suffix_nil] at recorded
    rcases recorded with all | last | none
    · simp [all, Observation.gain]
    · simp [last, Observation.gain]
    · simp [none]

theorem totalGain_nonpos {seen : List Observation} (loose : ∀ one ∈ seen, one.gain ≤ 0) :
    totalGain seen ≤ 0 := by
  induction seen with
  | nil => exact Int.le_refl 0
  | cons first rest ih =>
    have here := loose first List.mem_cons_self
    have there := ih fun one mem => loose one (List.mem_cons_of_mem first mem)
    rw [totalGain_cons]
    omega

theorem Sound.counted_nonneg (sound : link.Sound) : 0 ≤ link.counted := by
  have held := sound.held_le
  have loose := totalGain_nonpos sound.loose
  unfold counted LinkSession.load
  omega

/-- A link at rest is counted exactly while it has a supervisor in the slot. -/
theorem Sound.counted_of_rests (sound : link.Sound) (rests : link.Rests) :
    link.counted = if link.session.link.slot.isSome then 1 else 0 := by
  obtain ⟨calm, free, counted_out⟩ := rests
  have silent : ∀ seen ∈ link.loose, seen.gain = 0 := by
    intro seen mem
    have loose := sound.loose seen mem
    cases seen with
    | linkStarted => exact absurd loose (by decide)
    | linkStopped => exact absurd mem counted_out
    | reconciliation kind result seconds => rfl
    | depth depth => rfl
    | requeue outcome => rfl
    | repair host => rfl
  have none : totalGain link.loose = 0 := by
    unfold totalGain
    exact List.sum_eq_zero (by simpa using silent)
  cases slot : link.session.link.slot <;> simp [counted, LinkSession.load, slot, calm, free, none]

end CountedLink

/-! ### All links and the gauge -/

structure ActiveLinks where
  links : List CountedLink
  metrics : Metrics

namespace ActiveLinks

def start (metrics : Metrics) : ActiveLinks :=
  { links := [], metrics }

/-- Links are made, something happens at one of them, or something is recorded of it. What else is
recorded does not concern links. -/
inductive Step (session : ActiveLinks) : ActiveLinks → Prop where
  | made (spec : LinkSpec) : Step session { session with links := session.links ++ [.new spec] }
  | moved (before after : List CountedLink) (link later : CountedLink)
      (one : session.links = before ++ link :: after) (moves : link.Moves later) :
      Step session { session with links := before ++ later :: after }
  | recorded (before after : List CountedLink) (link later : CountedLink)
      (one : session.links = before ++ link :: after) (seen : Observation)
      (records : link.Records seen later) :
      Step session { links := before ++ later :: after, metrics := session.metrics.record seen }
  | observed (seen : Observation) (other : seen.gain = 0) :
      Step session { session with metrics := session.metrics.record seen }

abbrev Leads : ActiveLinks → ActiveLinks → Prop :=
  Relation.ReflTransGen Step

def counted (session : ActiveLinks) : Int :=
  (session.links.map CountedLink.counted).sum

structure Sound (initial : Metrics) (session : ActiveLinks) : Prop where
  links : ∀ link ∈ session.links, link.Sound
  balanced : session.metrics.activeLinks = initial.activeLinks + session.counted

variable {initial : Metrics} {session later : ActiveLinks}

theorem sound_start (initial : Metrics) : (start initial).Sound initial where
  links _ mem := nomatch mem
  balanced := (Int.add_zero _).symm

/-- Among several links one changes. -/
theorem forall_changed {P : CountedLink → Prop} {before after : List CountedLink}
    {link later : CountedLink} (all : ∀ other ∈ before ++ link :: after, P other)
    (changed : P link → P later) : ∀ other ∈ before ++ later :: after, P other := by
  intro other mem
  rcases List.mem_append.1 mem with mem | mem
  · exact all other (List.mem_append_left _ mem)
  · rcases List.mem_cons.1 mem with rfl | mem
    · exact changed (all link (List.mem_append_right _ List.mem_cons_self))
    · exact all other (List.mem_append_right _ (List.mem_cons_of_mem link mem))

theorem Sound.step (sound : session.Sound initial) (step : Step session later) :
    later.Sound initial := by
  have balanced := sound.balanced
  cases step with
  | made spec =>
    refine ⟨fun link mem => ?_, ?_⟩
    · rcases List.mem_append.1 mem with mem | mem
      · exact sound.links link mem
      · exact List.mem_singleton.1 mem ▸ CountedLink.sound_new spec
    · simpa [counted, CountedLink.new, CountedLink.counted, LinkSession.load, LinkSession.new, Link.new]
        using balanced
  | moved before after link later one moves =>
    refine ⟨forall_changed (one ▸ sound.links) fun sound => sound.moves moves, ?_⟩
    have same := CountedLink.counted_moves moves
    simp only [counted, one, List.map_append, List.map_cons, List.sum_append, List.sum_cons] at balanced ⊢
    omega
  | recorded before after link later one seen records =>
    refine ⟨forall_changed (one ▸ sound.links) fun sound => sound.records records, ?_⟩
    have more := CountedLink.counted_records records
    have gauge := session.metrics.activeLinks_record seen
    simp only [counted, one, List.map_append, List.map_cons, List.sum_append, List.sum_cons] at balanced ⊢
    omega
  | observed seen other =>
    refine ⟨sound.links, ?_⟩
    have gauge := session.metrics.activeLinks_record seen
    simp only [counted] at balanced ⊢
    omega

theorem Sound.leads (sound : session.Sound initial) (leads : session.Leads later) :
    later.Sound initial := by
  induction leads with
  | refl => exact sound
  | tail _ step ih => exact ih.step step

theorem counted_eq_countP {links : List CountedLink}
    (shown : ∀ link ∈ links, link.counted = if link.session.link.slot.isSome then 1 else 0) :
    (links.map CountedLink.counted).sum = links.countP (·.session.link.slot.isSome) := by
  induction links with
  | nil => rfl
  | cons first rest ih =>
    have here := shown first List.mem_cons_self
    have there := ih fun link mem => shown link (List.mem_cons_of_mem first mem)
    rw [List.map_cons, List.sum_cons, here, there, List.countP_cons]
    split
    · simp
      omega
    · simp

/-- **The gauge of active links does not drift.** Whatever happens to which links in which order: when no
stop is pending and no start in the middle of its work, the gauge has moved by the number of links with
a supervisor in their slot. It never falls below where it began, and is there again when each start of
every link was followed by a stop. -/
theorem gauge_exact (initial : Metrics) {session : ActiveLinks} (run : (start initial).Leads session) :
    ((∀ link ∈ session.links, link.Rests) →
      session.metrics.activeLinks - initial.activeLinks =
        session.links.countP (·.session.link.slot.isSome)) ∧
    initial.activeLinks ≤ session.metrics.activeLinks ∧
    ((∀ link ∈ session.links, link.Rests ∧ CountedLink.EachStopped link.events) →
      session.metrics.activeLinks = initial.activeLinks) := by
  have sound := (sound_start initial).leads run
  have gauge := sound.balanced
  have shown (rest : ∀ link ∈ session.links, link.Rests) :
      session.counted = session.links.countP (·.session.link.slot.isSome) :=
    counted_eq_countP fun link mem => (sound.links link mem).counted_of_rests (rest link mem)
  refine ⟨fun rest => ?_, ?_, fun stopped => ?_⟩
  · rw [gauge, shown rest]
    omega
  · have floor : 0 ≤ session.counted := by
      refine List.sum_nonneg fun counted mem => ?_
      obtain ⟨link, known, rfl⟩ := List.mem_map.1 mem
      exact (sound.links link known).counted_nonneg
    omega
  · have empty : session.links.countP (·.session.link.slot.isSome) = 0 := by
      refine List.countP_eq_zero.2 fun link mem => ?_
      simp [(sound.links link mem).stopped (stopped link mem).2]
    rw [gauge, shown fun link mem => (stopped link mem).1, empty]
    exact Int.add_zero _

/-- A link is stopped and started again before its first daemon has ended. In between it counts twice. -/
theorem gauge_exact_overlapping : ∃ doubled session,
    (start .zero).Leads doubled ∧ doubled.metrics.activeLinks = 2 ∧ (start .zero).Leads session ∧
      (∀ link ∈ session.links, link.Rests) ∧ session.metrics.activeLinks - Metrics.zero.activeLinks = 1 := by
  have doubled := (Relation.ReflTransGen.refl (r := Step) (a := start .zero))
    |>.tail (.made RouterSession.siteSpec)
    |>.tail (.moved [] [] _ _ rfl (.called .start (.inl rfl) rfl _ rfl))
    |>.tail (.recorded [] [] _ _ rfl _ (.held [] rfl))
    |>.tail (.moved [] [] _ _ rfl (.came (.act 0 .launch) (by decide) _ rfl))
    |>.tail (.moved [] [] _ _ rfl (.called .stop (.inr rfl) rfl _ rfl))
    |>.tail (.moved [] [] _ _ rfl (.called .start (.inl rfl) rfl _ rfl))
    |>.tail (.recorded [] [] _ _ rfl _ (.held [] rfl))
  have run := doubled
    |>.tail (.moved [] [] _ _ rfl (.came (.act 0 (.ended .exited none)) (by decide) _ rfl))
    |>.tail (.moved [] [] _ _ rfl (.came (.stopped 0) (by decide) _ rfl))
    |>.tail (.recorded [] [] _ _ rfl _ (.loose [] [] rfl))
  refine ⟨_, _, doubled, rfl, run, ?rest, (gauge_exact .zero run).1 ?rest⟩
  intro link mem
  obtain rfl := List.mem_singleton.1 mem
  exact ⟨rfl, rfl, nofun⟩

end ActiveLinks

end TunnelIngress
