import TunnelIngress.Proofs.Tunnel.ChangeRuns

/-!
# Links in and out of use

A link that the routes do not hold any more, or that was discarded for an equal one, is out of use for
good. A link of a route that a change brings is due until it is started.
-/

namespace TunnelIngress

namespace RouterSession

variable {session later : RouterSession}

/-! ### Links that are out of use -/

/-- A link that was handed in and that no route holds. -/
def Retired (session : RouterSession) (id : LinkId) : Prop :=
  id ∈ session.handed ∧ id ∉ Routes.links session.routes

theorem Retired.goes {id : LinkId} (retired : session.Retired id) (sound : session.Sound)
    (goes : Goes session later) :
    later.Retired id ∧ later.fleet.starts id = session.fleet.starts id := by
  cases goes with
  | build spec => exact ⟨retired, (session.fleet.fades_add spec).starts id⟩
  | act other link later found acts => exact ⟨retired, (Fleet.fades_put found acts.fades).starts id⟩
  | stop other pending next => exact ⟨retired, (session.fleet.beginStop_spec other).2.starts id⟩
  | stopped other index pending before after next ended =>
    exact ⟨retired, (session.fleet.fades_endStop other).starts id⟩
  | start other start removals next =>
    have mapped := sound.kept other (by simp [starts, next])
    have ne : id ≠ other := fun same => retired.2 (same ▸ mapped)
    refine ⟨retired, ?_⟩
    rcases Fleet.start_cases (sound.known other (sound.held other mapped)) with
      ⟨_, fades⟩ | ⟨_, started⟩
    · exact fades.starts id
    · exact (started.starts id).trans (if_neg ne)
  | remove key removals next =>
    refine ⟨⟨retired.1, fun mem => retired.2 ?_⟩, rfl⟩
    obtain ⟨place, rule, holds⟩ := Routes.mem_links_iff.1 mem
    have moves := Routes.removeRoute_moves session.fleet sound.distinct key
    have was := (moves.new place rule id holds).resolve_right (by simp [Routes.Brings])
    exact Routes.mem_links_iff.2 ⟨place, rule, was⟩
  | finish next => exact ⟨retired, rfl⟩

theorem Retired.step {id : LinkId} (retired : session.Retired id) (sound : session.Sound)
    (step : Step session later) :
    later.Retired id ∧ later.fleet.starts id = session.fleet.starts id := by
  cases step with
  | begin mutation idle fresh =>
    refine ⟨⟨List.mem_append_left _ retired.1, fun mem => ?_⟩, rfl⟩
    obtain ⟨keys, moves⟩ := Routes.plan_moves session.fleet sound.distinct (sound.apart fresh)
    obtain ⟨key, rule, holds⟩ := Routes.mem_links_iff.1 mem
    rcases moves.new key rule id holds with held | brings
    · exact retired.2 (Routes.mem_links_iff.2 ⟨key, rule, held⟩)
    · exact fresh.new id (Routes.mem_brought_iff.2 ⟨key, rule, brings⟩) retired.1
  | goes _ goes => exact retired.goes sound goes

theorem Retired.leads {id : LinkId} (retired : session.Retired id) (sound : session.Sound)
    (leads : Leads session later) :
    later.Retired id ∧ later.fleet.starts id = session.fleet.starts id := by
  induction leads with
  | refl => exact ⟨retired, rfl⟩
  | tail leads step ih =>
    obtain ⟨still, same⟩ := ih
    obtain ⟨retired, same'⟩ := still.step (sound.leads leads) step
    exact ⟨retired, same'.trans same⟩

/-! ### Links that a change is to start -/

/-- A link was started since a time when it had been started so often, or is to be started. -/
def Due (session : RouterSession) (before : LinkId → Nat) (id : LinkId) : Prop :=
  before id < session.fleet.starts id ∨
    before id = session.fleet.starts id ∧ id ∈ session.starts ∧ session.fleet.isStarted id = false

theorem Due.fades {before : LinkId → Nat} {id : LinkId} (due : session.Due before id) {fleet : Fleet}
    (fades : session.fleet.Fades fleet) : { session with fleet }.Due before id := by
  unfold Due
  rw [show Fleet.starts _ id = _ from fades.starts id]
  refine due.imp_right ?_
  rintro ⟨same, mem, stopped⟩
  exact ⟨same, mem, fades.stopped stopped⟩

theorem Due.goes {before : LinkId → Nat} {id : LinkId} (due : session.Due before id)
    (sound : session.Sound) (goes : Goes session later) : later.Due before id := by
  cases goes with
  | build spec => exact due.fades (session.fleet.fades_add spec)
  | act other link later found acts => exact due.fades (Fleet.fades_put found acts.fades)
  | stop other pending next =>
    have emptied := (session.fleet.beginStop_spec other).2
    unfold Due at *
    rw [show Fleet.starts _ id = _ from emptied.starts id]
    refine due.imp_right ?_
    rintro ⟨same, mem, stopped⟩
    refine ⟨same, by simpa [starts, next] using mem, ?_⟩
    rw [Bool.eq_false_iff] at stopped ⊢
    intro started
    obtain ⟨index, slot, alive⟩ := Fleet.isStarted_iff.1 started
    rw [show Fleet.slot? _ id = _ from emptied.slot id] at slot
    split at slot
    · cases slot
    · exact stopped (Fleet.isStarted_iff.2 ⟨index, slot, emptied.alive id index alive⟩)
  | stopped other index pending before after next ended =>
    have fades := session.fleet.fades_endStop other
    unfold Due at *
    rw [show Fleet.starts _ id = _ from fades.starts id]
    refine due.imp_right ?_
    rintro ⟨same, mem, stopped⟩
    exact ⟨same, by simpa [starts, next] using mem, fades.stopped stopped⟩
  | start other start removals next =>
    have mapped := sound.kept other (by simp [starts, next])
    have due_next : id ∈ session.starts → id = other ∨ id ∈ start := by simp [starts, next]
    rcases Fleet.start_cases (sound.known other (sound.held other mapped)) with
      ⟨runs, fades⟩ | ⟨_, started⟩
    · unfold Due at *
      rw [show Fleet.starts _ id = _ from fades.starts id]
      refine due.imp_right ?_
      rintro ⟨same, mem, stopped⟩
      refine ⟨same, (due_next mem).resolve_left ?_, fades.stopped stopped⟩
      rintro rfl
      simp [runs] at stopped
    · unfold Due at *
      rw [show Fleet.starts _ id = _ from started.starts id]
      by_cases same : id = other
      · subst same
        rw [if_pos rfl]
        left
        rcases due with grew | ⟨same, _, _⟩ <;> omega
      · rw [if_neg same]
        refine due.imp_right ?_
        rintro ⟨count, mem, stopped⟩
        refine ⟨count, (due_next mem).resolve_left same, ?_⟩
        rw [Bool.eq_false_iff] at stopped ⊢
        intro runs
        obtain ⟨index, slot, alive⟩ := Fleet.isStarted_iff.1 runs
        rw [show Fleet.slot? _ id = _ from started.slot id, if_neg same] at slot
        have was := (started.alive id index alive).resolve_right fun new => same new.1
        exact stopped (Fleet.isStarted_iff.2 ⟨index, slot, was⟩)
  | remove key removals next =>
    refine due.imp_right ?_
    rintro ⟨_, mem, _⟩
    exact absurd mem (by simp [starts, next])
  | finish next =>
    refine due.imp_right ?_
    rintro ⟨_, mem, _⟩
    exact absurd mem (by simp [starts, next])

/-- The links of the routes that a change brings run already, or are due. -/
theorem Sound.begin_due (sound : session.Sound) {mutation : Mutation} (fresh : session.Fresh mutation)
    {route placed : Route} (brought : route ∈ mutation.brought)
    (hit : (session.begin mutation).routes.get? route.key = some placed) {id : LinkId}
    (mem : id ∈ placed.links.values) :
    session.fleet.isStarted id = true ∨ (session.begin mutation).Due session.fleet.starts id := by
  obtain ⟨keys, moves⟩ := Routes.plan_moves session.fleet sound.distinct (sound.apart fresh)
  obtain ⟨rule, held⟩ := Table.mem_values_iff.1 mem
  rcases moves.runs route brought rule id ⟨placed, hit, held⟩ with start | runs
  · cases started : session.fleet.isStarted id with
    | true => exact .inl rfl
    | false => exact .inr (.inr ⟨rfl, start, started⟩)
  · exact .inl runs

theorem brought_last {mutation : Mutation} {route : Route} (brought : route ∈ mutation.brought)
    (pending : PendingChange) (next : (session.begin mutation).pending = some pending) :
    pending.later = [] := by
  cases next
  cases mutation with
  | update _ => rfl
  | refresh _ => rfl
  | remove _ => cases brought
  | drop _ _ _ => cases brought
  | halt => cases brought

/-- **No link is orphaned or doubled.** At every moment the routes hold no link twice, and a link that
was handed in and that no route holds is neither held nor started ever again. When no change is in
progress, such a link has no live supervisor. When a change is complete, each link of a route that it
brought ran when the change began, or was started by it. -/
theorem links_kept (run : Leads new session) :
    (Routes.links session.routes).Nodup ∧
    (∀ id, session.Retired id → ∀ later, Leads session later →
      later.Retired id ∧ later.fleet.starts id = session.fleet.starts id) ∧
    (session.pending = none → ∀ id ∈ session.handed, id ∉ Routes.links session.routes →
      ∀ index, session.fleet.alive id index = false) ∧
    ∀ mutation, session.pending = none → session.Fresh mutation →
      ∀ later, Carries (session.begin mutation) later → later.pending = none →
        ∀ route ∈ mutation.brought, ∀ placed, later.routes.get? route.key = some placed →
          ∀ id ∈ placed.links.values, session.fleet.isStarted id = true ∨
            session.fleet.starts id < later.fleet.starts id := by
  have sound := sound_new.leads run
  refine ⟨sound.distinct.nodup_links, ?_, ?_, ?_⟩
  · exact fun id retired later leads => retired.leads sound leads
  · intro idle id _ unheld index
    rw [Bool.eq_false_iff]
    intro alive
    have slot := (sound.alive id index alive).resolve_right (by simp [waits, idle])
    exact unheld ((sound.slot id index slot).resolve_right (by simp [stops, idle]))
  · intro mutation idle fresh later carries complete route brought placed hit id mem
    have begun := sound.begin idle fresh
    have same := (carries_routes carries (brought_last brought)).1
    rw [same] at hit
    refine (sound.begin_due fresh brought hit mem).imp_right fun due => ?_
    have due : later.Sound ∧ later.Due session.fleet.starts id := by
      clear complete same
      induction carries with
      | refl => exact ⟨begun, due⟩
      | tail _ goes ih => exact ⟨ih.1.goes goes, ih.2.goes ih.1 goes⟩
    exact due.2.resolve_right (by simp [starts, complete])

def siteRoute (id : LinkId) : Route :=
  { key := ⟨"shop", "site"⟩
    options := {}
    links := Table.insert ∅ ⟨"shop.example", 80, ⟨"shop", "web"⟩, none⟩ id }

def siteSpec : LinkSpec :=
  { rule := ⟨"shop.example", 80, ⟨"shop", "web"⟩, none⟩, certificate := [], options := {}, tags := [] }

/-- A route is brought and its link started. -/
def served : RouterSession :=
  { fleet := ((Fleet.empty.add siteSpec).1.start 0).1
    routes := Table.insert ∅ ⟨"shop", "site"⟩ (siteRoute 0)
    handed := [0]
    pending := none }

/-- The route is brought again, with an equal link that is discarded. -/
def servedAgain : RouterSession :=
  { served with fleet := (served.fleet.add siteSpec).1, handed := [0, 1] }

theorem leads_servedAgain : Leads new servedAgain := by
  have first := (Relation.ReflTransGen.refl (r := Step) (a := new))
    |>.tail (.goes _ _ (.build _ siteSpec))
    |>.tail (.begin _ (.update (siteRoute 0)) rfl ⟨by decide, by decide, by decide, by decide⟩)
    |>.tail (.goes _ _ (.start _ 0 [] [] rfl))
    |>.tail (.goes _ _ (.finish _ rfl))
  exact first
    |>.tail (.goes _ _ (.build _ siteSpec))
    |>.tail (.begin _ (.update (siteRoute 1)) rfl ⟨by decide, by decide, by decide, by decide⟩)
    |>.tail (.goes _ _ (.finish _ rfl))

theorem links_kept_discarded :
    servedAgain.pending = none ∧ (∀ index, servedAgain.fleet.alive 1 index = false) ∧
      servedAgain.fleet.isStarted 0 = true := by
  have kept := links_kept leads_servedAgain
  exact ⟨rfl, kept.2.2.1 rfl 1 (by decide) (by decide), rfl⟩

end RouterSession

end TunnelIngress
