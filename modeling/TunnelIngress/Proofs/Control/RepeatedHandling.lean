import TunnelIngress.Proofs.Control.Convergence
import TunnelIngress.Proofs.Control.DraftLinks
import TunnelIngress.Proofs.Tunnel.SettledRoutes
import TunnelIngress.Proofs.Tunnel.SlotHistories

/-!
# Handling a key again

Keys are queued again by every list of all objects, and mostly nothing has changed since they were handled
last. The routes that are built then are as before, though each of their links is a new one. None of these
links is used: the routes keep theirs, and a tunnel that runs goes on running.
-/

namespace TunnelIngress

namespace Demand

variable {demand : Demand} {early made : Fleet} {mutation : Mutation}

/-- Another lookup finds the same. -/
theorem ofKey_counted (caches : Caches) (index : IngressIndex) (settings : TunnelSettings) (kind : Kind)
    (key : ResourceKey) :
    (ofKey caches (ofKey caches index settings kind key).1 settings kind key).2 =
      (ofKey caches index settings kind key).2 := by
  cases kind <;> rfl

/-- The ingresses whose routes a demand brings anew. -/
def keys : Demand → List ResourceKey
  | update plan => [plan.key]
  | refresh plans => plans.map (·.key)
  | _ => []

theorem keys_build (built : demand.build early = (made, some mutation)) :
    mutation.brought.map (·.key) = demand.keys := by
  cases demand with
  | nothing => cases built
  | refresh plans =>
    cases built
    exact (values_buildAll plans early).2.2
  | _ =>
    cases built
    rfl

/-- Only a demand for nothing comes down to no change. -/
theorem nothing_of_build (built : demand.build early = (made, none)) : demand = nothing := by
  cases demand with
  | nothing => rfl
  | _ => cases built

end Demand

namespace RouterSession

variable {settings : TunnelSettings} {caches : Caches} {index : IngressIndex} {work : WorkKey}
  {session later begun done : RouterSession} {mutation : Mutation} {changes : Changeover}

/-- A change that some key calls for, as some caches and some index are. Its links were made at some
time. -/
def Asked (settings : TunnelSettings) (fleet : Fleet) (mutation : Mutation) : Prop :=
  ∃ (caches : Caches) (index counted : IngressIndex) (kind : Kind) (key : ResourceKey) (demand : Demand)
    (early made : Fleet), Demand.ofKey caches index settings kind key = (counted, .ok demand) ∧
    demand.build early = (made, some mutation) ∧
    ∀ id spec, made.spec? id = some spec → fleet.spec? id = some spec

/-- What comes of a new router when keys are handled, also side by side. -/
inductive Reached (settings : TunnelSettings) : RouterSession → Prop where
  | new : Reached settings new
  | begin (session : RouterSession) (mutation : Mutation) (reached : Reached settings session)
      (idle : session.pending = none) (fresh : session.Fresh mutation)
      (asked : Asked settings session.fleet mutation) : Reached settings (session.begin mutation)
  | goes (session later : RouterSession) (reached : Reached settings session) (goes : Goes session later) :
      Reached settings later

/-- A key is handled to the end, for what the caches hold and for what the index finds. The change that
it calls for, if any, begins when no other is in progress. -/
inductive Handles (settings : TunnelSettings) (caches : Caches) (index : IngressIndex) (work : WorkKey)
    (session : RouterSession) : RouterSession → Changeover → RouterSession → Prop where
  | unconcerned (placed : work.key.hasNamespace = true) (counted : IngressIndex) (demand : Demand)
      (found : Demand.ofKey caches index settings work.kind work.key = (counted, .ok demand))
      (fleet : Fleet) (built : demand.build session.fleet = (fleet, none)) :
      Handles settings caches index work session session .none { session with fleet }
  | changed (placed : work.key.hasNamespace = true) (counted : IngressIndex) (demand : Demand)
      (found : Demand.ofKey caches index settings work.kind work.key = (counted, .ok demand))
      (fleet : Fleet) (mutation : Mutation) (built : demand.build session.fleet = (fleet, some mutation))
      (waiting : RouterSession) (waits : Carries { session with fleet } waiting)
      (idle : waiting.pending = none) (router : RouterSession)
      (carries : Carries (waiting.begin mutation) router) (complete : router.pending = none) :
      Handles settings caches index work session waiting
        (mutation.plan waiting.fleet waiting.routes).changes router

/-- What holds of the links and the routes at every moment. -/
structure Kept (settings : TunnelSettings) (session : RouterSession) : Prop where
  sound : session.Sound
  manned : session.Manned
  coherent : Routes.Coherent session.routes session.fleet settings

theorem Kept.fades (kept : session.Kept settings) {fleet : Fleet} (fades : session.fleet.Fades fleet) :
    Kept settings { session with fleet } :=
  ⟨kept.sound.fades fades, kept.manned.fades fades, kept.coherent.mono fades.spec⟩

theorem Kept.begin (kept : session.Kept settings) (idle : session.pending = none)
    (fresh : session.Fresh mutation) (asked : Asked settings session.fleet mutation) :
    (session.begin mutation).Kept settings := by
  obtain ⟨_, _, _, _, _, demand, _, _, found, built, same⟩ := asked
  refine ⟨kept.sound.begin idle fresh, kept.manned.begin kept.sound idle fresh, ?_⟩
  exact (Demand.plan_inPlace (Demand.ofKey_planned found) kept.coherent built same fresh.keys).1

theorem Kept.goes (kept : session.Kept settings) (goes : Goes session later) : later.Kept settings := by
  refine ⟨kept.sound.goes goes, kept.manned.goes kept.sound goes, ?_⟩
  have grown := kept.coherent.mono fun id spec was => goes_spec goes was
  cases goes with
  | remove key removals next => exact grown.removeRoute key
  | _ => exact grown

theorem Kept.carries (kept : session.Kept settings) (carries : Carries session later) :
    later.Kept settings := by
  induction carries with
  | refl => exact kept
  | tail _ goes ih => exact ih.goes goes

theorem Reached.kept (reached : Reached settings session) : session.Kept settings := by
  induction reached with
  | new =>
    exact
      { sound := sound_new
        manned := manned_new
        coherent :=
          { keyed := fun _ _ hit => nomatch hit
            made := fun _ _ _ ⟨_, hit, _⟩ => nomatch hit } }
  | begin session mutation _ idle fresh asked ih => exact ih.begin idle fresh asked
  | goes session later _ goes ih => exact ih.goes goes

/-- How a change that a demand calls for begins: with new links, beside links and routes that are in
order. -/
theorem Kept.waits (kept : session.Kept settings) (namespaced : caches.Namespaced) (listed : index.Listed)
    {counted : IngressIndex} {demand : Demand}
    (found : Demand.ofKey caches index settings work.kind work.key = (counted, .ok demand)) {fleet : Fleet}
    (built : demand.build session.fleet = (fleet, some mutation)) {waiting : RouterSession}
    (waits : Carries { session with fleet } waiting) :
    waiting.Kept settings ∧ waiting.Fresh mutation ∧ Asked settings waiting.fleet mutation := by
  have fades := demand.build_fades session.fleet
  rw [built] at fades
  have keys := Demand.nodup_brought namespaced.ingresses listed found built
  have fresh := kept.sound.fresh fades keys (Demand.values_build built).2
  obtain ⟨handed, grown⟩ := carries_handed waits
  refine ⟨(kept.fades fades).carries waits, fresh.mono handed grown, ?_⟩
  exact ⟨_, _, _, _, _, _, _, _, found, built, fun id spec was => carries_spec waits was⟩

/-- When a key has been handled, what it calls for is in place, and the links of the routes it is about run
or have run since. -/
theorem Kept.handled (kept : session.Kept settings) (namespaced : caches.Namespaced) (listed : index.Listed)
    (handles : Handles settings caches index work session begun changes done) :
    done.Kept settings ∧ ∃ demand, (Demand.ofKey caches index settings work.kind work.key).2 = .ok demand ∧
      demand.InPlace done.routes done.fleet ∧ begun.fleet.Follows done.fleet ∧
      ∀ key ∈ demand.keys, ∀ rule id, Routes.Holds done.routes key rule id →
        Recent begun.fleet done id := by
  cases handles with
  | unconcerned placed counted demand found fleet built =>
    have fades := demand.build_fades session.fleet
    rw [built] at fades
    obtain rfl := Demand.nothing_of_build built
    exact ⟨kept.fades fades, .nothing, congrArg Prod.snd found, trivial, fades.follows,
      fun _ mem => nomatch mem⟩
  | changed placed counted demand found fleet mutation built _ waits idle _ carries complete =>
    obtain ⟨kept, fresh, asked⟩ := kept.waits namespaced listed found built waits
    obtain ⟨_, inPlace⟩ := Demand.plan_inPlace (Demand.ofKey_planned found) kept.coherent built
      (fun id spec was => carries_spec waits was) fresh.keys
    have last := Demand.build_last found built begun.fleet begun.routes
    have routes : done.routes = (mutation.plan begun.fleet begun.routes).routes :=
      (carries_routes carries fun pending next => by cases next; exact last).1
    have follows : (begun.begin mutation).fleet.Follows done.fleet := carries_follows carries
    refine ⟨(kept.begin idle fresh asked).carries carries, demand, congrArg Prod.snd found, ?_, follows, ?_⟩
    · exact routes ▸ inPlace.mono fun id spec was => carries_spec carries was
    · intro key mem rule id holds
      obtain ⟨_, moves⟩ := Routes.plan_moves begun.fleet kept.sound.distinct (kept.sound.apart fresh)
      rw [← Demand.keys_build built] at mem
      obtain ⟨route, brought, rfl⟩ := List.mem_map.1 mem
      have recent : id ∈ (begun.begin mutation).starts ∨ Recent begun.fleet (begun.begin mutation) id := by
        rw [routes] at holds
        exact (moves.runs route brought rule id holds).imp_right recent_of_started
      exact (Recent.carries (.refl _) recent carries).resolve_left (by simp [starts, complete])

/-- What does not concern the routes leaves every slot alone. -/
theorem carries_quiet (carries : Carries session later) (idle : session.pending = none) (id : LinkId) :
    later.fleet.slot? id = session.fleet.slot? id ∧ later.fleet.starts id = session.fleet.starts id :=
  carries_undisturbed carries (by simp [stops, idle]) (fun _ next => by cases idle.symm.trans next)
    (by simp [starts, idle])

/-- What handling a key does if all is in place. -/
theorem handled_inPlace {demand : Demand}
    (ok : (Demand.ofKey caches index settings work.kind work.key).2 = .ok demand)
    (inPlace : demand.InPlace session.routes session.fleet) (idle : session.pending = none)
    (handles : Handles settings caches index work session begun changes done) :
    done.routes = session.routes ∧ changes.stop = [] ∧
      (∀ id ∈ changes.start, (∃ key ∈ demand.keys, ∃ rule, Routes.Holds session.routes key rule id) ∧
        begun.fleet.isStarted id = false) ∧
      (∀ id, begun.fleet.slot? id = session.fleet.slot? id) ∧
      ∀ id ∉ changes.start, done.fleet.slot? id = session.fleet.slot? id ∧
        done.fleet.starts id = session.fleet.starts id := by
  cases handles with
  | unconcerned placed counted demand' found fleet built =>
    have fades := demand'.build_fades session.fleet
    rw [built] at fades
    refine ⟨rfl, rfl, fun id mem => ?_, fun _ => rfl, fun id _ => ⟨fades.slot id, fades.starts id⟩⟩
    cases mem
  | changed placed counted demand' found fleet mutation built _ waits free _ carries complete =>
    obtain rfl : demand' = demand := Except.ok.inj ((congrArg Prod.snd found).symm.trans ok)
    have fades := demand'.build_fades session.fleet
    rw [built] at fades
    have idle' : { session with fleet }.pending = none := idle
    have same : begun.routes = session.routes := (carries_idle waits idle').2
    have grown := inPlace.mono fun id spec was => carries_spec waits (fades.spec id spec was)
    have still := grown.still built fun id spec was => carries_spec waits was
    rw [← same, Demand.keys_build built] at still
    have last : ∀ pending, (begun.begin mutation).pending = some pending → pending.later = [] := by
      rintro _ ⟨⟩
      exact Demand.build_last found built begun.fleet begun.routes
    have slot (id : LinkId) : begun.fleet.slot? id = session.fleet.slot? id ∧
        begun.fleet.starts id = session.fleet.starts id := by
      obtain ⟨slot, starts⟩ := carries_quiet waits idle' id
      exact ⟨slot.trans (fades.slot id), starts.trans (fades.starts id)⟩
    refine ⟨?_, still.stop, same ▸ still.start, fun id => (slot id).1, fun id unstarted => ?_⟩
    · exact (carries_routes carries last).1.trans (still.routes.trans same)
    · obtain ⟨kept, starts⟩ := carries_undisturbed carries still.stop last unstarted
      exact ⟨kept.trans (slot id).1, starts.trans (slot id).2⟩

/-- **Handling a key again changes nothing.** The routes keep their links, and no link is stopped. One that
is started had a supervisor that ran when the first change began, or has run since, and has ended. No other
link gets a new supervisor or loses the one in its slot. -/
theorem handled_again {begun' rested later : RouterSession} {changes' : Changeover}
    (namespaced : caches.Namespaced) (listed : index.Listed) (reached : Reached settings session)
    (first : Handles settings caches index work session begun changes done) (idle : done.pending = none)
    (rests : Carries done rested)
    (again : Handles settings caches (Demand.ofKey caches index settings work.kind work.key).1 work rested
      begun' changes' later) :
    later.routes = done.routes ∧ changes'.stop = [] ∧
      (∀ id ∈ changes'.start, ∃ supervisor, done.fleet.slot? id = some supervisor ∧
        begun.fleet.Runs id supervisor ∧ begun'.fleet.alive id supervisor = false) ∧
      ∀ id ∉ changes'.start, later.fleet.slot? id = done.fleet.slot? id ∧
        later.fleet.starts id = done.fleet.starts id := by
  obtain ⟨rested_idle, rested_routes⟩ := carries_idle rests idle
  obtain ⟨kept, demand, ok, inPlace, follows, recent⟩ := reached.kept.handled namespaced listed first
  have counted := (Demand.ofKey_counted caches index settings work.kind work.key).trans ok
  have still := inPlace.mono fun id spec was => carries_spec rests was
  rw [← rested_routes] at still
  obtain ⟨routes, stop, start, slot, undisturbed⟩ := handled_inPlace counted still rested_idle again
  refine ⟨routes.trans rested_routes, stop, fun id mem => ?_, fun id unstarted => ?_⟩
  · obtain ⟨⟨key, listed, rule, holds⟩, stopped⟩ := start id mem
    have runs : Recent begun.fleet rested id := by
      rw [rested_routes] at holds
      have carried := Recent.carries follows (.inr (recent key listed rule id holds)) rests
      exact carried.resolve_left (by simp [starts, rested_idle])
    obtain ⟨supervisor, there⟩ : ∃ supervisor, rested.fleet.slot? id = some supervisor := by
      have manned := (kept.carries rests).manned id (Routes.mem_links_iff.2 ⟨key, rule, holds⟩)
      exact Option.isSome_iff_exists.1 (manned.resolve_right (by simp [starts, rested_idle]))
    refine ⟨supervisor, (carries_quiet rests idle id).1.symm.trans there, runs supervisor there, ?_⟩
    exact (Changeover.isStarted_eq_false ((slot id).trans there)).1 stopped
  · obtain ⟨slot, starts⟩ := undisturbed id unstarted
    obtain ⟨slot', starts'⟩ := carries_quiet rests idle id
    exact ⟨slot.trans slot', starts.trans starts'⟩

section

open ControlLoop (noSecrets siteIngress webEndpoints webService)

def siteCaches : Caches :=
  { Caches.empty with
    endpoints := Cache.empty.apply ⟨"web", some "shop"⟩ webEndpoints
    ingresses := Cache.empty.apply ⟨"site", some "shop"⟩ siteIngress
    services := Cache.empty.apply ⟨"web", some "shop"⟩ webService }

def siteIndex : IngressIndex :=
  (IngressIndex.new "argo-tunnel" noSecrets).upsert siteIngress

/-- The daemon of the site has exited by itself. -/
def exited : RouterSession :=
  { served with
    fleet := served.fleet.modify 0 fun link => ((link.launched 0).daemonEnded 0 .exited none).1 }

/-- The tunnel of a site exits by itself, and the site is handled again: a second link is made and not used,
and the first is started again. -/
theorem handled_again_exited :
    ∃ begun done rested begun' later changes,
      Handles {} siteCaches siteIndex ⟨.ingress, ⟨"shop", "site"⟩⟩ new begun ⟨[], [0]⟩ done ∧
      Carries done rested ∧ rested.fleet.isStarted 0 = false ∧
      Handles {} siteCaches siteIndex ⟨.ingress, ⟨"shop", "site"⟩⟩ rested begun' changes later ∧
      later.routes = done.routes ∧ changes = ⟨[], [0]⟩ ∧ begun'.fleet.alive 0 0 = false ∧
      later.fleet.isStarted 0 = true ∧ later.fleet.starts 1 = done.fleet.starts 1 := by
  have namespaced : siteCaches.Namespaced :=
    ⟨Watch.placed_empty.insert rfl rfl, Watch.placed_empty.insert rfl rfl, Watch.placed_empty,
      Watch.placed_empty.insert rfl rfl⟩
  have listed : siteIndex.Listed := (IngressIndex.listed_new _ _).upsert siteIngress
  have first : Handles {} siteCaches siteIndex ⟨.ingress, ⟨"shop", "site"⟩⟩ new _ _ served :=
    .changed rfl _ _ rfl _ _ rfl _ .refl rfl _ (.tail (.single (.start _ 0 [] [] rfl)) (.finish _ rfl)) rfl
  have rests : Carries served exited := (Relation.ReflTransGen.refl (r := Goes) (a := served))
    |>.tail (.act _ 0 _ _ rfl (.launch 0 _ rfl (.inl rfl)))
    |>.tail (.act _ 0 _ _ rfl (.ended 0 _ .exited none rfl rfl))
  have again : Handles {} siteCaches siteIndex ⟨.ingress, ⟨"shop", "site"⟩⟩ exited _ _ _ :=
    .changed rfl _ _ rfl _ _ rfl _ .refl rfl _ (.tail (.single (.start _ 0 [] [] rfl)) (.finish _ rfl)) rfl
  obtain ⟨routes, stop, start, others⟩ := handled_again namespaced listed .new first rfl rests again
  obtain ⟨supervisor, slot, _, ended⟩ := start 0 (by decide)
  cases slot
  exact ⟨_, _, _, _, _, _, first, rests, rfl, again, routes, rfl, ended, rfl, (others 1 (by decide)).2⟩

end

end RouterSession

end TunnelIngress
