import TunnelIngress.Proofs.Tunnel.RouterSession

/-!
# Changes carried out in one go

A change is begun and carried on over all its links at once. That comes to the same as going through
them one by one, so what holds of every order of single steps holds of it.
-/

namespace TunnelIngress

namespace RouterSession

/-- A network whose change has come as far as its progress says. -/
def midway (network : Network) (handed : List LinkId) (progress : Mutation.Progress) : RouterSession :=
  { fleet := network.fleet
    routes := network.routes
    handed
    pending := some ⟨[], progress.stopping, progress.start, progress.later⟩ }

variable (handed : List LinkId)

theorem beginStops_carries (network : Network) (links start : List LinkId) (later : List ResourceKey) :
    Carries ⟨network.fleet, network.routes, handed, some ⟨links, [], start, later⟩⟩
      (.midway (network.beginStops links).1 handed ⟨(network.beginStops links).2, start, later⟩) := by
  suffices general : ∀ (done : Network × List (LinkId × Nat)),
      let stopped := links.foldl
        (fun (done : Network × List (LinkId × Nat)) id =>
          ({ done.1 with fleet := (done.1.fleet.beginStop id).1 },
            done.2 ++ ((done.1.fleet.beginStop id).2.map (id, ·)).toList)) done
      Carries ⟨done.1.fleet, done.1.routes, handed, some ⟨links, done.2, start, later⟩⟩
        (.midway stopped.1 handed ⟨stopped.2, start, later⟩) from general (network, [])
  induction links with
  | nil => exact fun done => .refl
  | cons id rest ih =>
    intro done
    have carries := ih ({ done.1 with fleet := (done.1.fleet.beginStop id).1 },
      done.2 ++ ((done.1.fleet.beginStop id).2.map (id, ·)).toList)
    exact .head (.stop _ id ⟨rest, done.2, start, later⟩ rfl) carries

theorem endStops_carries (network : Network) (stopping : List (LinkId × Nat)) (start : List LinkId)
    (later : List ResourceKey) :
    Carries (.midway network handed ⟨stopping, start, later⟩)
      (.midway (network.endStops stopping).1 handed ⟨(network.endStops stopping).2.1, start, later⟩) := by
  -- Supervisors that had ended at the start still have when their stop comes to its end.
  suffices general : ∀ (alive : LinkId × Nat → Bool) (done : Network × Network.Effects)
      (kept : List (LinkId × Nat)),
      (∀ stop, alive stop = false → done.1.fleet.alive stop.1 stop.2 = false) →
      Carries (.midway done.1 handed ⟨kept ++ stopping, start, later⟩)
        (.midway ((stopping.filter fun stop => !alive stop).foldl
            (fun (done : Network × Network.Effects) stop =>
              ({ done.1 with fleet := (done.1.fleet.endStop stop.1).1 },
                done.2 ++ ⟨[], (done.1.fleet.endStop stop.1).2⟩)) done).1
          handed ⟨kept ++ stopping.filter alive, start, later⟩) by
    have carries := general (fun stop => network.fleet.alive stop.1 stop.2) (network, .none) []
      fun _ ended => ended
    simpa [Network.endStops, List.partition_eq_filter_filter, Function.comp_def] using carries
  induction stopping with
  | nil => exact fun alive done kept _ => .refl
  | cons stop rest ih =>
    intro alive done kept ended
    cases living : alive stop with
    | true =>
      have carries := ih alive done (kept ++ [stop]) ended
      simpa [living] using carries
    | false =>
      have fades := done.1.fleet.fades_endStop stop.1
      have ended' : ∀ other, alive other = false →
          (done.1.fleet.endStop stop.1).1.alive other.1 other.2 = false := by
        intro other gone
        have was := ended other gone
        rw [Bool.eq_false_iff] at was ⊢
        exact fun now => was (fades.alive _ _ now)
      have carries := ih alive ({ done.1 with fleet := (done.1.fleet.endStop stop.1).1 },
        done.2 ++ ⟨[], (done.1.fleet.endStop stop.1).2⟩) kept ended'
      have gone : (stop :: rest).filter (fun stop => !alive stop) =
          stop :: rest.filter fun stop => !alive stop := by simp [living]
      have left : (stop :: rest).filter alive = rest.filter alive := by simp [living]
      rw [gone, left]
      exact .head (.stopped _ stop.1 stop.2 ⟨[], [], start, later⟩ kept rest rfl (ended stop living))
        carries

theorem startLinks_carries (network : Network) (links : List LinkId) (later : List ResourceKey) :
    Carries (.midway network handed ⟨[], links, later⟩)
      (.midway (network.startLinks links).1 handed ⟨[], [], later⟩) := by
  suffices general : ∀ (done : Network × Network.Effects),
      Carries (.midway done.1 handed ⟨[], links, later⟩)
        (.midway (links.foldl
          (fun (done : Network × Network.Effects) id =>
            ({ done.1 with fleet := (done.1.fleet.start id).1 },
              done.2 ++ ⟨((done.1.fleet.start id).2.1.map (id, ·)).toList,
                (done.1.fleet.start id).2.2⟩)) done).1
          handed ⟨[], [], later⟩) from general (network, .none)
  induction links with
  | nil => exact fun done => .refl
  | cons id rest ih =>
    intro done
    have carries := ih ({ done.1 with fleet := (done.1.fleet.start id).1 },
      done.2 ++ ⟨((done.1.fleet.start id).2.1.map (id, ·)).toList, (done.1.fleet.start id).2.2⟩)
    exact .head (.start _ id rest later rfl) carries

theorem removeRoutes_carries (network : Network) (keys : List ResourceKey) :
    Carries (.midway network handed ⟨[], [], keys⟩)
      (.midway (network.removeRoutes keys).1 handed (network.removeRoutes keys).2.1) := by
  induction keys generalizing network with
  | nil => exact .refl
  | cons key rest ih =>
    have stopped := beginStops_carries handed
      { network with routes := (Routes.removeRoute network.routes key).1 }
      (Routes.removeRoute network.routes key).2.stop [] rest
    have removed : Carries (.midway network handed ⟨[], [], key :: rest⟩)
        (.midway (network.removeRoute key).1 handed ⟨(network.removeRoute key).2, [], rest⟩) :=
      .head (.remove _ key rest rfl) stopped
    have ended := removed.trans (endStops_carries handed (network.removeRoute key).1
      (network.removeRoute key).2 [] rest)
    rw [Network.removeRoutes]
    cases waits : ((network.removeRoute key).1.endStops (network.removeRoute key).2).2.1 with
    | nil =>
      rw [waits] at ended
      simpa [waits] using ended.trans (ih _)
    | cons stop more => simpa [waits] using ended

theorem begin_carries (network : Network) (mutation : Mutation) :
    Carries (RouterSession.begin ⟨network.fleet, network.routes, handed, none⟩ mutation)
      (.midway (network.begin mutation).1
        (handed ++ mutation.brought.flatMap (·.links.values)) (network.begin mutation).2) :=
  beginStops_carries _ { network with routes := (mutation.plan network.fleet network.routes).routes } _ _ _

/-- **Carrying a change on in one go is a run of single steps.** A change that is done then comes to
its end. -/
theorem advance_carries (network : Network) (progress : Mutation.Progress) :
    Carries (.midway network handed progress)
      (.midway (network.advance progress).1 handed (network.advance progress).2.1) := by
  have ended := endStops_carries handed network progress.stopping progress.start
    progress.later
  rw [Network.advance]
  cases waits : (network.endStops progress.stopping).2.1 with
  | nil =>
    rw [waits] at ended
    have started := ended.trans (startLinks_carries handed _ progress.start progress.later)
    simpa [waits] using started.trans (removeRoutes_carries handed _ progress.later)
  | cons stop more => simpa [waits] using ended

end RouterSession

end TunnelIngress
