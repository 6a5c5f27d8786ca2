import TunnelIngress.Tunnel.Link

/-!
All links that were ever made, each known by its place in the order of making.
-/

namespace TunnelIngress

abbrev LinkId : Type :=
  Nat

structure Fleet where
  links : List Link
deriving DecidableEq

namespace Fleet

def empty : Fleet :=
  ⟨[]⟩

def get? (fleet : Fleet) (id : LinkId) : Option Link :=
  fleet.links[id]?

def add (fleet : Fleet) (spec : LinkSpec) : Fleet × LinkId :=
  (⟨fleet.links ++ [.new spec]⟩, fleet.links.length)

def modify (fleet : Fleet) (id : LinkId) (change : Link → Link) : Fleet :=
  ⟨fleet.links.modify id change⟩

def isStarted (fleet : Fleet) (id : LinkId) : Bool :=
  (fleet.get? id).any (·.isStarted)

def alive (fleet : Fleet) (id : LinkId) (supervisor : Nat) : Bool :=
  (fleet.get? id).any (·.alive supervisor)

/-- Starts a link; returns the supervisor it got, unless it had a live one, and what was observed. -/
def start (fleet : Fleet) (id : LinkId) : Fleet × Option Nat × List Observation :=
  match fleet.get? id with
  | none => (fleet, none, [])
  | some link =>
    let (started, spawned, seen) := link.start
    (fleet.modify id fun _ => started, spawned, seen)

/-- Begins to stop a link; returns the supervisor that has to end for it. -/
def beginStop (fleet : Fleet) (id : LinkId) : Fleet × Option Nat :=
  match fleet.get? id with
  | none => (fleet, none)
  | some link =>
    let (stopped, taken) := link.beginStop
    (fleet.modify id fun _ => stopped, taken)

def endStop (fleet : Fleet) (id : LinkId) : Fleet × List Observation :=
  match fleet.get? id with
  | none => (fleet, [])
  | some link =>
    let (stopped, seen) := link.endStop
    (fleet.modify id fun _ => stopped, seen)

def same (fleet : Fleet) (a b : LinkId) : Bool :=
  match fleet.get? a, fleet.get? b with
  | some x, some y => x.spec.same y.spec
  | _, _ => false

end Fleet

end TunnelIngress
