/-!
Virtual time: what is to happen now, in order, and what is due later. Time stands still while
something is to happen now. What is due at the same time happens in the order it was planned in.
-/

namespace TunnelIngress

structure Agenda (ε : Type) where
  /-- Milliseconds since the start. -/
  now : Nat
  ready : List ε
  /-- Due times with what is due, in order. -/
  planned : List (Nat × ε)

namespace Agenda

variable {ε : Type}

def start : Agenda ε :=
  { now := 0, ready := [], planned := [] }

/-- Puts an event before all else that is to happen now. -/
def postFirst (agenda : Agenda ε) (event : ε) : Agenda ε :=
  { agenda with ready := event :: agenda.ready }

def post (agenda : Agenda ε) (event : ε) : Agenda ε :=
  { agenda with ready := agenda.ready ++ [event] }

def insertDue (due : Nat) (event : ε) : List (Nat × ε) → List (Nat × ε)
  | [] => [(due, event)]
  | other :: rest =>
    if other.1 ≤ due then other :: insertDue due event rest else (due, event) :: other :: rest

/-- Plans an event for a time; one that has come already is to happen now. -/
def planAt (agenda : Agenda ε) (due : Nat) (event : ε) : Agenda ε :=
  if due ≤ agenda.now then
    agenda.post event
  else
    { agenda with planned := insertDue due event agenda.planned }

def plan (agenda : Agenda ε) (delay : Nat) (event : ε) : Agenda ε :=
  agenda.planAt (agenda.now + delay) event

def next? (agenda : Agenda ε) : Option (ε × Agenda ε) :=
  match agenda.ready with
  | [] => none
  | event :: rest => some (event, { agenda with ready := rest })

/-- When time has to pass for something to happen. -/
def nextDue? (agenda : Agenda ε) : Option Nat :=
  agenda.planned.head?.map (·.1)

/-- Lets time pass up to a moment; everything due by then is to happen now. -/
def passTo (agenda : Agenda ε) (time : Nat) : Agenda ε :=
  { now := max agenda.now time
    ready := agenda.ready ++ (agenda.planned.takeWhile (·.1 ≤ time)).map (·.2)
    planned := agenda.planned.dropWhile (·.1 ≤ time) }

end Agenda

end TunnelIngress
