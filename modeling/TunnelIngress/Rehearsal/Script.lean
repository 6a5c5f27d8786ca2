import TunnelIngress.Tunnel.Link

/-!
Scripts for rehearsals: what a stand-in for the tunnel daemon does in each of its runs.
-/

namespace TunnelIngress

/-- How a run goes on after the connection: until it is told to stop, or to an end of its own. The
kinds of panic differ in what they carry. -/
inductive ScriptedEnd where
  | run
  | exit
  | error
  | panic (form : String)
deriving DecidableEq, Repr

def ScriptedEnd.text : ScriptedEnd → String
  | run => "run"
  | exit => "exit"
  | error => "err"
  | panic form => form

def ScriptedEnd.outcome : ScriptedEnd → DaemonOutcome
  | exit => .exited
  | _ => .failed

/-- One run of the stand-in; all times are in milliseconds. -/
structure DaemonScript where
  /-- When it signals its connection, if ever. -/
  connect : Option Nat := some 0
  ending : ScriptedEnd := .run
  /-- How long after that it comes to its end. -/
  after : Nat := 0
  /-- When a signal of its connection arrives late, whatever has happened since. -/
  late : Option Nat := none
  /-- How long it takes to stop when told to. -/
  stop : Nat := 0
deriving DecidableEq, Repr

/-- The script of a run, counted from one: the last script serves all further runs. -/
def DaemonScript.forRun (scripts : List DaemonScript) (run : Nat) : DaemonScript :=
  (scripts[run - 1]?.or scripts.getLast?).getD {}

end TunnelIngress
