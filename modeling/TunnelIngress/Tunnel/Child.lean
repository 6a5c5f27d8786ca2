import TunnelIngress.Control.Error
import TunnelIngress.Tunnel.Link

/-!
One run of the tunnel daemon as a child of the controller. The run writes the certificate to a file of
its own, starts the child, waits for its end or kills it, and removes the file whatever happened.
-/

namespace TunnelIngress

/-- Why the operating system refuses to make a directory or to start a child. -/
inductive SystemError where
  | notFound
  | permissionDenied
  | notADirectory
  | nulByte
deriving DecidableEq, Repr

def SystemError.text : SystemError → String
  | notFound => "No such file or directory (os error 2)"
  | permissionDenied => "Permission denied (os error 13)"
  | notADirectory => "Not a directory (os error 20)"
  | nulByte => "nul byte found in provided data"

/-- How a child ended: with a status of its own, or by a signal. -/
inductive ExitStatus where
  | code (value : UInt8)
  | signal (number : Nat)
deriving DecidableEq, Repr

namespace ExitStatus

def signalNames : List String :=
  ["", "SIGHUP", "SIGINT", "SIGQUIT", "SIGILL", "SIGTRAP", "SIGABRT", "SIGBUS", "SIGFPE", "SIGKILL",
   "SIGUSR1", "SIGSEGV", "SIGUSR2", "SIGPIPE", "SIGALRM", "SIGTERM", "SIGSTKFLT", "SIGCHLD",
   "SIGCONT", "SIGSTOP", "SIGTSTP", "SIGTTIN", "SIGTTOU", "SIGURG", "SIGXCPU", "SIGXFSZ",
   "SIGVTALRM", "SIGPROF", "SIGWINCH", "SIGIO", "SIGPWR", "SIGSYS"]

/-- The text of a status; a signal without a name is only numbered. -/
def text : ExitStatus → String
  | code value => s!"exit status: {value.toNat}"
  | signal number =>
    match signalNames[number]? with
    | some name => s!"signal: {number} ({name})"
    | none => s!"signal: {number}"

def outcome (status : ExitStatus) : Except DaemonError Unit :=
  if status = code 0 then .ok () else .error (.exited status.text)

end ExitStatus

/-- What a started child is given. -/
structure Invocation where
  arguments : List String
  version : String
  certificate : List UInt8
deriving DecidableEq

/-- The surroundings of a run: what the system refuses, and what the child does. -/
structure Surroundings where
  directory : String
  /-- Why that directory cannot be made, if it is so. -/
  directoryFault : Option SystemError := none
  /-- Why the program cannot be run, if it is so. -/
  programFault : Option SystemError := none
  /-- How the child ends by itself; without that it runs until it is killed. -/
  ending : Option ExitStatus := none
  /-- Whether the child removes its certificate file. -/
  removesCertificate : Bool := false

namespace Surroundings

/-- Where the certificate of a launch is written, a file in the directory of certificates. -/
def certificatePath (around : Surroundings) (launch : Launch) : String :=
  let file := launch.clientId ++ ".pem"
  if around.directory.isEmpty || around.directory.endsWith "/" then
    around.directory ++ file
  else
    around.directory ++ "/" ++ file

/-- The child's invocation, or why there is no child. No text that a child is given may hold a NUL. -/
def invoke (around : Surroundings) (launch : Launch) : Except DaemonError Invocation :=
  match around.directoryFault with
  | some fault => .error (.io fault.text)
  | none =>
    let arguments := launch.arguments (around.certificatePath launch)
    if (launch.version :: arguments).any (·.contains '\x00') then
      .error (.spawn SystemError.nulByte.text)
    else
      match around.programFault with
      | some fault => .error (.spawn fault.text)
      | none => .ok { arguments, version := launch.version, certificate := launch.originCert }

end Surroundings

/-- A run of the child seen from its end. -/
structure ChildRun where
  invocation : Option Invocation
  outcome : Except DaemonError Unit
  /-- For a child that had to be killed: the link and whether the certificate was there while it
  ran. -/
  running : Option (Link × Bool)
  link : Link
  /-- Whether there is a directory for certificates. -/
  directory : Bool
  certificateLeft : Bool

/-- Runs the child of a link once. It connects as soon as it is started. The link takes a failure for
an exit, so that there is no other run. -/
def ChildRun.of (around : Surroundings) (spec : LinkSpec) (launch : Launch) : ChildRun :=
  let launched := (Link.new spec).start.1.launched 0
  let ended := fun (link : Link) => (link.daemonEnded 0 .exited none).1
  let directory := around.directoryFault.isNone
  match around.invoke launch with
  | .error error =>
    { invocation := none
      outcome := .error error
      running := none
      link := ended launched
      directory
      certificateLeft := false }
  | .ok invocation =>
    let connected := launched.connected
    { invocation := some invocation
      outcome := (around.ending.map (·.outcome)).getD (.ok ())
      running := if around.ending.isNone then some (connected, !around.removesCertificate) else none
      link := ended connected
      directory
      certificateLeft := false }

end TunnelIngress
