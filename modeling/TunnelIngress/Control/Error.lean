import TunnelIngress.Config.Basic

/-!
How a tunnel daemon and a controller fail, and how each failure reads.
-/

namespace TunnelIngress

/-- Why a run of a daemon failed. -/
inductive DaemonError where
  | spawn (cause : String)
  | exited (status : String)
  | panicked (text : String)
  | io (cause : String)
deriving DecidableEq, Repr

def DaemonError.message : DaemonError → String
  | spawn cause => s!"failed to launch tunnel daemon: {cause}"
  | exited status => s!"tunnel daemon exited: {status}"
  | panicked text => s!"tunnel daemon panicked: {text}"
  | io cause => s!"IO error: {cause}"

/-- Why a controller stopped by itself. -/
inductive ControllerError where
  | cacheSync (cause : String)
  | config (cause : ConfigError)
deriving DecidableEq, Repr

def ControllerError.message : ControllerError → String
  | cacheSync cause => s!"Cache sync failed: {cause}"
  | config cause => s!"Configuration error: {cause.message}"

/-- Why a work key cannot be handled. -/
inductive HandlingError where
  | missingNamespace (kind : Kind) (key : ResourceKey)
deriving DecidableEq, Repr

def HandlingError.message : HandlingError → String
  | missingNamespace kind key => s!"{kind.name} key '{key.text}' has no namespace"

end TunnelIngress
