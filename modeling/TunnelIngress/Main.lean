import TunnelIngress.Config.Environment

/-!
The command: takes the configuration from the environment and reports whether a controller can run
with it.
-/

namespace TunnelIngress.ControllerConfig

/-- What the command reports of a configuration, and whether a controller can run with it. -/
def report : Except ConfigError ControllerConfig → String × Bool
  | .ok config =>
    let standard : TunnelSettings := {}
    (s!"argot {standard.version} (ingress class '{config.ingressClass}')", true)
  | .error error => (s!"Error: Invalid configuration\n\nCaused by:\n    {error.message}", false)

end TunnelIngress.ControllerConfig

def main : IO UInt32 := do
  let settings ← TunnelIngress.ControllerConfig.variableNames.filterMapM fun name => do
    return (← IO.getEnv name).map (name, ·)
  let config := TunnelIngress.ControllerConfig.ofEnvironment fun name => settings.lookup name
  let (text, runs) := TunnelIngress.ControllerConfig.report config
  if runs then
    IO.println text
    return 0
  else
    IO.eprintln text
    return 1
