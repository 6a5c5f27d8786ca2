import TunnelIngress.Time.Duration

/-!
Settings of all tunnel links of a controller.
-/

namespace TunnelIngress

structure TunnelSettings where
  version : String := "0.1.0"
  repairDelaySecs : UInt64 := 20
  repairJitter : Float := 1.0
  tagLimit : UInt64 := 32
  metricsUpdateFreqSecs : UInt64 := 5
  cloudflaredPath : String := "cloudflared"
  certDir : String := "/tmp/argot"

namespace TunnelSettings

def repairDelay (settings : TunnelSettings) : Duration :=
  .ofSeconds settings.repairDelaySecs

def metricsUpdateFreq (settings : TunnelSettings) : Duration :=
  .ofSeconds settings.metricsUpdateFreqSecs

end TunnelSettings

end TunnelIngress
