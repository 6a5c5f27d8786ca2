import TunnelIngress.Decimal.Integer
import TunnelIngress.Text.Blank
import TunnelIngress.Text.Flag
import TunnelIngress.Time.Phrase

/-!
Options of a tunnel, taken from the annotations of its ingress. A missing annotation and one that does
not read leave the default in place.
-/

namespace TunnelIngress

structure TunnelOptions where
  compressionQuality : UInt64 := 0
  haConnections : Int32 := 4
  heartbeatCount : UInt64 := 5
  heartbeatInterval : Duration := .ofSeconds 5
  lbPool : String := ""
  noChunkedEncoding : Bool := false
  retries : UInt32 := 3
  gracePeriod : Duration := .zero
  tags : String := ""
deriving DecidableEq

namespace TunnelOptions

def optionKey (name : String) : String :=
  "argo.cloudflare.com/" ++ name

/-- The value that an annotation's trimmed text reads as. -/
def valueOr {α : Type} (read : String → Option α) (raw : Option String) (default : α) : α :=
  (raw.bind fun text => read (Text.trim text)).getD default

/-- The duration of an annotation. A phrase beyond the range of durations is a fault, not a default. -/
def durationOr (raw : Option String) (default : Duration) : Except Phrase.Fault Duration :=
  match raw.map fun text => Phrase.read (Text.trim text) with
  | none => .ok default
  | some (.ok value) => .ok value
  | some (.error .malformed) => .ok default
  | some (.error .beyondRange) => .error .beyondRange

def ofAnnotations (annotations : List (String × String)) : Except Phrase.Fault TunnelOptions := do
  let get name := annotations.lookup (optionKey name)
  let defaults : TunnelOptions := {}
  let heartbeatInterval ← durationOr (get "heartbeat-interval") defaults.heartbeatInterval
  let gracePeriod ← durationOr (get "grace-period") defaults.gracePeriod
  return {
    compressionQuality :=
      valueOr Decimal.word64? (get "compression-quality") defaults.compressionQuality
    haConnections := valueOr Decimal.int32? (get "ha-connections") defaults.haConnections
    heartbeatCount := valueOr Decimal.word64? (get "heartbeat-count") defaults.heartbeatCount
    heartbeatInterval
    lbPool := (get "lb-pool").getD defaults.lbPool
    noChunkedEncoding :=
      ((get "no-chunked-encoding").bind Text.flag?).getD defaults.noChunkedEncoding
    retries := valueOr Decimal.word32? (get "retries") defaults.retries
    gracePeriod
    tags := (get "tag").getD defaults.tags }

end TunnelOptions

end TunnelIngress
