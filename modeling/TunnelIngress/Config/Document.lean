import TunnelIngress.Config.Basic
import TunnelIngress.Json.Basic

/-!
Settings and configurations from documents. A missing field leaves its default, unknown fields are
ignored, and a field of the wrong type makes the document unreadable. A list stands for the fields in
their order.
-/

namespace TunnelIngress.Json

/-- A document as a record of the named fields. -/
def named? (names : List String) : Json → Option Json
  | .record fields => some (.record fields)
  | .list items => if items.length ≤ names.length then some (.record (names.zip items)) else none
  | _ => none

def fieldOr {α : Type} (doc : Json) (name : String) (read : Json → Option α) (default : α) :
    Option α :=
  match doc.field? name with
  | none => some default
  | some value => read value

def asText? : Json → Option String
  | .text s => some s
  | _ => none

def asBool? : Json → Option Bool
  | .bool b => some b
  | _ => none

def asWord? (bound : Nat) : Json → Option Nat
  | .number n => n.toNat?.filter (· < bound)
  | _ => none

def asWord64? (doc : Json) : Option UInt64 :=
  (doc.asWord? UInt64.size).map UInt64.ofNat

def asWord32? (doc : Json) : Option UInt32 :=
  (doc.asWord? UInt32.size).map UInt32.ofNat

def asFloat? : Json → Option Float
  | .number n => some n.toFloat
  | _ => none

def orNull {α : Type} (read : Json → Option α) : Json → Option (Option α)
  | .null => some none
  | doc => (read doc).map some

def asTexts? : Json → Option (Table String String)
  | .record fields => do
    return .ofList (← fields.mapM fun field => (asText? field.2).map (field.1, ·))
  | _ => none

end TunnelIngress.Json

namespace TunnelIngress

open Json

def TunnelSettings.ofDocument? (doc : Json) : Option TunnelSettings := do
  let doc ← doc.named? ["version", "repair_delay_secs", "repair_jitter", "tag_limit",
    "metrics_update_freq_secs", "cloudflared_path", "cert_dir"]
  let defaults : TunnelSettings := {}
  return {
    version := ← doc.fieldOr "version" asText? defaults.version
    repairDelaySecs := ← doc.fieldOr "repair_delay_secs" asWord64? defaults.repairDelaySecs
    repairJitter := ← doc.fieldOr "repair_jitter" asFloat? defaults.repairJitter
    tagLimit := ← doc.fieldOr "tag_limit" asWord64? defaults.tagLimit
    metricsUpdateFreqSecs :=
      ← doc.fieldOr "metrics_update_freq_secs" asWord64? defaults.metricsUpdateFreqSecs
    cloudflaredPath := ← doc.fieldOr "cloudflared_path" asText? defaults.cloudflaredPath
    certDir := ← doc.fieldOr "cert_dir" asText? defaults.certDir }

def ControllerConfig.ofDocument? (doc : Json) : Option ControllerConfig := do
  let doc ← doc.named? ["ingress_class", "watch_namespace", "resync_period_secs", "requeue_limit",
    "workers", "default_secret", "secret_overrides", "filter_services", "tunnel"]
  let defaults : ControllerConfig := {}
  return {
    ingressClass := ← doc.fieldOr "ingress_class" asText? defaults.ingressClass
    watchNamespace := ← doc.fieldOr "watch_namespace" (orNull asText?) defaults.watchNamespace
    resyncPeriodSecs := ← doc.fieldOr "resync_period_secs" asWord64? defaults.resyncPeriodSecs
    requeueLimit := ← doc.fieldOr "requeue_limit" asWord32? defaults.requeueLimit
    workers := ← doc.fieldOr "workers" asWord64? defaults.workers
    defaultSecret := ← doc.fieldOr "default_secret" (orNull asText?) defaults.defaultSecret
    secretOverrides := ← doc.fieldOr "secret_overrides" asTexts? defaults.secretOverrides
    filterServices := ← doc.fieldOr "filter_services" asBool? defaults.filterServices
    tunnel := ← doc.fieldOr "tunnel" TunnelSettings.ofDocument? defaults.tunnel }

end TunnelIngress
