import TunnelIngress.Json.Basic
import TunnelIngress.Kubernetes.Object
import TunnelIngress.Table
import TunnelIngress.Text.Base64

/-!
Cluster objects from documents. An absent or null field is absent, unknown fields are ignored, and a
field of the wrong type makes the object undecodable. A field that the cluster's interface requires
takes its empty value when it is absent.
-/

namespace TunnelIngress.Kubernetes

def text? : Json → Option String
  | .text s => some s
  | _ => none

def int32? : Json → Option Int32
  | .number n => (n.toInt?.filter fun i => Int32.minValue.toInt ≤ i && i ≤ Int32.maxValue.toInt).map Int32.ofInt
  | _ => none

def list? {α : Type} (read : Json → Option α) : Json → Option (List α)
  | .list items => items.mapM read
  | _ => none

/-- A map in ascending order of its keys. -/
def map? {α : Type} (read : Json → Option α) : Json → Option (List (String × α))
  | .record fields => do
    let entries ← fields.mapM fun field => (read field.2).map (field.1, ·)
    return (Table.ofList entries).sorted
  | _ => none

def isRecord : Json → Bool
  | .record _ => true
  | _ => false

def optional? {α : Type} (doc : Json) (name : String) (read : Json → Option α) :
    Option (Option α) :=
  match doc.present? name with
  | none => some none
  | some value => (read value).map some

/-- A field that takes an empty value when it is absent. -/
def required? {α : Type} (doc : Json) (name : String) (read : Json → Option α) (empty : α) :
    Option α :=
  (optional? doc name read).map (·.getD empty)

def record? {α : Type} (read : Json → Option α) (doc : Json) : Option α :=
  if isRecord doc then read doc else none

/-- A declared version and kind must be the right ones. -/
def declared? (doc : Json) (version kind : String) : Option Unit := do
  match doc.field? "apiVersion" with
  | none => pure ()
  | some value => guard ((← text? value) = version)
  match doc.field? "kind" with
  | none => pure ()
  | some value => guard ((← text? value) = kind)

def metadata? : Json → Option Metadata :=
  record? fun doc => do
    return {
      name := ← optional? doc "name" text?
      ns := ← optional? doc "namespace" text?
      annotations := ← optional? doc "annotations" (map? text?)
      labels := ← optional? doc "labels" (map? text?)
      resourceVersion := ← optional? doc "resourceVersion" text?
      uid := ← optional? doc "uid" text? }

def metadataOf? (doc : Json) : Option Metadata :=
  required? doc "metadata" metadata? {}

def backendPort? : Json → Option BackendPort :=
  record? fun doc => do
    return { name := ← optional? doc "name" text?, number := ← optional? doc "number" int32? }

def backendService? : Json → Option BackendService :=
  record? fun doc => do
    return { name := ← required? doc "name" text? "", port := ← optional? doc "port" backendPort? }

def backendResource? : Json → Option BackendResource :=
  record? fun doc => do
    return { kind := ← required? doc "kind" text? "", name := ← required? doc "name" text? "" }

def backend? : Json → Option Backend :=
  record? fun doc => do
    return {
      service := ← optional? doc "service" backendService?
      resource := ← optional? doc "resource" backendResource? }

def httpPath? : Json → Option HttpPath :=
  record? fun doc => do
    return {
      path := ← optional? doc "path" text?
      pathType := ← required? doc "pathType" text? ""
      backend := ← required? doc "backend" backend? {} }

def http? : Json → Option (List HttpPath) :=
  record? fun doc => required? doc "paths" (list? httpPath?) []

def ingressRule? : Json → Option IngressRule :=
  record? fun doc => do
    return { host := ← optional? doc "host" text?, paths := ← optional? doc "http" http? }

def ingressTls? : Json → Option IngressTls :=
  record? fun doc => do
    return {
      hosts := ← optional? doc "hosts" (list? text?)
      secretName := ← optional? doc "secretName" text? }

def ingressSpec? : Json → Option IngressSpec :=
  record? fun doc => do
    return {
      className := ← optional? doc "ingressClassName" text?
      rules := ← optional? doc "rules" (list? ingressRule?)
      tls := ← optional? doc "tls" (list? ingressTls?) }

def servicePort? : Json → Option ServicePort :=
  record? fun doc => do
    return { name := ← optional? doc "name" text?, port := ← required? doc "port" int32? 0 }

def servicePorts? : Json → Option (Option (List ServicePort)) :=
  record? fun doc => optional? doc "ports" (list? servicePort?)

def address? : Json → Option String :=
  record? fun doc => required? doc "ip" text? ""

def subset? : Json → Option (Option (List String)) :=
  record? fun doc => optional? doc "addresses" (list? address?)

/-- Bytes of a secret; null stands for none. -/
def bytes? : Json → Option (List UInt8)
  | .null => some []
  | .text s => Text.ofBase64? s
  | _ => none

end TunnelIngress.Kubernetes

namespace TunnelIngress

open Kubernetes

def Ingress.ofDocument? : Json → Option Ingress :=
  record? fun doc => do
    declared? doc "networking.k8s.io/v1" "Ingress"
    return {
      metadata := ← metadataOf? doc
      spec := ← optional? doc "spec" ingressSpec?
      hasStatus := (← optional? doc "status" (record? fun _ => some ())).isSome }

def Service.ofDocument? : Json → Option Service :=
  record? fun doc => do
    declared? doc "v1" "Service"
    return { metadata := ← metadataOf? doc, spec := ← optional? doc "spec" servicePorts? }

def Endpoints.ofDocument? : Json → Option Endpoints :=
  record? fun doc => do
    declared? doc "v1" "Endpoints"
    return { metadata := ← metadataOf? doc, subsets := ← optional? doc "subsets" (list? subset?) }

def Secret.ofDocument? : Json → Option Secret :=
  record? fun doc => do
    declared? doc "v1" "Secret"
    return {
      metadata := ← metadataOf? doc
      data := ← optional? doc "data" (map? bytes?)
      stringData := ← optional? doc "stringData" (map? text?) }

def AnyObject.ofDocument? (kind : Kind) (doc : Json) : Option AnyObject :=
  match kind with
  | .endpoint => (Endpoints.ofDocument? doc).map .endpoint
  | .ingress => (Ingress.ofDocument? doc).map .ingress
  | .secret => (Secret.ofDocument? doc).map .secret
  | .service => (Service.ofDocument? doc).map .service

end TunnelIngress
