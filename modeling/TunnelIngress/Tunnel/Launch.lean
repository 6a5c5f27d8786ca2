import TunnelIngress.Config.Settings
import TunnelIngress.Tunnel.Options
import TunnelIngress.Tunnel.Rule
import TunnelIngress.Tunnel.Tag

/-!
What a tunnel link is made of, and what one launch of its daemon is told.
-/

namespace TunnelIngress

/-- The desired tunnel of one rule: certificate, options and the tags that the options list. -/
structure LinkSpec where
  rule : Rule
  certificate : List UInt8
  options : TunnelOptions
  tags : List Tag
deriving DecidableEq

namespace LinkSpec

def new (settings : TunnelSettings) (rule : Rule) (certificate : List UInt8)
    (options : TunnelOptions) : LinkSpec :=
  { rule, certificate, options, tags := Tag.readList options.tags settings.tagLimit.toNat }

def host (spec : LinkSpec) : String :=
  spec.rule.host

def origin (spec : LinkSpec) : String :=
  spec.rule.origin

/-- Two tunnels are the same when host, origin, options and certificate are. -/
def same (a b : LinkSpec) : Bool :=
  a.host == b.host && a.origin == b.origin && a.options == b.options &&
    a.certificate == b.certificate

end LinkSpec

structure Launch where
  hostname : String
  originUrl : String
  originCert : List UInt8
  haConnections : Int32
  heartbeatInterval : Duration
  heartbeatCount : UInt64
  compressionQuality : UInt64
  retries : UInt32
  gracePeriod : Duration
  lbPool : String
  noChunkedEncoding : Bool
  tags : List Tag
  version : String
  metricsUpdateFreq : Duration
  clientId : String
deriving DecidableEq

def LinkSpec.launch (spec : LinkSpec) (settings : TunnelSettings) (clientId : String) : Launch :=
  { hostname := spec.host
    originUrl := spec.origin
    originCert := spec.certificate
    haConnections := spec.options.haConnections
    heartbeatInterval := spec.options.heartbeatInterval
    heartbeatCount := spec.options.heartbeatCount
    compressionQuality := spec.options.compressionQuality
    retries := spec.options.retries
    gracePeriod := spec.options.gracePeriod
    lbPool := spec.options.lbPool
    noChunkedEncoding := spec.options.noChunkedEncoding
    tags := spec.tags
    version := settings.version
    metricsUpdateFreq := settings.metricsUpdateFreq
    clientId }

namespace Launch

def millis (d : Duration) : String :=
  toString d.wholeMillis ++ "ms"

/-- The command line of the daemon: the fixed flags, then those that are set. -/
def arguments (launch : Launch) (certPath : String) : List String :=
  ["tunnel", "--no-autoupdate",
   "--hostname", launch.hostname,
   "--url", launch.originUrl,
   "--origincert", certPath,
   "--ha-connections", toString launch.haConnections.toInt,
   "--heartbeat-interval", millis launch.heartbeatInterval,
   "--heartbeat-count", toString launch.heartbeatCount.toNat,
   "--compression-quality", toString launch.compressionQuality.toNat,
   "--retries", toString launch.retries.toNat,
   "--grace-period", millis launch.gracePeriod,
   "--metrics-update-freq", millis launch.metricsUpdateFreq] ++
    (if launch.lbPool.isEmpty then [] else ["--lb-pool", launch.lbPool]) ++
    (if launch.noChunkedEncoding then ["--no-chunked-encoding"] else []) ++
    launch.tags.flatMap fun tag => ["--tag", tag.text]

end Launch

end TunnelIngress
