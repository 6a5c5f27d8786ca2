import TunnelIngress.Config.Basic
import TunnelIngress.Config.Document
import TunnelIngress.Config.Environment
import TunnelIngress.Config.Settings
import TunnelIngress.Control.Error
import TunnelIngress.Control.Metrics
import TunnelIngress.Control.RateLimiter
import TunnelIngress.Control.TokenBucket
import TunnelIngress.Control.Wakeup
import TunnelIngress.Control.WorkQueue
import TunnelIngress.Decimal.Binary64
import TunnelIngress.Decimal.Integer
import TunnelIngress.Decimal.Power
import TunnelIngress.Decimal.Reading
import TunnelIngress.Decimal.Shortest
import TunnelIngress.Ingress.Admission
import TunnelIngress.Ingress.Cache
import TunnelIngress.Ingress.Demand
import TunnelIngress.Ingress.Dependencies
import TunnelIngress.Ingress.Index
import TunnelIngress.Ingress.RoutePlan
import TunnelIngress.Ingress.SecretResolver
import TunnelIngress.Ingress.Watch
import TunnelIngress.Ingress.Watches
import TunnelIngress.Json.Basic
import TunnelIngress.Json.Reader
import TunnelIngress.Json.Writer
import TunnelIngress.Kubernetes.Decoding
import TunnelIngress.Kubernetes.Object
import TunnelIngress.Main
import TunnelIngress.Proofs.Control.ControlLoop
import TunnelIngress.Proofs.Control.Convergence
import TunnelIngress.Proofs.Control.DeletedDependencies
import TunnelIngress.Proofs.Control.DeletedRoutes
import TunnelIngress.Proofs.Control.DraftLinks
import TunnelIngress.Proofs.Control.FreshRoutes
import TunnelIngress.Proofs.Control.IdleQueue
import TunnelIngress.Proofs.Control.KeptRoutes
import TunnelIngress.Proofs.Control.LoopEvents
import TunnelIngress.Proofs.Control.LoopRuns
import TunnelIngress.Proofs.Control.LoopTurns
import TunnelIngress.Proofs.Control.QueueLists
import TunnelIngress.Proofs.Control.QueueSafety
import TunnelIngress.Proofs.Control.QueueWaits
import TunnelIngress.Proofs.Control.RehearsedRetries
import TunnelIngress.Proofs.Control.RehearsedTurns
import TunnelIngress.Proofs.Control.RehearsedWaits
import TunnelIngress.Proofs.Control.RepeatedHandling
import TunnelIngress.Proofs.Control.Retries
import TunnelIngress.Proofs.Control.RetryAccounts
import TunnelIngress.Proofs.Control.Shutdown
import TunnelIngress.Proofs.Control.WorkerPool
import TunnelIngress.Proofs.Decimal.Doubles
import TunnelIngress.Proofs.Decimal.Packing
import TunnelIngress.Proofs.Decimal.Rounding
import TunnelIngress.Proofs.Ingress.Demands
import TunnelIngress.Proofs.Ingress.IndexCoverage
import TunnelIngress.Proofs.Ingress.IndexHistory
import TunnelIngress.Proofs.Ingress.IndexMirror
import TunnelIngress.Proofs.Ingress.IndexOrder
import TunnelIngress.Proofs.Ingress.IndexPostings
import TunnelIngress.Proofs.Ingress.ListedChanges
import TunnelIngress.Proofs.Ingress.NamespaceIsolation
import TunnelIngress.Proofs.Ingress.Relist
import TunnelIngress.Proofs.Ingress.RouteContents
import TunnelIngress.Proofs.Ingress.ServedRules
import TunnelIngress.Proofs.Ingress.SingleChanges
import TunnelIngress.Proofs.Ingress.UnadmittedChanges
import TunnelIngress.Proofs.Ingress.WatchEvents
import TunnelIngress.Proofs.Ingress.WatchedIngresses
import TunnelIngress.Proofs.Resource.KeyText
import TunnelIngress.Proofs.Text.NamedValues
import TunnelIngress.Proofs.Text.Pieces
import TunnelIngress.Proofs.Time.PhraseReading
import TunnelIngress.Proofs.Time.PhraseSums
import TunnelIngress.Proofs.Time.RoundedSeconds
import TunnelIngress.Proofs.Tunnel.ActiveLinks
import TunnelIngress.Proofs.Tunnel.AnnotatedOptions
import TunnelIngress.Proofs.Tunnel.CarriedChanges
import TunnelIngress.Proofs.Tunnel.ChangeEnds
import TunnelIngress.Proofs.Tunnel.ChangeMoves
import TunnelIngress.Proofs.Tunnel.ChangeRuns
import TunnelIngress.Proofs.Tunnel.Changeovers
import TunnelIngress.Proofs.Tunnel.FilledSlots
import TunnelIngress.Proofs.Tunnel.LinkLifecycle
import TunnelIngress.Proofs.Tunnel.LinkMoves
import TunnelIngress.Proofs.Tunnel.LinkSession
import TunnelIngress.Proofs.Tunnel.LinkUse
import TunnelIngress.Proofs.Tunnel.NetworkRuns
import TunnelIngress.Proofs.Tunnel.NewLinks
import TunnelIngress.Proofs.Tunnel.OverlappingCalls
import TunnelIngress.Proofs.Tunnel.QuittingSupervisors
import TunnelIngress.Proofs.Tunnel.RefreshedTogether
import TunnelIngress.Proofs.Tunnel.RehearsedLinks
import TunnelIngress.Proofs.Tunnel.RehearsedSupervisors
import TunnelIngress.Proofs.Tunnel.RepairAccounts
import TunnelIngress.Proofs.Tunnel.RepairDelays
import TunnelIngress.Proofs.Tunnel.RouteBatches
import TunnelIngress.Proofs.Tunnel.RouteBuilds
import TunnelIngress.Proofs.Tunnel.RoutePlaces
import TunnelIngress.Proofs.Tunnel.RouteReplacement
import TunnelIngress.Proofs.Tunnel.RouterSession
import TunnelIngress.Proofs.Tunnel.SettledRoutes
import TunnelIngress.Proofs.Tunnel.SlotHistories
import TunnelIngress.Proofs.Tunnel.Supervision
import TunnelIngress.Rehearsal.Agenda
import TunnelIngress.Rehearsal.Clock
import TunnelIngress.Rehearsal.Controller
import TunnelIngress.Rehearsal.Routing
import TunnelIngress.Rehearsal.Script
import TunnelIngress.Rehearsal.Steps
import TunnelIngress.Rehearsal.Supervision
import TunnelIngress.Rehearsal.View
import TunnelIngress.Rehearsal.Watching
import TunnelIngress.Rehearsal.Work
import TunnelIngress.Rehearsal.World
import TunnelIngress.Resource.Key
import TunnelIngress.Resource.Kind
import TunnelIngress.Table
import TunnelIngress.Text.Base64
import TunnelIngress.Text.Blank
import TunnelIngress.Text.Flag
import TunnelIngress.Text.Hex
import TunnelIngress.Text.Pieces
import TunnelIngress.Time.Duration
import TunnelIngress.Time.Phrase
import TunnelIngress.Time.Seconds
import TunnelIngress.Tunnel.Child
import TunnelIngress.Tunnel.Fleet
import TunnelIngress.Tunnel.Launch
import TunnelIngress.Tunnel.Link
import TunnelIngress.Tunnel.Network
import TunnelIngress.Tunnel.Options
import TunnelIngress.Tunnel.RepairDelay
import TunnelIngress.Tunnel.Router
import TunnelIngress.Tunnel.Rule
import TunnelIngress.Tunnel.Tag
import TunnelIngress.Proofs.Config.OverrideLists
import TunnelIngress.Proofs.Tunnel.CommandLine
