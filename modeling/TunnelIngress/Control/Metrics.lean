import TunnelIngress.Decimal.Binary64
import TunnelIngress.Table
import TunnelIngress.Resource.Kind

/-!
Counters of a controller run and the series they are published as.
-/

namespace TunnelIngress

/-- Something that happened and is counted. -/
inductive Observation where
  | reconciliation (kind result : String) (seconds : Float)
  | depth (depth : UInt64)
  | requeue (outcome : String)
  | linkStarted
  | linkStopped
  | repair (host : String)

/-- How many durations fell at or under each bound, and how many there were. -/
structure Histogram where
  within : List Nat
  total : Nat
deriving DecidableEq

structure Metrics where
  durations : Table String Histogram
  reconciliations : Table (String × String) Nat
  repairs : Table String Nat
  activeLinks : Int
  depth : UInt64
  requeues : Table String Nat

namespace Histogram

def bounds : List (Float × String) :=
  [(0.005, "0.005"), (0.01, "0.01"), (0.025, "0.025"), (0.05, "0.05"), (0.1, "0.1"),
   (0.25, "0.25"), (0.5, "0.5"), (1.0, "1"), (2.5, "2.5"), (5.0, "5"), (10.0, "10")]

def empty : Histogram :=
  { within := bounds.map fun _ => 0, total := 0 }

def observe (histogram : Histogram) (seconds : Float) : Histogram :=
  { within := bounds.zipWith (fun bound n => if seconds ≤ bound.1 then n + 1 else n) histogram.within
    total := histogram.total + 1 }

end Histogram

namespace Metrics

def zero : Metrics :=
  { durations := ∅, reconciliations := ∅, repairs := ∅, activeLinks := 0, depth := 0,
    requeues := ∅ }

/-- The labels under which a reconciliation is counted. Labels that read the same when they are written
one after the other share a series, which keeps the labels it had first. -/
def reconciliationLabels (metrics : Metrics) (kind result : String) : String × String :=
  (metrics.reconciliations.keys.find? fun known => known.1 ++ known.2 = kind ++ result).getD
    (kind, result)

def record (metrics : Metrics) : Observation → Metrics
  | .reconciliation kind result seconds =>
    { metrics with
      durations := metrics.durations.insert kind
        ((metrics.durations.getD kind .empty).observe seconds)
      reconciliations := metrics.reconciliations.count (metrics.reconciliationLabels kind result) }
  | .depth depth => { metrics with depth }
  | .requeue outcome => { metrics with requeues := metrics.requeues.count outcome }
  | .linkStarted => { metrics with activeLinks := metrics.activeLinks + 1 }
  | .linkStopped => { metrics with activeLinks := metrics.activeLinks - 1 }
  | .repair host => { metrics with repairs := metrics.repairs.count host }

def escaped (s : String) : String :=
  s.foldl
    (fun written c =>
      if c = '\\' then written ++ "\\\\"
      else if c = '"' then written ++ "\\\""
      else if c = '\n' then written ++ "\\n"
      else written.push c)
    ""

def series (family : String) (labels : List (String × String)) : String :=
  let written := labels.map fun label => label.1 ++ "=\"" ++ escaped label.2 ++ "\""
  if labels.isEmpty then family else family ++ "\x7b" ++ ",".intercalate written ++ "\x7d"

def durationSeries (kind : String) (histogram : Histogram) : List (String × Int) :=
  let family := "argot_reconciliation_duration_seconds"
  let bucket := fun (bound : Float × String) (n : Nat) =>
    (series (family ++ "_bucket") [("kind", kind), ("le", bound.2)], (n : Int))
  Histogram.bounds.zipWith bucket histogram.within ++
    [(series (family ++ "_bucket") [("kind", kind), ("le", "+Inf")], (histogram.total : Int)),
     (series (family ++ "_count") [("kind", kind)], (histogram.total : Int))]

/-- The depth as published: a signed word, through a double. -/
def publishedDepth (depth : UInt64) : Int :=
  let signed : Int := depth.toInt64.toInt
  match Decimal.Binary64.ofFloat (Float.ofNat signed.natAbs) with
  | .finite _ mantissa exponent =>
    let size : Int := mantissa * Decimal.twoPow exponent.toNat / Decimal.twoPow (-exponent).toNat
    if signed < 0 then -size else size
  | _ => 0

/-- The series without the durations, families by name and series by label values. -/
def counterSeries (metrics : Metrics) : List (String × Int) :=
  let pairs := metrics.reconciliations.entries.mergeSort fun a b =>
    ((compare a.1.1 b.1.1).then (compare a.1.2 b.1.2)).isLE
  (pairs.map fun entry =>
      (series "argot_reconciliations_total" [("kind", entry.1.1), ("result", entry.1.2)],
        (entry.2 : Int))) ++
    (metrics.repairs.sorted.map fun entry =>
      (series "argot_tunnel_link_repairs_total" [("host", entry.1)], (entry.2 : Int))) ++
    [("argot_tunnel_links_active", metrics.activeLinks),
     ("argot_workqueue_depth", publishedDepth metrics.depth)] ++
    metrics.requeues.sorted.map fun entry =>
      (series "argot_workqueue_requeues_total" [("outcome", entry.1)], (entry.2 : Int))

def allSeries (metrics : Metrics) : List (String × Int) :=
  (metrics.durations.sorted.flatMap fun entry => durationSeries entry.1 entry.2) ++
    metrics.counterSeries

def changed (rows : List (String × Int)) : List (String × Int) :=
  rows.filter (·.2 ≠ 0)

end Metrics

end TunnelIngress
