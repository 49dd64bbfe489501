import Offload.Metrics.Latency

/-!
What was done so far: counts of commands and bytes, which wrap at 2^64, and the latencies of whole
executions.
-/

namespace Offload

structure Counters where
  executions : UInt64 := 0
  instructionsIssued : UInt64 := 0
  kernelsLaunched : UInt64 := 0
  barriers : UInt64 := 0
  bytesIn : UInt64 := 0
  bytesOut : UInt64 := 0
  deriving DecidableEq, Repr

namespace Counters

def countExecution (c : Counters) : Counters :=
  { c with executions := c.executions + 1 }

def countInstruction (c : Counters) : Counters :=
  { c with instructionsIssued := c.instructionsIssued + 1 }

def countLaunch (c : Counters) : Counters :=
  { c with kernelsLaunched := c.kernelsLaunched + 1 }

def countBarrier (c : Counters) : Counters :=
  { c with barriers := c.barriers + 1 }

def countIn (c : Counters) (bytes : Nat) : Counters :=
  { c with bytesIn := c.bytesIn + UInt64.ofNat bytes }

def countOut (c : Counters) (bytes : Nat) : Counters :=
  { c with bytesOut := c.bytesOut + UInt64.ofNat bytes }

/-- Zero as long as nothing was executed. -/
def instructionsPerExecution (c : Counters) : Float :=
  if c.executions = 0 then 0 else c.instructionsIssued.toFloat / c.executions.toFloat

end Counters

structure Metrics where
  counters : Counters := {}
  latency : Latency := {}
  deriving DecidableEq, Repr

def Metrics.recordExecution (m : Metrics) (nanoseconds : Nat) : Metrics :=
  { counters := m.counters.countExecution, latency := m.latency.record nanoseconds }

/-- The state of the metrics at one time; durations are in nanoseconds. -/
structure Snapshot where
  uptime : Nat := 0
  counters : Counters := {}
  average : Nat := 0
  p50 : Nat := 0
  p95 : Nat := 0
  p99 : Nat := 0
  maximum : Nat := 0
  deriving DecidableEq, Repr

def Metrics.snapshot (m : Metrics) (uptime : Nat) : Snapshot where
  uptime
  counters := m.counters
  average := m.latency.mean
  p50 := m.latency.quantile 0.50
  p95 := m.latency.quantile 0.95
  p99 := m.latency.quantile 0.99
  maximum := m.latency.maximum

/-- A number of a report: a count, or a measured quantity. -/
inductive Figure
  | count (n : Nat)
  | quantity (x : Float)

namespace Snapshot

/-- Whole seconds and the rest are converted apart. -/
def seconds (s : Snapshot) : Float :=
  let whole := UInt64.ofNat (s.uptime / 1000000000)
  let rest := UInt64.ofNat (s.uptime % 1000000000)
  whole.toFloat + rest.toFloat / 1000000000

/-- Zero as long as no time has passed. -/
def executionsPerSecond (s : Snapshot) : Float :=
  if s.seconds == 0 then 0 else s.counters.executions.toFloat / s.seconds

def microseconds (nanoseconds : Nat) : Figure :=
  .quantity ((UInt64.ofNat nanoseconds).toFloat / 1000)

/-- The named figures in the order in which a report lists them. -/
def report (s : Snapshot) : List (String × Figure) :=
  let c := s.counters
  [("uptime_secs", .quantity s.seconds), ("executions", .count c.executions.toNat),
    ("instructions_issued", .count c.instructionsIssued.toNat),
    ("kernels_launched", .count c.kernelsLaunched.toNat), ("barriers", .count c.barriers.toNat),
    ("bytes_in", .count c.bytesIn.toNat), ("bytes_out", .count c.bytesOut.toNat),
    ("avg_latency_us", microseconds s.average), ("p50_latency_us", microseconds s.p50),
    ("p95_latency_us", microseconds s.p95), ("p99_latency_us", microseconds s.p99),
    ("max_latency_us", microseconds s.maximum),
    ("executions_per_second", .quantity s.executionsPerSecond),
    ("instructions_per_execution", .quantity c.instructionsPerExecution)]

end Snapshot
end Offload
