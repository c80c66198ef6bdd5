import PeerWarden.Config
import PeerWarden.Health.History
import PeerWarden.Number.Order

/-!
# Congestion

The network counts as congested once the mean latency of the latest snapshots rises above a high mark, and
as clear once it falls below a low one. Between the marks the state stays what it was, so it does not flap.
How blocks are relayed depends on this state alone.
-/

namespace PeerWarden

/-! ## The controller -/

/-- What an evaluation did to the congestion state. -/
inductive Transition where
  /-- There are too few snapshots to judge. -/
  | insufficient
  | entered
  | cleared
  | held
  deriving DecidableEq, Repr

/-- The name of a transition. -/
def Transition.name : Transition → String
  | insufficient => "insufficient"
  | entered => "entered"
  | cleared => "cleared"
  | held => "held"

/-- The congestion state, and the mean latency it was last judged by. -/
structure Congestion where
  congested : Bool := false
  meanLatency : Option Float := none

namespace Congestion

/-- The mean latency of the newest snapshots, if the window is filled. -/
def windowMean? (cfg : Config.Congestion) (history : History) : Option Float :=
  (history.lastN? cfg.window).map fun window =>
    Number.total (window.map (·.latency)) / Float.ofNat cfg.window

/-- Judges the state by a mean latency. -/
def judge (cfg : Config.Congestion) (c : Congestion) (mean : Float) : Congestion × Transition :=
  if cfg.highWaterMs < mean then
    ({ congested := true, meanLatency := some mean }, if c.congested then .held else .entered)
  else if mean < cfg.lowWaterMs then
    ({ congested := false, meanLatency := some mean }, if c.congested then .cleared else .held)
  else
    ({ c with meanLatency := some mean }, .held)

/-- Judges the state by the history, once there is enough of it. -/
def evaluate (cfg : Config.Congestion) (history : History) (c : Congestion) : Congestion × Transition :=
  match windowMean? cfg history with
  | none => (c, .insufficient)
  | some mean => c.judge cfg mean

end Congestion

/-! ## Relaying blocks -/

/-- Which blocks are relayed. -/
inductive Priority where
  | criticalOnly
  | all
  deriving DecidableEq, Repr

/-- The name of a priority. -/
def Priority.name : Priority → String
  | criticalOnly => "critical_only"
  | all => "all"

/-- How the next block is relayed. -/
structure PropagationPolicy where
  compress : Bool
  batchSize : Nat
  priority : Priority
  backpressure : Bool
  deriving DecidableEq, Repr

namespace PropagationPolicy

/-- Small compressed batches of what cannot wait. -/
def congested : PropagationPolicy :=
  { compress := true, batchSize := 10, priority := .criticalOnly, backpressure := true }

/-- Everything, in large batches. -/
def normal : PropagationPolicy :=
  { compress := false, batchSize := 100, priority := .all, backpressure := false }

end PropagationPolicy

/-- The policy for a block of any size: it follows the congestion state. -/
def Congestion.policy (c : Congestion) : PropagationPolicy :=
  if c.congested then .congested else .normal

/-! ## Bandwidth advice -/

/-- A hint that follows from the bandwidth. It changes nothing by itself. -/
inductive BandwidthAdvisory where
  | compressAndBatch
  | disableCompression
  | unchanged
  deriving DecidableEq, Repr

namespace BandwidthAdvisory

/-- The name of a hint. -/
def name : BandwidthAdvisory → String
  | compressAndBatch => "compress_and_batch"
  | disableCompression => "disable_compression"
  | unchanged => "unchanged"

/-- The hint for a mean throughput: save below the low bound, spend above the high one. -/
def ofThroughput (cfg : Config.Congestion) (mbps : Float) : BandwidthAdvisory :=
  if mbps < cfg.lowBandwidthMbps then .compressAndBatch
  else if cfg.highBandwidthMbps < mbps then .disableCompression
  else .unchanged

end BandwidthAdvisory

end PeerWarden
