import PeerWarden.Peer.Registry

/-!
# The Outbound Pool

When the connected set is nearly full, its peers are ranked by latency: the fastest are preferred for
outbound slots, and above a second mark all peers behind the outbound slots are evicted.
-/

namespace PeerWarden

/-- What a ranking decided. -/
structure PoolDecision where
  /-- The set was too small to be ranked. -/
  skipped : Bool := false
  preferred : List String := []
  evicted : List String := []
  deriving DecidableEq, Repr

namespace Pool

/-! ## Marks -/

/-- The share of the limit from which the set is ranked. -/
def rankingFill : Float := 0.8

/-- The share of the limit above which peers are evicted. -/
def evictionFill : Float := 0.9

/-- Whether a set of this size is left alone. -/
def isSparse (count maxPeers : Nat) : Bool :=
  decide (Float.ofNat count < Float.ofNat maxPeers * rankingFill)

/-- Whether peers of a set of this size are evicted. -/
def isCrowded (count maxPeers : Nat) : Bool :=
  decide (Float.ofNat maxPeers * evictionFill < Float.ofNat count)

/-! ## The ranking -/

/-- Whether one latency ranks before or with another. A measured one ranks before a missing one. -/
def latencyLE : Option Float → Option Float → Bool
  | some x, some y => Number.rank x ≤ Number.rank y
  | _, none => true
  | none, some _ => false

/-- Whether one peer ranks before or with another: by latency, and by identity when latencies tie. -/
def ranksLE (a b : String × Peer) : Bool :=
  if latencyLE a.2.latency b.2.latency then
    !latencyLE b.2.latency a.2.latency || decide (a.1 ≤ b.1)
  else false

/-- The connected peers, the fastest first. -/
def ranked (r : Registry) : List (String × Peer) := r.active.mergeSort ranksLE

/-- Whether a peer was measured below the preferred latency. -/
def isFast (preferredLatencyMs : Float) (e : String × Peer) : Bool :=
  e.2.latency.any fun ms => decide (ms < preferredLatencyMs)

/-- Ranks the connected peers and decides which are preferred and which are evicted. -/
def decision (preferredLatencyMs : Float) (maxPeers maxOutbound : Nat) (r : Registry) : PoolDecision :=
  let count := r.activeCount
  if isSparse count maxPeers then { skipped := true }
  else
    { preferred := (((ranked r).takeWhile (isFast preferredLatencyMs)).take maxOutbound).map Prod.fst
      evicted := if isCrowded count maxPeers then ((ranked r).drop maxOutbound).map Prod.fst else [] }

end Pool

/-- Takes the evicted peers out of the connected set. -/
def Registry.evictAll (r : Registry) (ids : List String) : Registry :=
  r.map fun id p => if id ∈ ids then { p with active := false } else p

end PeerWarden
