import PeerWarden.Health.Host
import PeerWarden.Health.Pool
import PeerWarden.State

/-!
# The Health Cycle

One health cycle takes a snapshot of the network, ranks the connected peers when the set is nearly full, and
judges congestion. The snapshot shows the network before peers are evicted, the advice on bandwidth looks at
those that remain.
-/

namespace PeerWarden

/-- What one health cycle saw and did. -/
structure HealthReport where
  snapshot : Snapshot
  pool : PoolDecision
  transition : Transition
  /-- The mean latency by which congestion was last judged. -/
  windowLatency : Option Float
  congested : Bool
  advisory : BandwidthAdvisory

namespace State

/-- The network as it is now. -/
def snapshot (s : State) (usage : HostUsage) (now : Instant) : Snapshot where
  time := now
  connectedPeers := s.registry.activeCount
  bandwidth := s.registry.totalBandwidth
  latency := s.registry.averageLatency
  blockRate := usage.blockRate
  connectionsFailed := s.registry.connectionsFailed
  connectionsSucceeded := s.registry.connectionsSucceeded
  memPct := usage.memPct
  diskPct := usage.diskPct

/-- Evicts the peers that a ranking gave up. A set too small to be ranked keeps its preferred peers. -/
def applyPool (s : State) (pool : PoolDecision) : State :=
  { s with
    registry := s.registry.evictAll pool.evicted
    outbound := if pool.skipped then s.outbound else pool.preferred }

/-- Runs one health cycle with the figures of the host. -/
def healthCycle (s : State) (cfg : Config) (usage : HostUsage) (now : Instant) : State × HealthReport :=
  let snapshot := s.snapshot usage now
  let pool := Pool.decision cfg.pool.preferredLatencyMs cfg.pool.maxPeers cfg.pool.maxOutboundPeers s.registry
  let pruned := s.applyPool pool
  let history := s.history.push snapshot
  let judged := s.congestion.evaluate cfg.congestion history
  ({ pruned with history, congestion := judged.1 },
   { snapshot
     pool
     transition := judged.2
     windowLatency := judged.1.meanLatency
     congested := judged.1.congested
     advisory := .ofThroughput cfg.congestion pruned.registry.averageThroughput })

end State

end PeerWarden
