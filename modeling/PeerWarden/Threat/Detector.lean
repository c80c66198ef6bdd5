import PeerWarden.Audit.Event
import PeerWarden.Config
import PeerWarden.Peer.Registry

/-!
# Detectors

Three detectors lower the trust of peers that look dishonest. Sybil detection looks at all peers behind one
address; eclipse and timing detection look at one peer at a time, so they are given as a test, a factor and
a finding.
-/

namespace PeerWarden

/-! ## Detectors of single peers -/

/-- A detector that judges each peer by its own record. -/
structure Detector where
  flags : Peer → Bool
  /-- What a flagged peer keeps of its trust. -/
  factor : Float
  finding : String → Peer → Event

namespace Detector

/-- Lowers the trust of the flagged peers. -/
def penalize (d : Detector) (r : Registry) : Registry :=
  r.map fun _ p => if d.flags p then p.scaleTrust d.factor else p

/-- One finding for each flagged peer, in the order of their identities. -/
def findings (d : Detector) (r : Registry) : List Event :=
  (r.peers.entries.filter fun e => d.flags e.2).map fun e => d.finding e.1 e.2

/-- A long record without a single invalid block is unlikely for an honest peer. -/
def eclipse (cfg : Config.Security) (now : Instant) : Detector where
  flags p := decide (cfg.eclipseMinBlocks < p.validBlocks) && p.invalidBlocks == 0
  factor := 0.8
  finding id p :=
    { time := now
      attack := .eclipse
      subject := id
      severity := .caution
      description := s!"abnormal validation pattern: {p.validBlocks} blocks, no failures"
      action := .monitored }

/-- The average seconds between two valid blocks of a peer. -/
def secondsPerBlock (now : Instant) (p : Peer) : Float :=
  (p.knownFor now).toFloat / Float.ofNat p.validBlocks

/-- Blocks that arrive faster than the delay function allows. -/
def timing (cfg : Config.Security) (now : Instant) : Detector where
  flags p := decide (cfg.vdfMinBlocks < p.validBlocks) &&
    decide (secondsPerBlock now p < cfg.vdfAnomalyThreshold.toFloat)
  factor := 0.6
  finding id p :=
    { time := now
      attack := .vdfManipulation
      subject := id
      severity := .warning
      description := s!"Block time too fast: {Number.fixed 0 (secondsPerBlock now p)}s " ++
        s!"(expected {cfg.expectedBlockDelaySecs}s)"
      action := .investigated }

end Detector

/-! ## Sybil clusters -/

namespace Sybil

/-- What a suspect keeps of its trust. The penalty is soft, because honest peers may share an address. -/
def factor : Float := 0.5

/-- Whether a peer is trusted too little. -/
def isSuspect (cfg : Config.Security) (p : Peer) : Bool := decide (p.trust < cfg.minimumTrustScore)

/-- The addresses behind which there are too many suspects, with their number. -/
def clusters (cfg : Config.Security) (r : Registry) : Directory String Nat :=
  (Directory.tally ((r.peers.values.filter (isSuspect cfg)).map (·.address))).filter
    fun _ n => decide (cfg.sybilMinPeers ≤ n)

/-- Flags a suspect. -/
def flag (p : Peer) : Peer := { p.scaleTrust factor with clusterFlags := p.clusterFlags + 1 }

/-- Flags every suspect behind a cluster's address. -/
def penalize (cfg : Config.Security) (r : Registry) : Registry :=
  let flagged := clusters cfg r
  r.map fun _ p => if isSuspect cfg p && flagged.contains p.address then flag p else p

/-- One finding for each cluster, in the order of the addresses. -/
def findings (cfg : Config.Security) (now : Instant) (r : Registry) : List Event :=
  (clusters cfg r).entries.map fun (address, n) =>
    { time := now
      attack := .sybil
      subject := address
      severity := .warning
      description := s!"Sybil attack: {n} suspicious peers from {address}"
      action := .penalized }

end Sybil

end PeerWarden
