import PeerWarden.State

/-!
# Requests

What the connection, relay and operator layers ask of the warden. Every request that depends on the time
carries its own instant, so that serving a request is a function of the state alone.
-/

namespace PeerWarden

/-- A report or a demand from outside. -/
inductive Request where
  | register (id address : String) (now : Instant)
  | attempt (address : String) (now : Instant)
  | peerAttempt (id address : String) (now : Instant)
  | outcome (succeeded : Bool)
  | success (id : String) (now : Instant)
  | failure (id : String) (now : Instant)
  | latency (id : String) (ms : Float)
  | throughput (id : String) (mbps : Float)
  | link (id : String) (ms mbps : Float)
  /-- Without a duration the block is permanent. -/
  | blockPeer (id reason : String) (duration : Option Span) (now : Instant)
  /-- Without a duration the ban is permanent. -/
  | banAddress (address reason : String) (duration : Option Span) (now : Instant)
  | liftBan (address : String)

/-- What is answered to a request. -/
inductive Reply where
  | done
  /-- Whether there was anything to do. -/
  | effect (changed : Bool)
  | admission (verdict : Admission)
  | refused (fault : Fault)

namespace State

/-- Takes over a registry with a measurement in it, or refuses the measurement. -/
def measured (s : State) : Except Fault Registry → State × Reply
  | .ok registry => ({ s with registry }, .done)
  | .error fault => (s, .refused fault)

/-- Gives the verdict on an attempt as the reply. -/
def judged (result : State × Admission) : State × Reply := (result.1, .admission result.2)

/-- Serves one request. -/
def serve (s : State) : Request → State × Reply
  | .register id address now =>
    ({ s with registry := s.registry.register id address now }, .effect (!s.registry.contains id))
  | .attempt address now => judged (s.attempt address now)
  | .peerAttempt id address now => judged (s.peerAttempt id address now)
  | .outcome succeeded => ({ s with registry := s.registry.recordOutcome succeeded }, .done)
  | .success id now => ({ s with registry := s.registry.recordSuccess id now }, .done)
  | .failure id now => ({ s with registry := s.registry.recordFailure id now }, .done)
  | .latency id ms => s.measured (s.registry.recordLatency id ms)
  | .throughput id mbps => s.measured (s.registry.recordThroughput id mbps)
  | .link id ms mbps => s.measured (s.registry.recordLink id ms mbps)
  | .blockPeer id reason duration now =>
    ({ s with registry := s.registry.block id reason (deadlineAfter? now duration) },
     .effect (s.registry.contains id))
  | .banAddress address reason duration now =>
    (s.banAddress address reason (deadlineAfter? now duration), .done)
  | .liftBan address => (s.liftBan address, .effect (s.bans.contains address))

end State

end PeerWarden
