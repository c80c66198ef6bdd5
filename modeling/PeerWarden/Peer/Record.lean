import PeerWarden.Admission.Ban
import PeerWarden.Number.Order

/-!
# Peers

What is known about one peer: where it connects from, how it has behaved, how good its link is, and how far
it is trusted. Trust is a number in `[0, 1]`; every write to it goes through `withTrust`, which clamps.
-/

namespace PeerWarden

/-! ## The trust scale -/

namespace Trust

/-- The trust of a peer that has just been registered. -/
def initial : Float := 0.5

/-- The trust of a peer whose temporary block has been lifted; below the default bar for admission. -/
def afterBlock : Float := 0.3

/-- What an invalid block leaves of a peer's trust. -/
def failureFactor : Float := 0.8

/-- What an idle peer keeps of its trust in each reputation pass. -/
def idleFactor : Float := 0.9

/-- The share of trust that a spotless record earns. -/
def successWeight : Float := 0.7

/-- The share of trust that flooding costs at most. -/
def floodWeight : Float := 0.3

/-- The number of floods beyond which further ones cost nothing more. -/
def floodSaturation : Float := 10.0

/-- The nearest trust to a number, and none at all for what is no finite number. -/
def ofFloat (x : Float) : Float := if x.isFinite then Number.clampUnit x else 0.0

/-- The trust that a record deserves: its share of valid blocks, less a penalty for floods. -/
def deserved (validBlocks invalidBlocks floods : Nat) : Float :=
  let successRate := Float.ofNat validBlocks / Float.ofNat (validBlocks + invalidBlocks)
  let floodPenalty := Number.lesser (Float.ofNat floods / floodSaturation) 1.0
  successWeight * successRate - floodWeight * floodPenalty

end Trust

/-! ## Records -/

/-- What is known about a peer. Its identity is the key under which the record is kept. -/
structure Peer where
  address : String
  firstSeen : Instant
  lastSeen : Instant
  trust : Float := Trust.initial
  validBlocks : Nat := 0
  invalidBlocks : Nat := 0
  /-- How often its address was banned for flooding. -/
  floods : Nat := 0
  /-- How often it was one of too many doubtful peers behind one address. -/
  clusterFlags : Nat := 0
  latency : Option Float := none
  throughput : Option Float := none
  /-- The block on the peer, if there is one. -/
  ban : Option Ban := none
  /-- Whether the peer belongs to the connected set. -/
  active : Bool := true

namespace Peer

/-- A peer that is seen for the first time. -/
def new (address : String) (now : Instant) : Peer := { address, firstSeen := now, lastSeen := now }

/-! ## Views -/

/-- All blocks that the peer has delivered. -/
def interactions (p : Peer) : Nat := p.validBlocks + p.invalidBlocks

/-- How long ago the peer delivered its last block, or was registered. -/
def idleAt (p : Peer) (now : Instant) : Span := elapsed p.lastSeen now

/-- How long the peer has been known. -/
def knownFor (p : Peer) (now : Instant) : Span := elapsed p.firstSeen now

/-- Whether the peer is blocked. -/
def isBlocked (p : Peer) : Bool := p.ban.isSome

/-- Whether the peer is blocked without an end. -/
def isPermanentlyBlocked (p : Peer) : Bool := p.ban.any (·.isPermanent)

/-- Why the peer is blocked; empty for one that is not. -/
def blockReason (p : Peer) : String := (p.ban.map (·.reason)).getD ""

/-- Until when the peer is blocked. -/
def blockedUntil (p : Peer) : Deadline := p.ban.bind (·.expires)

/-- Whether the peer passes a bar: it is not blocked and trusted enough. -/
def passes (p : Peer) (bar : Float) : Bool := !p.isBlocked && decide (bar ≤ p.trust)

/-! ## Changes -/

/-- Sets the trust to the nearest value on the scale. -/
def withTrust (p : Peer) (x : Float) : Peer := { p with trust := Trust.ofFloat x }

/-- Multiplies the trust by a factor. -/
def scaleTrust (p : Peer) (factor : Float) : Peer := p.withTrust (p.trust * factor)

/-- Counts a valid block. -/
def creditBlock (p : Peer) (now : Instant) : Peer :=
  { p with validBlocks := p.validBlocks + 1, lastSeen := now }

/-- Counts an invalid block and cuts the trust at once. -/
def debitBlock (p : Peer) (now : Instant) : Peer :=
  { p with invalidBlocks := p.invalidBlocks + 1, lastSeen := now }.scaleTrust Trust.failureFactor

/-- Notes a latency. A peer that can be measured is connected. -/
def withLatency (p : Peer) (ms : Float) : Peer := { p with latency := some ms, active := true }

/-- Notes a throughput. -/
def withThroughput (p : Peer) (mbps : Float) : Peer := { p with throughput := some mbps }

/-- Blocks the peer. -/
def block (p : Peer) (reason : String) (expires : Deadline) : Peer := { p with ban := some { reason, expires } }

/-- Lifts the block and lets the peer start again. -/
def unblock (p : Peer) : Peer := { p with ban := none }.withTrust Trust.afterBlock

/-- Counts a flood from the address of the peer. -/
def noteFlood (p : Peer) : Peer := { p with floods := p.floods + 1 }

/-- Sets the trust to what the counters deserve; without any block there is nothing to judge. -/
def reassess (p : Peer) : Peer :=
  if p.interactions = 0 then p
  else p.withTrust (Trust.deserved p.validBlocks p.invalidBlocks p.floods)

/-- Lets the trust of a peer decay that has been idle for longer than a span. -/
def decay (p : Peer) (now : Instant) (idleDecayAfter : Span) : Peer :=
  if idleDecayAfter < p.idleAt now then p.scaleTrust Trust.idleFactor else p

end Peer

end PeerWarden
