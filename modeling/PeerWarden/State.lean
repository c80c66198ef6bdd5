import PeerWarden.Admission.Attempts
import PeerWarden.Admission.Ban
import PeerWarden.Audit.Log
import PeerWarden.Health.Congestion
import PeerWarden.Peer.Registry

/-!
# The State of the Warden

Everything that changes while the program runs, in one value: the peers, the logged attempts, the bans, the
events, the health history, the congestion state and the preferred outbound peers. The functions below are
the single steps of admission and trust; the two periodic cycles are built from their parts elsewhere.
-/

namespace PeerWarden

/-- What the program knows. -/
structure State where
  registry : Registry := {}
  attempts : AttemptLog := ∅
  bans : BanList := ∅
  log : EventLog := []
  history : History
  congestion : Congestion := {}
  /-- The preferred outbound peers of the last ranking, the fastest first. -/
  outbound : List String := []

/-- The verdict on an attempt to connect. -/
inductive Admission where
  | accepted
  /-- The address is banned. -/
  | rejected
  deriving DecidableEq, Repr

namespace State

/-- The state in which the program starts. -/
def initial (cfg : Config) : State := { history := { capacity := cfg.congestion.historyCapacity } }

/-! ## Attempts to connect -/

/-- Whether an address is under a ban in force. -/
def isBanned (s : State) (address : String) (now : Instant) : Bool := s.bans.isBanned address now

/-- An attempt from an address is logged, unless the address is banned. -/
def attempt (s : State) (address : String) (now : Instant) : State × Admission :=
  if s.isBanned address now then (s, .rejected)
  else ({ s with attempts := s.attempts.record address now }, .accepted)

/-- Makes a peer known and connected. -/
def welcome (s : State) (id address : String) (now : Instant) : State :=
  { s with registry :=
      if s.registry.contains id then s.registry.reactivate id else s.registry.register id address now }

/-- An attempt of a known identity. If it is accepted, the peer becomes known and connected. -/
def peerAttempt (s : State) (id address : String) (now : Instant) : State × Admission :=
  if s.isBanned address now then (s, .rejected)
  else (s.welcome id address now).attempt address now

/-! ## Bans by hand -/

/-- Bans an address in place of any earlier ban on it, and forgets its attempts. -/
def banAddress (s : State) (address reason : String) (expires : Deadline) : State :=
  { s with bans := s.bans.insert address { reason, expires }, attempts := s.attempts.erase address }

/-- Lifts the ban on an address. -/
def liftBan (s : State) (address : String) : State := { s with bans := s.bans.erase address }

/-! ## Trust -/

/-- Whether a peer is trusted and not behind a banned address. -/
def trusts (cfg : Config.Security) (s : State) (now : Instant) (p : Peer) : Bool :=
  p.passes cfg.minimumTrustScore && !s.isBanned p.address now

/-- Whether the peer of a name is known and trusted. -/
def isTrusted (cfg : Config.Security) (s : State) (id : String) (now : Instant) : Bool :=
  (s.registry.get? id).any (s.trusts cfg now)

end State

end PeerWarden
