import PeerWarden.Peer.Registry

/-!
# Reputation and Forgetting

Two passes over all peers. The reputation pass lifts blocks that are overdue, sets the trust of every other
peer to what its record deserves, and lets idle peers decay. The forgetting pass drops peers that have been
idle for too long, except those whose block must outlive them.
-/

namespace PeerWarden

/-- What a reputation pass did. -/
structure ReputationSweep where
  recomputed : Nat := 0
  decayed : Nat := 0
  /-- The peers whose block was lifted, in the order of their identities. -/
  unblocked : List String := []

namespace Peer

/-- Whether the block of a peer has to be lifted. -/
def isOverdueAt (p : Peer) (now : Instant) : Bool := p.ban.any (·.overdueAt now)

/-- The reputation pass on one peer. A blocked peer is only ever unblocked. -/
def reviewed (now : Instant) (idleDecayAfter : Span) (p : Peer) : Peer :=
  if p.isBlocked then
    if p.isOverdueAt now then p.unblock else p
  else
    p.reassess.decay now idleDecayAfter

/-- Whether a peer is dropped: it has been idle for longer than the retention and is not blocked for good. -/
def isForgottenAt (now : Instant) (retention : Span) (p : Peer) : Bool :=
  decide (retention < p.idleAt now) && !p.isPermanentlyBlocked

end Peer

namespace Registry

/-- The registry after a reputation pass. -/
def reviewed (r : Registry) (now : Instant) (idleDecayAfter : Span) : Registry :=
  r.map fun _ p => p.reviewed now idleDecayAfter

/-- What a reputation pass does to the registry. -/
def sweepAt (r : Registry) (now : Instant) (idleDecayAfter : Span) : ReputationSweep :=
  let free := r.peers.values.filter fun p => !p.isBlocked
  { recomputed := (free.filter fun p => decide (0 < p.interactions)).length
    decayed := (free.filter fun p => decide (idleDecayAfter < p.idleAt now)).length
    unblocked := (r.peers.filter fun _ p => p.isOverdueAt now).keys }

/-- The registry without the peers that are forgotten. -/
def forget (r : Registry) (now : Instant) (retention : Span) : Registry :=
  { r with peers := r.peers.filter fun _ p => !p.isForgottenAt now retention }

/-- Forgetting keeps the other peers as they are. -/
@[simp] theorem get?_forget (r : Registry) (now : Instant) (retention : Span) (id : String) :
    (r.forget now retention).get? id = (r.get? id).filter fun p => !p.isForgottenAt now retention :=
  Directory.get?_filter r.peers _ id

/-- The peers that are forgotten, in the order of their identities. -/
def forgotten (r : Registry) (now : Instant) (retention : Span) : List String :=
  (r.peers.filter fun _ p => p.isForgottenAt now retention).keys

end Registry

end PeerWarden
