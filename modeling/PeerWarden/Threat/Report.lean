import PeerWarden.Audit.Log
import PeerWarden.Peer.Reputation

/-!
# Threat Reports

What one security cycle did.
-/

namespace PeerWarden

/-- What one security cycle found and changed. -/
structure ThreatReport where
  events : List Event := []
  blockedAddresses : List String := []
  reputation : ReputationSweep := {}
  purgedEvents : Nat := 0
  expiredBans : List String := []
  forgottenPeers : List String := []

namespace ThreatReport

/-- How many findings are of a kind. -/
def count (r : ThreatReport) (attack : AttackType) : Nat := (r.events.filter (·.attack = attack)).length

end ThreatReport

end PeerWarden
