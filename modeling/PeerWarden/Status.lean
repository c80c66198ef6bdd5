import PeerWarden.Number.Text
import PeerWarden.State

/-!
# Status

A summary of the state at one instant, and the panel in which it is shown.
-/

namespace PeerWarden

/-- Counts and means that sum up a state. -/
structure Status where
  peersTotal : Nat := 0
  peersActive : Nat := 0
  trustedPeers : Nat := 0
  blockedPeers : Nat := 0
  /-- All bans that are kept, lapsed ones included. -/
  bannedAddresses : Nat := 0
  /-- The events of the last five minutes. -/
  recentThreats : Nat := 0
  totalEvents : Nat := 0
  preferredOutbound : Nat := 0
  maxPeers : Nat := 0
  averageLatencyMs : Float := 0.0
  bandwidthMbps : Float := 0.0
  snapshotsKept : Nat := 0
  congested : Bool := false

namespace Status

/-- Events younger than this count as recent. -/
def recentWindow : Span := Span.ofSeconds 300

/-- The line above and below the heading, and at the end. -/
def rule : String := "".pushn '=' 60

/-- A labelled line; the values stand under each other. -/
def line (label value : String) : String := label ++ "".pushn ' ' (23 - label.length) ++ value

/-- The panel, line by line. -/
def lines (s : Status) : List String :=
  [rule,
   "🛡️  PEER GUARD STATUS",
   rule,
   line "Peers (active/total):" s!"{s.peersActive}/{s.peersTotal} of {s.maxPeers}",
   line "Trusted Peers:" s!"{s.trustedPeers}",
   line "Blocked Peers:" s!"{s.blockedPeers}",
   line "Blocked IPs:" s!"{s.bannedAddresses}",
   line "Recent Threats (5m):" s!"{s.recentThreats}",
   line "Total Events:" s!"{s.totalEvents}",
   line "Preferred Outbound:" s!"{s.preferredOutbound}",
   line "Average Latency:" s!"{Number.fixed 1 s.averageLatencyMs} ms",
   line "Bandwidth:" s!"{Number.fixed 2 s.bandwidthMbps} Mbps",
   line "Snapshots Kept:" s!"{s.snapshotsKept}",
   line "Congestion:" (if s.congested then "🔴 DETECTED" else "✅ CLEAR"),
   rule]

/-- The panel as one text without a final line break. -/
def text (s : Status) : String := "\n".intercalate s.lines

end Status

/-- Sums up a state. -/
def State.status (cfg : Config) (s : State) (now : Instant) : Status where
  peersTotal := s.registry.peers.size
  peersActive := s.registry.activeCount
  trustedPeers := (s.registry.peers.values.filter (s.trusts cfg.security now)).length
  blockedPeers := s.registry.blockedCount
  bannedAddresses := s.bans.size
  recentThreats := (s.log.recent now Status.recentWindow).length
  totalEvents := s.log.length
  preferredOutbound := s.outbound.length
  maxPeers := cfg.pool.maxPeers
  averageLatencyMs := s.registry.averageLatency
  bandwidthMbps := s.registry.totalBandwidth
  snapshotsKept := s.history.size
  congested := s.congestion.congested

end PeerWarden
