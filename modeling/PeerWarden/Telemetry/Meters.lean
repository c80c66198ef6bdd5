import PeerWarden.Status
import PeerWarden.Telemetry.Exposition

/-!
# Meters

What is measured over the life of the program. The gauges show the last status that was observed; the
counters add up the findings of the security cycles, the failures of both cycles and the evicted peers.
-/

namespace PeerWarden

/-- The gauges and counters. -/
structure Meters where
  peers : Int := 0
  activePeers : Int := 0
  trustedPeers : Int := 0
  blockedPeers : Int := 0
  bannedAddresses : Int := 0
  averageLatencyMs : Float := 0.0
  bandwidthMbps : Float := 0.0
  congested : Int := 0
  /-- The findings of each kind, and among them those of each grade. -/
  events : Directory String (Directory String Nat) := ∅
  /-- The failures of each cycle. -/
  failures : Directory String Nat := ∅
  evictions : Nat := 0

namespace Meters

/-! ## Observing -/

/-- What an integer gauge shows for a count: it has 64 bits and a sign, and wraps around. -/
def gaugeReading (n : Nat) : Int := Int.bmod n (Number.twoTo 64)

/-- What a counter shows for a count: it has 64 bits without a sign, and wraps around. -/
def counterReading (n : Nat) : Float := Float.ofNat (n % Number.twoTo 64)

/-- Sets the gauges to a status. -/
def observeStatus (m : Meters) (s : Status) : Meters :=
  { m with
    peers := gaugeReading s.peersTotal
    activePeers := gaugeReading s.peersActive
    trustedPeers := gaugeReading s.trustedPeers
    blockedPeers := gaugeReading s.blockedPeers
    bannedAddresses := gaugeReading s.bannedAddresses
    averageLatencyMs := s.averageLatencyMs
    bandwidthMbps := s.bandwidthMbps
    congested := if s.congested then 1 else 0 }

/-- The findings of one kind by their grades. -/
def ofKind (m : Meters) (attack : AttackType) : Directory String Nat := (m.events.get? attack.name).getD ∅

/-- Counts an event. -/
def observeEvent (m : Meters) (e : Event) : Meters :=
  { m with events := m.events.insert e.attack.name ((m.ofKind e.attack).bump e.severity.name) }

/-- Counts some events. -/
def observeEvents (m : Meters) (events : List Event) : Meters := events.foldl observeEvent m

/-- How many events of a kind and a grade were counted. -/
def eventCount (m : Meters) (attack : AttackType) (severity : Severity) : Nat :=
  ((m.ofKind attack).get? severity.name).getD 0

/-- Counts some evicted peers. -/
def observeEvictions (m : Meters) (n : Nat) : Meters := { m with evictions := m.evictions + n }

/-- Counts a cycle that failed. -/
def observeFailure (m : Meters) (cycle : String) : Meters := { m with failures := m.failures.bump cycle }

/-- How many failures of a cycle were counted. -/
def failureCount (m : Meters) (cycle : String) : Nat := (m.failures.get? cycle).getD 0

/-! ## Families -/

open Exposition

/-- The family of one integer gauge. -/
def gauge (name help : String) (value : Float) : Family :=
  { name := "peerguard_" ++ name, help, kind := .gauge, samples := [{ value }] }

/-- The family of a counter. -/
def counter (name help : String) (samples : List Sample) : Family :=
  { name := "peerguard_" ++ name, help, kind := .counter, samples }

/-- The samples of the failures, in the order of the cycles' names. -/
def failureSamples (m : Meters) : List Sample :=
  m.failures.entries.map fun (cycle, n) => { labels := [("cycle", cycle)], value := counterReading n }

/-- The samples of the events, in the order of the names of kinds and grades. -/
def eventSamples (m : Meters) : List Sample :=
  m.events.entries.flatMap fun (attack, counts) =>
    counts.entries.map fun (severity, n) =>
      { labels := [("attack_type", attack), ("severity", severity)], value := counterReading n }

/-- All families in the order of their names. -/
def families (m : Meters) : List Family :=
  [gauge "active_peers" "Peers in the active outbound set" (Float.ofInt m.activePeers),
   gauge "avg_latency_ms" "Mean latency over active peers" m.averageLatencyMs,
   gauge "bandwidth_mbps" "Summed peer throughput" m.bandwidthMbps,
   gauge "blocked_ips" "Banned IP addresses" (Float.ofInt m.bannedAddresses),
   gauge "blocked_peers" "Blocked peer identities" (Float.ofInt m.blockedPeers),
   gauge "congested" "1 while congestion is declared" (Float.ofInt m.congested),
   counter "cycle_failures_total" "Cycle iterations that failed" m.failureSamples,
   gauge "peers" "Known peers" (Float.ofInt m.peers),
   counter "pool_evictions_total" "Peers pruned from the pool" [{ value := counterReading m.evictions }],
   counter "security_events_total" "Security events by attack type" m.eventSamples,
   gauge "trusted_peers" "Peers above the trust threshold" (Float.ofInt m.trustedPeers)]

/-- The text for a collector. -/
def text (m : Meters) : String := Exposition.text m.families

end Meters

end PeerWarden
