import PeerWarden.Config
import PeerWarden.Number.Text

/-!
# Rules for Configurations

What a configuration has to satisfy before the program runs with it. The rules are checked in a fixed order,
and the first one that is broken is reported.
-/

namespace PeerWarden

namespace Config

/-! ## Bounds

Terms above these bounds are taken for typing errors. -/

/-- A day in seconds. -/
def maxWindowSecs : Nat := 86400

/-- A year in minutes. -/
def maxBlacklistMinutes : Nat := 60 * 24 * 365

/-- Ten years in hours. -/
def maxHours : Nat := 24 * 365 * 10

/-- Ten years in days. -/
def maxRetentionDays : Nat := 365 * 10

/-- Whether a number lies between zero and one. -/
def inUnit (x : Float) : Bool := decide (0 ≤ x) && decide (x ≤ 1)

end Config

/-! ## Rules -/

/-- What is asked of a configuration. -/
inductive Rule where
  | someMaxPeers
  | someOutboundPeers
  | outboundWithinPeers
  | positiveLatency
  | someRateLimit
  | windowInRange
  | blacklistBounded
  | trustInUnit
  | thresholdInUnit
  | someSybilPeers
  | hoursBounded
  | retentionBounded
  | someHistory
  | windowWithinHistory
  | marksInOrder
  | bandwidthInOrder
  | someIntervals
  deriving DecidableEq, Repr

namespace Rule

/-- All rules in the order in which they are checked. -/
def all : List Rule :=
  [someMaxPeers, someOutboundPeers, outboundWithinPeers, positiveLatency, someRateLimit, windowInRange,
   blacklistBounded, trustInUnit, thresholdInUnit, someSybilPeers, hoursBounded, retentionBounded,
   someHistory, windowWithinHistory, marksInOrder, bandwidthInOrder, someIntervals]

/-- Whether a configuration satisfies a rule. -/
def holds (c : Config) : Rule → Bool
  | someMaxPeers => 0 < c.pool.maxPeers
  | someOutboundPeers => 0 < c.pool.maxOutboundPeers
  | outboundWithinPeers => c.pool.maxOutboundPeers ≤ c.pool.maxPeers
  | positiveLatency => c.pool.preferredLatencyMs.isFinite && decide (0 < c.pool.preferredLatencyMs)
  | someRateLimit => 0 < c.dosProtection.rateLimit
  | windowInRange => 0 < c.dosProtection.windowSecs && c.dosProtection.windowSecs ≤ Config.maxWindowSecs
  | blacklistBounded => c.dosProtection.blacklistDurationMinutes ≤ Config.maxBlacklistMinutes
  | trustInUnit => Config.inUnit c.security.minimumTrustScore
  | thresholdInUnit => Config.inUnit c.security.classifierThreshold
  | someSybilPeers => 0 < c.security.sybilMinPeers
  | hoursBounded =>
    c.security.idleDecayHours ≤ Config.maxHours && c.security.peerRetentionHours ≤ Config.maxHours
  | retentionBounded => c.security.eventRetentionDays ≤ Config.maxRetentionDays
  | someHistory => 0 < c.congestion.historyCapacity
  | windowWithinHistory => 0 < c.congestion.window && c.congestion.window ≤ c.congestion.historyCapacity
  | marksInOrder => c.congestion.lowWaterMs < c.congestion.highWaterMs
  | bandwidthInOrder => c.congestion.lowBandwidthMbps ≤ c.congestion.highBandwidthMbps
  | someIntervals => 0 < c.schedule.healthIntervalSecs && 0 < c.schedule.securityIntervalSecs

/-- What is reported when a configuration breaks a rule. -/
def message (c : Config) : Rule → String
  | someMaxPeers => "pool.max_peers must be positive"
  | someOutboundPeers => "pool.max_outbound_peers must be positive"
  | outboundWithinPeers =>
    s!"pool.max_outbound_peers ({c.pool.maxOutboundPeers}) exceeds pool.max_peers ({c.pool.maxPeers})"
  | positiveLatency => "pool.preferred_latency_ms must be positive"
  | someRateLimit => "dos_protection.rate_limit_requests_per_second must be positive"
  | windowInRange =>
    s!"dos_protection.window_secs must be in 1..={Config.maxWindowSecs}, got {c.dosProtection.windowSecs}"
  | blacklistBounded =>
    s!"dos_protection.blacklist_duration_minutes must be at most {Config.maxBlacklistMinutes}, " ++
      s!"got {c.dosProtection.blacklistDurationMinutes}"
  | trustInUnit =>
    s!"security.minimum_trust_score must lie in [0, 1], got {Number.plain c.security.minimumTrustScore}"
  | thresholdInUnit =>
    s!"security.classifier_threshold must lie in [0, 1], got {Number.plain c.security.classifierThreshold}"
  | someSybilPeers => "security.sybil_min_peers must be positive"
  | hoursBounded =>
    s!"security.idle_decay_hours and peer_retention_hours must be at most {Config.maxHours}"
  | retentionBounded =>
    s!"security.event_retention_days must be at most {Config.maxRetentionDays}, got {c.security.eventRetentionDays}"
  | someHistory => "congestion.history_capacity must be positive"
  | windowWithinHistory => "congestion.window must be in 1..=history_capacity"
  | marksInOrder =>
    s!"congestion.low_water_ms ({Number.plain c.congestion.lowWaterMs}) must be below " ++
      s!"high_water_ms ({Number.plain c.congestion.highWaterMs})"
  | bandwidthInOrder => "congestion bandwidth bounds are inverted"
  | someIntervals => "schedule intervals must be positive"

end Rule

namespace Config

/-- The first rule that a configuration breaks. -/
def broken? (c : Config) : Option Rule := Rule.all.find? fun r => !r.holds c

/-- Whether a configuration satisfies all rules. -/
def isValid (c : Config) : Bool := Rule.all.all (·.holds c)

/-- A configuration is valid exactly if it breaks no rule. -/
theorem broken?_eq_none_iff {c : Config} : c.broken? = none ↔ c.isValid = true := by
  simp [broken?, isValid]

/-- A valid configuration satisfies every rule. -/
theorem holds_of_isValid {c : Config} (h : c.isValid = true) (rule : Rule) : rule.holds c = true := by
  have hall : rule ∈ Rule.all := by cases rule <;> decide
  exact List.all_eq_true.mp h rule hall

end Config

end PeerWarden
