import PeerWarden.Config

/-!
# The Schema of the Configuration

Every setting with its section, its name, the kind of its value, and its place in the configuration. Readers
and printers go through this list, so that no setting can be known to one of them and not to the other.
-/

namespace PeerWarden.Config

/-! ## Kinds of values -/

/-- The kinds of values that settings have. -/
inductive Kind where
  | natural
  | real
  | flag
  | text
  deriving DecidableEq, Repr

/-- The values of a kind. -/
abbrev Kind.Value : Kind → Type
  | natural => Nat
  | real => Float
  | flag => Bool
  | text => String

/-! ## Settings -/

/-- One setting: its name within its section, and how it is read from and put into a configuration. -/
structure Setting where
  key : String
  kind : Kind
  get : Config → kind.Value
  set : kind.Value → Config → Config

namespace Setting

/-- A setting with a natural number. -/
def natural (key : String) (get : Config → Nat) (set : Nat → Config → Config) : Setting :=
  { key, kind := .natural, get, set }

/-- A setting with a real number. -/
def real (key : String) (get : Config → Float) (set : Float → Config → Config) : Setting :=
  { key, kind := .real, get, set }

/-- A setting that is on or off. -/
def flag (key : String) (get : Config → Bool) (set : Bool → Config → Config) : Setting :=
  { key, kind := .flag, get, set }

/-- A setting with a text. -/
def text (key : String) (get : Config → String) (set : String → Config → Config) : Setting :=
  { key, kind := .text, get, set }

end Setting

/-- The settings under one heading, in their order. -/
structure Group where
  name : String
  settings : List Setting

/-! ## The sections -/

namespace Group

/-- The settings of `pool`. -/
def pool : Group where
  name := "pool"
  settings :=
    [.natural "max_peers" (·.pool.maxPeers) fun n c => { c with pool.maxPeers := n },
     .natural "max_outbound_peers" (·.pool.maxOutboundPeers) fun n c => { c with pool.maxOutboundPeers := n },
     .natural "max_inbound_peers" (·.pool.maxInboundPeers) fun n c => { c with pool.maxInboundPeers := n },
     .real "preferred_latency_ms" (·.pool.preferredLatencyMs)
       fun x c => { c with pool.preferredLatencyMs := x }]

/-- The settings of `dos_protection`. -/
def dosProtection : Group where
  name := "dos_protection"
  settings :=
    [.natural "rate_limit_requests_per_second" (·.dosProtection.rateLimit)
       fun n c => { c with dosProtection.rateLimit := n },
     .natural "window_secs" (·.dosProtection.windowSecs)
       fun n c => { c with dosProtection.windowSecs := n },
     .natural "blacklist_duration_minutes" (·.dosProtection.blacklistDurationMinutes)
       fun n c => { c with dosProtection.blacklistDurationMinutes := n }]

/-- The settings of `security`. -/
def security : Group where
  name := "security"
  settings :=
    [.real "minimum_trust_score" (·.security.minimumTrustScore)
       fun x c => { c with security.minimumTrustScore := x },
     .natural "sybil_min_peers" (·.security.sybilMinPeers)
       fun n c => { c with security.sybilMinPeers := n },
     .natural "eclipse_min_blocks" (·.security.eclipseMinBlocks)
       fun n c => { c with security.eclipseMinBlocks := n },
     .natural "vdf_min_blocks" (·.security.vdfMinBlocks)
       fun n c => { c with security.vdfMinBlocks := n },
     .natural "expected_block_delay_secs" (·.security.expectedBlockDelaySecs)
       fun n c => { c with security.expectedBlockDelaySecs := n },
     .natural "vdf_anomaly_threshold_secs" (·.security.vdfAnomalyThresholdSecs)
       fun n c => { c with security.vdfAnomalyThresholdSecs := n },
     .natural "idle_decay_hours" (·.security.idleDecayHours)
       fun n c => { c with security.idleDecayHours := n },
     .natural "peer_retention_hours" (·.security.peerRetentionHours)
       fun n c => { c with security.peerRetentionHours := n },
     .natural "event_retention_days" (·.security.eventRetentionDays)
       fun n c => { c with security.eventRetentionDays := n },
     .real "classifier_threshold" (·.security.classifierThreshold)
       fun x c => { c with security.classifierThreshold := x }]

/-- The settings of `congestion`. -/
def congestion : Group where
  name := "congestion"
  settings :=
    [.natural "history_capacity" (·.congestion.historyCapacity)
       fun n c => { c with congestion.historyCapacity := n },
     .natural "window" (·.congestion.window) fun n c => { c with congestion.window := n },
     .real "high_water_ms" (·.congestion.highWaterMs) fun x c => { c with congestion.highWaterMs := x },
     .real "low_water_ms" (·.congestion.lowWaterMs) fun x c => { c with congestion.lowWaterMs := x },
     .real "low_bandwidth_mbps" (·.congestion.lowBandwidthMbps)
       fun x c => { c with congestion.lowBandwidthMbps := x },
     .real "high_bandwidth_mbps" (·.congestion.highBandwidthMbps)
       fun x c => { c with congestion.highBandwidthMbps := x }]

/-- The settings of `schedule`. -/
def schedule : Group where
  name := "schedule"
  settings :=
    [.natural "health_interval_secs" (·.schedule.healthIntervalSecs)
       fun n c => { c with schedule.healthIntervalSecs := n },
     .natural "security_interval_secs" (·.schedule.securityIntervalSecs)
       fun n c => { c with schedule.securityIntervalSecs := n },
     .natural "health_error_backoff_secs" (·.schedule.healthErrorBackoffSecs)
       fun n c => { c with schedule.healthErrorBackoffSecs := n },
     .natural "security_error_backoff_secs" (·.schedule.securityErrorBackoffSecs)
       fun n c => { c with schedule.securityErrorBackoffSecs := n }]

/-- The settings of `sampler`. -/
def sampler : Group where
  name := "sampler"
  settings :=
    [.real "mem_pct" (·.sampler.memPct) fun x c => { c with sampler.memPct := x },
     .real "disk_pct" (·.sampler.diskPct) fun x c => { c with sampler.diskPct := x },
     .real "block_rate" (·.sampler.blockRate) fun x c => { c with sampler.blockRate := x }]

/-- The settings of `metrics`. -/
def metrics : Group where
  name := "metrics"
  settings :=
    [.flag "enabled" (·.metrics.enabled) fun b c => { c with metrics.enabled := b },
     .text "bind" (·.metrics.bind) fun s c => { c with metrics.bind := s }]

end Group

/-- All sections in their order. -/
def schema : List Group :=
  [.pool, .dosProtection, .security, .congestion, .schedule, .sampler, .metrics]

end PeerWarden.Config
