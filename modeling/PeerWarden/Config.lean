import PeerWarden.Clock

/-!
# Configuration

The settings of the program, in seven sections. The defaults stand here and nowhere else: a setting that a
configuration file does not name keeps the value given in its declaration.

Terms that are configured in minutes, hours or days are converted to seconds; a product too large for an
unsigned 64-bit number of seconds counts as the largest such number.
-/

namespace PeerWarden

namespace Config

/-! ## Sections -/

/-- How many peers are kept and which of them are preferred. -/
structure Pool where
  maxPeers : Nat := 50
  maxOutboundPeers : Nat := 25
  maxInboundPeers : Nat := 25
  /-- Peers faster than this are preferred for outbound slots. -/
  preferredLatencyMs : Float := 100.0

/-- The limit on connection attempts from one address. -/
structure DosProtection where
  /-- Attempts tolerated per address inside the sliding window. -/
  rateLimit : Nat := 100
  windowSecs : Nat := 60
  blacklistDurationMinutes : Nat := 60

/-- Thresholds of the detectors and terms of forgetting. -/
structure Security where
  minimumTrustScore : Float := 0.6
  sybilMinPeers : Nat := 5
  eclipseMinBlocks : Nat := 1000
  vdfMinBlocks : Nat := 10
  expectedBlockDelaySecs : Nat := 1800
  /-- Average seconds per block below which the timing is flagged. -/
  vdfAnomalyThresholdSecs : Nat := 1700
  idleDecayHours : Nat := 24
  peerRetentionHours : Nat := 168
  eventRetentionDays : Nat := 30
  classifierThreshold : Float := 0.7

/-- The window and the thresholds of congestion control. -/
structure Congestion where
  historyCapacity : Nat := 100
  window : Nat := 5
  highWaterMs : Float := 500.0
  lowWaterMs : Float := 200.0
  lowBandwidthMbps : Float := 1.0
  highBandwidthMbps : Float := 50.0

/-- Periods of the two cycles, and the pauses after one that failed. -/
structure Schedule where
  healthIntervalSecs : Nat := 30
  securityIntervalSecs : Nat := 10
  healthErrorBackoffSecs : Nat := 10
  securityErrorBackoffSecs : Nat := 5

/-- Figures that are reported when no live sampler is attached. -/
structure Sampler where
  memPct : Float := 0.0
  diskPct : Float := 0.0
  blockRate : Float := 0.0

/-- Where the metrics are served. -/
structure Metrics where
  enabled : Bool := true
  bind : String := "0.0.0.0:9100"

end Config

/-- All settings of the program. -/
structure Config where
  pool : Config.Pool := {}
  dosProtection : Config.DosProtection := {}
  security : Config.Security := {}
  congestion : Config.Congestion := {}
  schedule : Config.Schedule := {}
  sampler : Config.Sampler := {}
  metrics : Config.Metrics := {}

namespace Config

instance : Inhabited Config := ⟨{}⟩

/-! ## Terms -/

/-- The largest number of seconds that a term can have. -/
def maxTermSecs : Nat := 18446744073709551615

/-- A term of `n` units of so many seconds each. -/
def term (n secondsPerUnit : Nat) : Span := Span.ofSeconds (min (n * secondsPerUnit) maxTermSecs)

/-- The sliding window in which attempts are counted. -/
def DosProtection.window (d : DosProtection) : Span := Span.ofSeconds d.windowSecs

/-- How long an address is banned for flooding. -/
def DosProtection.blacklistDuration (d : DosProtection) : Span := term d.blacklistDurationMinutes 60

/-- How long a peer may be idle before its trust decays. -/
def Security.idleDecayAfter (s : Security) : Span := term s.idleDecayHours 3600

/-- How long an idle peer is remembered. -/
def Security.peerRetention (s : Security) : Span := term s.peerRetentionHours 3600

/-- How long an event is kept. -/
def Security.eventRetention (s : Security) : Span := term s.eventRetentionDays 86400

/-- The block cadence below which timing is flagged. -/
def Security.vdfAnomalyThreshold (s : Security) : Span := Span.ofSeconds s.vdfAnomalyThresholdSecs

end Config

end PeerWarden
