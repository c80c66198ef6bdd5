import PeerWarden.Fault
import PeerWarden.State
import PeerWarden.Threat.Classifier
import PeerWarden.Threat.Detector
import PeerWarden.Threat.Flood
import PeerWarden.Threat.Report

/-!
# The Security Cycle

One security cycle runs in three parts:

1. the detectors, in the order floods, Sybil clusters, eclipse, timing, classifier; each finds the trust of
   the peers as the one before left it, and the classifier is told the rates of the addresses that were not
   just banned
2. the reputation pass, which sets trust anew from the counters of each peer
3. the logging of what was found, and the dropping of what is too old

If the classifier breaks off, the cycle ends there: what the detectors changed stays changed, but nothing is
logged and the other two parts are left out.
-/

namespace PeerWarden

/-! ## Detection -/

/-- What the detectors leave behind. -/
structure Detection where
  registry : Registry
  /-- The search for floods, which alone changes attempts and bans. -/
  flood : FloodOutcome
  events : List Event
  /-- All questions that the classifier was asked so far, the latest first. -/
  asked : List Features
  crash : Option String

/-- Runs the detectors in their order. -/
def State.detect (s : State) (cfg : Config) (model : Option Classifier) (asked : List Features)
    (now : Instant) : Detection :=
  let flood := Flood.detect cfg.dosProtection now s.registry s.attempts s.bans
  let r₀ := flood.registry
  let r₁ := Sybil.penalize cfg.security r₀
  let eclipse := Detector.eclipse cfg.security now
  let r₂ := eclipse.penalize r₁
  let timing := Detector.timing cfg.security now
  let r₃ := timing.penalize r₂
  let consulted := Classifier.consult model asked cfg now flood.rates r₃
  -- Each stage reports on the registry that it was given, in the order of the stages.
  { registry := consulted.registry
    flood
    events := flood.events ++ Sybil.findings cfg.security now r₀ ++ eclipse.findings r₁ ++
      timing.findings r₂ ++ consulted.events
    asked := consulted.asked
    crash := consulted.crash }

/-! ## Dropping what is old -/

namespace State

/-- Drops the events that are too old, the bans that have lapsed and the peers that are forgotten. -/
def tidy (s : State) (cfg : Config.Security) (now : Instant) : State :=
  { s with
    registry := s.registry.forget now cfg.peerRetention
    bans := (s.bans.sweep now).1
    log := s.log.purge now cfg.eventRetention }

/-- Reports what is dropped from a state. -/
def tidyReport (s : State) (cfg : Config.Security) (now : Instant) (report : ThreatReport) :
    ThreatReport :=
  { report with
    purgedEvents := s.log.length - (s.log.purge now cfg.eventRetention).length
    expiredBans := (s.bans.sweep now).2
    forgottenPeers := s.registry.forgotten now cfg.peerRetention }

end State

/-! ## The whole cycle -/

/-- What a security cycle leaves behind. -/
structure SecurityOutcome where
  state : State
  /-- All questions that the classifier was asked so far, the latest first. -/
  asked : List Features
  report : Except Fault ThreatReport

namespace State

/-- The state once the detectors are through. -/
def detected (s : State) (d : Detection) : State :=
  { s with registry := d.registry, attempts := d.flood.attempts, bans := d.flood.bans }

/-- The state once the reputation pass is through and the findings are logged. -/
def reviewed (s : State) (cfg : Config.Security) (now : Instant) (events : List Event) : State :=
  { s with registry := s.registry.reviewed now cfg.idleDecayAfter, log := s.log ++ events }

/-- Runs one security cycle. -/
def securityCycle (s : State) (cfg : Config) (model : Option Classifier) (asked : List Features)
    (now : Instant) : SecurityOutcome :=
  let d := s.detect cfg model asked now
  let s₁ := s.detected d
  match d.crash with
  | some message => { state := s₁, asked := d.asked, report := .error (.cycleCrashed "security" message) }
  | none =>
    let s₂ := s₁.reviewed cfg.security now d.events
    let report : ThreatReport :=
      { events := d.events
        blockedAddresses := d.flood.offenders.keys
        reputation := s₁.registry.sweepAt now cfg.security.idleDecayAfter }
    { state := s₂.tidy cfg.security now
      asked := d.asked
      report := .ok (s₂.tidyReport cfg.security now report) }

end State

end PeerWarden
