import Mathlib.Data.List.Basic
import PeerWarden.Proofs.Directory.Entries
import PeerWarden.Telemetry.Meters

/-!
# What a Collector Reads

A collector finds a value under the name of a family and the labels of a sample. Here it is said what it finds there
after the meters have observed something. A counter with labels appears when it is first counted up; all other
samples are there from the start.

## Main definitions

- `Meters.readings`: the values under a name and some labels
- `Meters.counted`: what a counter shows that appears when it is first counted up
- `Meters.Shows`: the gauges show a status

## Main statements

- `shows_observeStatus`: what was observed is shown
- `readings_events`, `readings_failures`, `readings_evictions`: the counters show their counts
- `get?_ofKind_observeEvents`: observing events counts them
-/

namespace PeerWarden

theorem AttackType.name_injective : Function.Injective AttackType.name := by
  intro a b h
  cases a <;> cases b <;> first | rfl | simp [name] at h

theorem Severity.name_injective : Function.Injective Severity.name := by
  intro a b h
  cases a <;> cases b <;> first | rfl | simp [name] at h

namespace Meters

open Exposition

/-! ## Readings -/

/-- The values under a name and some labels. -/
def readings (m : Meters) (name : String) (labels : List (String × String)) : List Float :=
  ((m.families.filter (·.name = "peerguard_" ++ name)).flatMap fun f => f.samples.filter (·.labels = labels)).map
    (·.value)

/-- What a counter shows that appears when it is first counted up. -/
def counted (n : Nat) : List Float := if n = 0 then [] else [Float.ofNat n]

/-- How often something was counted, of which nothing is kept before the first time. -/
def count? (n : Nat) : Option Nat := if n = 0 then none else some n

/-- Larger counts do not fit into a gauge. -/
def maxReading : Nat := 9223372036854775807

variable {m : Meters} {n : Nat}

theorem count?_succ (n : Nat) : some ((count? n).getD 0 + 1) = count? (n + 1) := by
  unfold count?
  split <;> simp_all

theorem gaugeReading_of_le (h : n ≤ maxReading) : gaugeReading n = n := by
  have : Number.twoTo 64 = 18446744073709551616 := rfl
  unfold maxReading at h
  rw [gaugeReading, this]
  apply Int.bmod_eq_of_le_mul_two <;> omega

theorem counterReading_of_le (h : n ≤ maxReading) : counterReading n = Float.ofNat n := by
  have : Number.twoTo 64 = 18446744073709551616 := rfl
  unfold maxReading at h
  rw [counterReading, this, Nat.mod_eq_of_lt (by omega)]

theorem toList_count? (h : n ≤ maxReading) : (count? n).toList.map counterReading = counted n := by
  unfold count? counted
  split
  · rfl
  · simp [counterReading_of_le h]

/-- The families in which nothing counts by labels have one sample each. -/
theorem readings_gauge {name help : String} {value : Float}
    (h : m.families.filter (·.name = "peerguard_" ++ name) = [gauge name help value]) :
    m.readings name [] = [value] := by
  simp [readings, h, gauge]

/-! ## Gauges -/

section

variable (m : Meters)

theorem readings_peers : m.readings "peers" [] = [Float.ofInt m.peers] := readings_gauge rfl

theorem readings_activePeers : m.readings "active_peers" [] = [Float.ofInt m.activePeers] := readings_gauge rfl

theorem readings_trustedPeers : m.readings "trusted_peers" [] = [Float.ofInt m.trustedPeers] := readings_gauge rfl

theorem readings_blockedPeers : m.readings "blocked_peers" [] = [Float.ofInt m.blockedPeers] := readings_gauge rfl

theorem readings_bannedAddresses : m.readings "blocked_ips" [] = [Float.ofInt m.bannedAddresses] := readings_gauge rfl

theorem readings_congested : m.readings "congested" [] = [Float.ofInt m.congested] := readings_gauge rfl

end

/-- The gauges show a status, as far as its counts fit into them. -/
structure Shows (m : Meters) (status : Status) : Prop where
  peers : status.peersTotal ≤ maxReading → m.readings "peers" [] = [Float.ofNat status.peersTotal]
  activePeers : status.peersActive ≤ maxReading → m.readings "active_peers" [] = [Float.ofNat status.peersActive]
  trustedPeers :
    status.trustedPeers ≤ maxReading → m.readings "trusted_peers" [] = [Float.ofNat status.trustedPeers]
  blockedPeers :
    status.blockedPeers ≤ maxReading → m.readings "blocked_peers" [] = [Float.ofNat status.blockedPeers]
  bannedAddresses :
    status.bannedAddresses ≤ maxReading → m.readings "blocked_ips" [] = [Float.ofNat status.bannedAddresses]
  latency : m.readings "avg_latency_ms" [] = [status.averageLatencyMs]
  bandwidth : m.readings "bandwidth_mbps" [] = [status.bandwidthMbps]
  congested : m.readings "congested" [] = [if status.congested then 1 else 0]

theorem shows_observeStatus (m : Meters) (status : Status) : (m.observeStatus status).Shows status := by
  have hcount {n : Nat} (h : n ≤ maxReading) : Float.ofInt (gaugeReading n) = Float.ofNat n := by
    rw [gaugeReading_of_le h]
    rfl
  constructor
  case peers => exact fun h => by simp only [readings_peers, observeStatus, hcount h]
  case activePeers => exact fun h => by simp only [readings_activePeers, observeStatus, hcount h]
  case trustedPeers => exact fun h => by simp only [readings_trustedPeers, observeStatus, hcount h]
  case blockedPeers => exact fun h => by simp only [readings_blockedPeers, observeStatus, hcount h]
  case bannedAddresses => exact fun h => by simp only [readings_bannedAddresses, observeStatus, hcount h]
  case latency => exact readings_gauge rfl
  case bandwidth => exact readings_gauge rfl
  case congested =>
    simp only [readings_congested, observeStatus]
    cases status.congested <;> rfl

/-! ## Counters -/

theorem readings_counter {name help : String} {samples : List Sample} {labels : List (String × String)}
    (h : m.families.filter (·.name = "peerguard_" ++ name) = [counter name help samples]) :
    m.readings name labels = (samples.filter (·.labels = labels)).map (·.value) := by
  simp [readings, h, counter]

theorem readings_evictions (m : Meters) : m.readings "pool_evictions_total" [] = [counterReading m.evictions] := by
  rw [readings_counter rfl]
  rfl

/-- The labels of the counter for a kind and a grade. -/
def eventLabels (attack : AttackType) (severity : Severity) : List (String × String) :=
  [("attack_type", attack.name), ("severity", severity.name)]

theorem readings_events (m : Meters) (attack : AttackType) (severity : Severity) :
    m.readings "security_events_total" (eventLabels attack severity) =
      ((m.ofKind attack).get? severity.name).toList.map counterReading := by
  have hlabels : m.eventSamples.filter (·.labels = eventLabels attack severity) =
      (m.events.entries.filter (·.1 = attack.name)).flatMap fun kind =>
        (kind.2.entries.filter (·.1 = severity.name)).map fun grade =>
          { labels := [("attack_type", kind.1), ("severity", grade.1)], value := counterReading grade.2 } := by
    rw [eventSamples, List.filter_flatMap]
    induction m.events.entries with
    | nil => rfl
    | cons entry rest ih =>
      by_cases hname : entry.1 = attack.name
      · simpa [List.filter_map, Function.comp_def, eventLabels, hname] using ih
      · simpa [List.filter_map, Function.comp_def, eventLabels, hname] using ih
  rw [readings_counter rfl, hlabels, Directory.filter_key_entries, ofKind]
  cases m.events.get? attack.name with
  | none => rfl
  | some counts =>
    simp only [Option.map_some, Option.toList_some, List.flatMap_singleton, Directory.filter_key_entries,
      Option.getD_some]
    cases counts.get? severity.name <;> rfl

/-! ## Counting -/

/-- The events of a kind and a grade. -/
def isOf (attack : AttackType) (severity : Severity) (e : Event) : Bool := e.attack = attack && e.severity = severity

theorem get?_ofKind_observeEvent {attack : AttackType} {severity : Severity}
    (h : (m.ofKind attack).get? severity.name = count? n) (e : Event) :
    ((m.observeEvent e).ofKind attack).get? severity.name = count? (n + if isOf attack severity e then 1 else 0) := by
  by_cases hattack : e.attack = attack
  · -- The counters of the kind are replaced by those in which one grade is counted up.
    have hkind : (m.observeEvent e).ofKind attack = (m.ofKind attack).bump e.severity.name := by
      simp [observeEvent, ofKind, hattack]
    rw [hkind, Directory.get?_bump]
    by_cases hseverity : e.severity = severity
    · simp [isOf, hattack, hseverity, h, count?_succ]
    · have hname : severity.name ≠ e.severity.name := fun hname =>
        hseverity (Severity.name_injective hname).symm
      simp [isOf, hseverity, hname, h]
  · have hname : attack.name ≠ e.attack.name := fun hname => hattack (AttackType.name_injective hname).symm
    have hkind : (m.observeEvent e).ofKind attack = m.ofKind attack := by
      simp [observeEvent, ofKind, hname]
    simpa [isOf, hattack, hkind] using h

theorem get?_ofKind_observeEvents {attack : AttackType} {severity : Severity}
    (h : (m.ofKind attack).get? severity.name = count? n) (events : List Event) :
    ((m.observeEvents events).ofKind attack).get? severity.name =
      count? (n + events.countP (isOf attack severity)) := by
  induction events generalizing m n with
  | nil => exact h
  | cons e rest ih =>
    rw [List.countP_cons, Nat.add_comm (rest.countP _), ← Nat.add_assoc]
    exact ih (get?_ofKind_observeEvent h e)

/-! ## What an observation leaves alone -/

section

variable (m : Meters) (status : Status) (n : Nat)

/-- What the gauges show of a status does not depend on what they showed before. -/
theorem exists_gauges : ∃ peers active trusted blocked banned latency bandwidth congested, ∀ m : Meters,
    m.observeStatus status =
      { m with
        peers, activePeers := active, trustedPeers := trusted, blockedPeers := blocked, bannedAddresses := banned,
        averageLatencyMs := latency, bandwidthMbps := bandwidth, congested } :=
  ⟨_, _, _, _, _, _, _, _, fun _ => rfl⟩

@[simp] theorem ofKind_observeStatus (attack : AttackType) :
    (m.observeStatus status).ofKind attack = m.ofKind attack := by
  obtain ⟨_, _, _, _, _, _, _, _, hgauges⟩ := exists_gauges status
  rw [hgauges]
  rfl

@[simp] theorem ofKind_observeEvictions (attack : AttackType) :
    (m.observeEvictions n).ofKind attack = m.ofKind attack := rfl

@[simp] theorem evictions_observeStatus : (m.observeStatus status).evictions = m.evictions := by
  obtain ⟨_, _, _, _, _, _, _, _, hgauges⟩ := exists_gauges status
  rw [hgauges]

@[simp] theorem evictions_observeEvictions : (m.observeEvictions n).evictions = m.evictions + n := rfl

@[simp] theorem failures_observeStatus : (m.observeStatus status).failures = m.failures := by
  obtain ⟨_, _, _, _, _, _, _, _, hgauges⟩ := exists_gauges status
  rw [hgauges]

@[simp] theorem failures_observeEvictions : (m.observeEvictions n).failures = m.failures := rfl

@[simp] theorem failures_observeEvents (events : List Event) : (m.observeEvents events).failures = m.failures := by
  unfold observeEvents
  induction events generalizing m with
  | nil => rfl
  | cons e rest ih => exact ih (m.observeEvent e)

@[simp] theorem evictions_observeEvents (events : List Event) : (m.observeEvents events).evictions = m.evictions := by
  unfold observeEvents
  induction events generalizing m with
  | nil => rfl
  | cons e rest ih => exact ih (m.observeEvent e)

end

end Meters

end PeerWarden
