import PeerWarden.Proofs.Cycle.HealthView
import PeerWarden.Proofs.Cycle.SecurityView
import PeerWarden.Proofs.Telemetry.Readings

/-!
# The Cycles Commute

Both cycles go over the records of all peers, and they run on timers of their own, so that either may come first. It
makes no difference which one does: a security cycle does not look at the connected set, which is all that a health
cycle changes in a record, and a health cycle looks at nothing that a security cycle changes. The one exception is a
security cycle that forgets a peer, because a health cycle before it still counts and ranks that peer.

## Main statements

- `registry_of_nobody_forgotten`: what such a cycle makes of the registry if it forgets nobody
- `securityCycle_after_healthCycle`, `healthCycle_after_securityCycle`: each cycle after the other one
- `cycles_commute`: both cycles in either order
-/

namespace PeerWarden

/-! ## Security cycles that forget nobody -/

theorem Registry.forget_of_forgotten_eq_nil {r : Registry} {now : Instant} {retention : Span}
    (h : r.forgotten now retention = []) : r.forget now retention = r := by
  refine Registry.ext_get? (fun id => ?_) rfl rfl
  have hkept (p : Peer) (hp : r.get? id = some p) : p.isForgottenAt now retention = false := by
    apply Bool.eq_false_iff.mpr
    intro hold
    have hmem : id ∈ r.forgotten now retention := Registry.mem_forgotten_iff.mpr ⟨p, hp, hold⟩
    rw [h] at hmem
    cases hmem
  rw [get?_forget]
  cases hp : r.get? id with
  | none => rfl
  | some p => simp [Option.filter, hkept p hp]

theorem Registry.map_map (r : Registry) (f g : String → Peer → Peer) :
    (r.map f).map g = r.map fun id p => g id (f id p) := by
  simp only [map, Directory.map, List.map_map, Function.comp_def]

namespace State

variable (s : State) (cfg : Config) (model : Option Classifier) (asked : List Features) (now : Instant)

/-- Neither the detectors nor the reputation pass write a field of the link. -/
theorem keepsLinks_reviewedPeer : Peer.KeepsLinks (s.reviewedPeer cfg model asked now) := by
  have hrecord (id : String) (p : Peer) : ∃ trust ban clusterFlags floods,
      s.reviewedPeer cfg model asked now id p = { p with trust, ban, clusterFlags, floods } := by
    obtain ⟨trust, clusterFlags, hdetected⟩ := s.detectedPeer_eq cfg model asked now id p
    obtain ⟨trust', ban, hreviewed⟩ := Peer.reviewed_eq now cfg.security.idleDecayAfter
      (s.detectedPeer cfg model asked now id p)
    exact ⟨trust', ban, clusterFlags, _, by rw [reviewedPeer, hreviewed, hdetected]⟩
  constructor
  case standing =>
    intro id p
    rw [reviewedPeer, Peer.standing_reviewed, standing_detectedPeer]
    rfl
  all_goals
    intro id p
    obtain ⟨trust, ban, clusterFlags, floods, h⟩ := hrecord id p
    rw [h]

theorem screened_eq : s.screened cfg now = s.registry.map fun _ => s.screenedPeer cfg now := by
  have hfloods : (s.floods cfg now).registry = s.registry.map fun _ => s.blamed cfg now := rfl
  have hsybil (r : Registry) : Sybil.penalize cfg.security r =
      r.map fun _ => Sybil.judge cfg.security (Sybil.clusters cfg.security r) := rfl
  have hdetector (d : Detector) (r : Registry) : d.penalize r = r.map fun _ => d.judge := rfl
  unfold screened eclipsed clustered screenedPeer eclipsedPeer clusteredPeer
  rw [hdetector, hdetector, hsybil, hfloods, Registry.map_map, Registry.map_map, Registry.map_map]

theorem registry_detect :
    (s.detect cfg model asked now).registry = s.registry.map (s.detectedPeer cfg model asked now) := by
  have hconsult : (s.detect cfg model asked now).registry =
      (Classifier.consult model asked cfg now (s.floods cfg now).rates (s.screened cfg now)).registry := rfl
  rw [hconsult]
  cases model with
  | none => exact s.screened_eq cfg now
  | some m =>
    have hpenalize (flagged : List (String × Float)) (r : Registry) : Classifier.penalize flagged r =
        r.map fun id p => (flagged.lookup id).elim p (Classifier.cap · p) := rfl
    unfold detectedPeer accusation? Classifier.accused Classifier.consult
    simp only [hpenalize]
    rw [screened_eq, Registry.map_map]

/-- Where nobody is forgotten, every record is still there. -/
theorem registry_of_nobody_forgotten {report : ThreatReport}
    (h : (s.securityCycle cfg model asked now).report = .ok report) (hnobody : report.forgottenPeers = []) :
    (s.securityCycle cfg model asked now).state.registry = s.registry.map (s.reviewedPeer cfg model asked now) := by
  obtain ⟨hcrash, -, -, hforgotten⟩ := s.securityCycle_eq_ok cfg model asked now h
  rw [hforgotten] at hnobody
  have hstate := securityCycle_of_complete s cfg model asked now hcrash
  calc (s.securityCycle cfg model asked now).state.registry
    _ = ((s.detect cfg model asked now).registry.reviewed now cfg.security.idleDecayAfter).forget now
        cfg.security.peerRetention := congrArg State.registry hstate
    _ = (s.detect cfg model asked now).registry.reviewed now cfg.security.idleDecayAfter :=
      Registry.forget_of_forgotten_eq_nil hnobody
    _ = (s.registry.map (s.detectedPeer cfg model asked now)).reviewed now cfg.security.idleDecayAfter := by
      rw [registry_detect]
    _ = s.registry.map (s.reviewedPeer cfg model asked now) := Registry.map_map ..

/-- A security cycle leaves the history, the congestion state and the outbound peers alone. -/
theorem securityCycle_frame : (s.securityCycle cfg model asked now).state =
    { (s.securityCycle cfg model asked now).state with
      history := s.history
      congestion := s.congestion
      outbound := s.outbound } := by
  cases h : (s.detect cfg model asked now).crash with
  | some message =>
    rw [(securityCycle_of_crash s cfg model asked now h).1]
    rfl
  | none =>
    rw [securityCycle_of_complete s cfg model asked now h]
    rfl

/-! ## One cycle after the other -/

variable (usage : HostUsage)

/-- A security cycle does not notice a health cycle before it. -/
theorem seenAlike_healthCycle : (s.healthCycle cfg usage now).1.SeenAlike s where
  peers := by
    apply Directory.ext_get?
    intro id
    rw [Registry.get?_standings, Registry.get?_standings]
    show (((s.registry.evictAll _).get? id).map Peer.standing) = _
    rw [Registry.evictAll, Registry.get?_map, Option.map_map]
    refine congrArg (Option.map · (s.registry.get? id)) (funext fun p => ?_)
    exact (apply_ite Peer.standing ..).trans (ite_self _)
  attempts := rfl
  bans := rfl
  log := rfl

variable {s cfg model asked now} {report : ThreatReport}
  (h : (s.securityCycle cfg model asked now).report = .ok report) (hnobody : report.forgottenPeers = [])

include h hnobody

/-- After a health cycle, a security cycle does what it would have done before it. -/
theorem securityCycle_after_healthCycle :
    let t := (s.healthCycle cfg usage now).1
    let u := (s.securityCycle cfg model asked now).state
    (t.securityCycle cfg model asked now).state =
      { t with registry := t.registry.map (s.reviewedPeer cfg model asked now),
               attempts := u.attempts, bans := u.bans, log := u.log } := by
  intro t u
  have halike : t.SeenAlike s := s.seenAlike_healthCycle cfg now usage
  have hreport : (t.securityCycle cfg model asked now).report = .ok report := by
    rw [halike.report_eq, h]
  have hpeer : t.reviewedPeer cfg model asked now = s.reviewedPeer cfg model asked now := by
    funext id p
    rw [reviewedPeer, halike.detectedPeer_eq]
    rfl
  have hafter := halike.securityCycle cfg now model asked
  rw [← hpeer, ← registry_of_nobody_forgotten t cfg model asked now hreport hnobody, ← hafter.attempts, ← hafter.bans,
    ← hafter.log]
  exact t.securityCycle_frame cfg model asked now

/-- After a security cycle, a health cycle does what it would have done before it. -/
theorem healthCycle_after_securityCycle :
    let t := (s.healthCycle cfg usage now).1
    let u := (s.securityCycle cfg model asked now).state
    u.healthCycle cfg usage now =
      ({ t with registry := t.registry.map (s.reviewedPeer cfg model asked now),
                attempts := u.attempts, bans := u.bans, log := u.log },
        (s.healthCycle cfg usage now).2) := by
  intro t u
  have hframe : u = { u with history := s.history, congestion := s.congestion, outbound := s.outbound } :=
    s.securityCycle_frame cfg model asked now
  exact healthCycle_of_map (s.keepsLinks_reviewedPeer cfg model asked now) cfg usage now
    (s.registry_of_nobody_forgotten cfg model asked now h hnobody) (by rw [hframe]) (by rw [hframe]) (by rw [hframe])

end State

/-! ## Both cycles of a session -/

namespace Meters

variable (m : Meters) (status : Status)

theorem observeStatus_observeStatus (latest : Status) :
    (m.observeStatus status).observeStatus latest = m.observeStatus latest := by
  -- The readings are 64-bit numbers that must not be computed here.
  obtain ⟨_, _, _, _, _, _, _, _, hstatus⟩ := exists_gauges status
  obtain ⟨_, _, _, _, _, _, _, _, hlatest⟩ := exists_gauges latest
  rw [hstatus, hlatest, hlatest]

theorem observeStatus_observeEvictions (n : Nat) :
    (m.observeStatus status).observeEvictions n = (m.observeEvictions n).observeStatus status := by
  obtain ⟨_, _, _, _, _, _, _, _, hstatus⟩ := exists_gauges status
  rw [hstatus, hstatus, observeEvictions, observeEvictions]

theorem observeStatus_observeEvent (e : Event) :
    (m.observeStatus status).observeEvent e = (m.observeEvent e).observeStatus status := by
  obtain ⟨_, _, _, _, _, _, _, _, hstatus⟩ := exists_gauges status
  rw [hstatus, hstatus]
  rfl

theorem observeStatus_observeEvents (events : List Event) :
    (m.observeStatus status).observeEvents events = (m.observeEvents events).observeStatus status := by
  unfold observeEvents
  induction events generalizing m with
  | nil => rfl
  | cons e rest ih =>
    rw [List.foldl_cons, List.foldl_cons, observeStatus_observeEvent]
    exact ih (m.observeEvent e)

theorem observeEvictions_observeEvents (n : Nat) (events : List Event) :
    (m.observeEvictions n).observeEvents events = (m.observeEvents events).observeEvictions n := by
  unfold observeEvents
  induction events generalizing m with
  | nil => rfl
  | cons e rest ih =>
    have hevent : (m.observeEvictions n).observeEvent e = (m.observeEvent e).observeEvictions n := rfl
    rw [List.foldl_cons, List.foldl_cons, hevent]
    exact ih (m.observeEvent e)

end Meters

namespace Warden

variable {w : Warden} {s : Session} {now : Instant}

theorem securityCycle_of_ok {report : ThreatReport} (h : (w.securityCycle s now).2 = .ok report) :
    let outcome := s.state.securityCycle w.config w.classifier s.asked now
    w.securityCycle s now =
      ({ s with
          state := outcome.state
          asked := outcome.asked
          meters := (s.meters.observeEvents report.events).observeStatus (outcome.state.status w.config now) },
        .ok report) := by
  rw [securityCycle_report] at h
  simp only [securityCycle, h]
  rfl

/-- **The cycles commute.** Where a security cycle at an instant completes and forgets nobody, and a health cycle at
    that instant succeeds, each of them reports the same after the other one, and both orders lead to the same
    session. -/
theorem cycles_commute (w : Warden) (s : Session) (now : Instant) {threats : ThreatReport} {health : HealthReport}
    (hthreats : (w.securityCycle s now).2 = .ok threats) (hnobody : threats.forgottenPeers = [])
    (hhealth : (w.healthCycle s now).2 = .ok health) :
    (w.securityCycle (w.healthCycle s now).1 now).2 = .ok threats ∧
      (w.healthCycle (w.securityCycle s now).1 now).2 = .ok health ∧
      (w.securityCycle (w.healthCycle s now).1 now).1 = (w.healthCycle (w.securityCycle s now).1 now).1 := by
  cases hsample : (w.sample s).2 with
  | error fault =>
    rw [healthCycle_of_error hsample] at hhealth
    cases hhealth
  | ok usage =>
    have hhealthFirst := healthCycle_of_ok hsample now
    have hsecurityFirst := securityCycle_of_ok hthreats
    rw [securityCycle_report] at hthreats
    rw [hhealthFirst] at hhealth
    obtain rfl := Except.ok.inj hhealth
    -- The security cycle goes over the state that the health cycle left, and the other way round.
    have hreport := ((s.state.seenAlike_healthCycle w.config now usage).report_eq w.config now w.classifier
      s.asked).trans hthreats
    have hasked := (s.state.seenAlike_healthCycle w.config now usage).asked_eq w.config now w.classifier s.asked
    have hsecurityState := State.securityCycle_after_healthCycle usage hthreats hnobody
    have hhealthState := State.healthCycle_after_securityCycle usage hthreats hnobody
    have hsecond : (w.securityCycle (w.healthCycle s now).1 now).2 = .ok threats := by
      rw [securityCycle_report, hhealthFirst]
      exact hreport
    have hsample' : (w.sample (w.securityCycle s now).1).2 = .ok usage := by
      rw [hsecurityFirst]
      exact hsample
    have hsecurity := securityCycle_of_ok hsecond
    have hhealth := healthCycle_of_ok hsample' now
    rw [hsecurityFirst] at hhealth
    rw [hhealthFirst] at hsecurity
    refine ⟨hsecond, ?_, ?_⟩
    · rw [hsecurityFirst, hhealth, hhealthState]
    · rw [hsecurityFirst, hhealthFirst, hhealth, hsecurity]
      simp only [hhealthState, hsecurityState, hasked, Meters.observeStatus_observeEvents,
        Meters.observeEvictions_observeEvents, Meters.observeStatus_observeEvictions,
        Meters.observeStatus_observeStatus]

/-- Both cycles at once: the one bans the address of a peer, and the other one evicts the slower of two peers. -/
theorem cycles_commute_flood :
    let w := standalone { dosProtection := { rateLimit := 1 }, pool := { maxPeers := 2, maxOutboundPeers := 1 } }
    let s := w.run w.start
      [.request (.register "p" "a" 0), .request (.latency "p" 10.0), .request (.register "q" "b" 0),
        .request (.latency "q" 20.0), .request (.attempt "a" 0), .request (.attempt "a" 1)]
    ∃ threats health, (w.securityCycle s 2).2 = .ok threats ∧ threats.blockedAddresses = ["a"] ∧
      threats.forgottenPeers = [] ∧ (w.healthCycle s 2).2 = .ok health ∧ health.pool.evicted = ["q"] ∧
      (w.securityCycle (w.healthCycle s 2).1 2).2 = .ok threats ∧
      (w.healthCycle (w.securityCycle s 2).1 2).2 = .ok health ∧
      (w.securityCycle (w.healthCycle s 2).1 2).1 = (w.healthCycle (w.securityCycle s 2).1 2).1 := by
  intro w s
  have hranked : Pool.ranked s.state.registry = s.state.registry.active :=
    Pool.ranked_of_pairwise (by decide +kernel)
  obtain ⟨threats, hreport⟩ := State.securityCycle_report_of_complete s.state w.config w.classifier s.asked 2 rfl
  obtain ⟨-, -, hblocked, hforgotten⟩ := State.securityCycle_eq_ok s.state w.config w.classifier s.asked 2 hreport
  have hthreats : (w.securityCycle s 2).2 = .ok threats := (w.securityCycle_report s 2).trans hreport
  have hnobody : threats.forgottenPeers = [] := by
    rw [hforgotten]
    decide +kernel
  have hsampled : (w.sample s).2.isOk = true := by decide +kernel
  cases hsample : (w.sample s).2 with
  | error fault =>
    rw [hsample] at hsampled
    cases hsampled
  | ok usage =>
    have hhealth := congrArg Prod.snd (healthCycle_of_ok hsample 2)
    refine ⟨threats, _, hthreats, ?_, hnobody, hhealth, ?_, cycles_commute w s 2 hthreats hnobody hhealth⟩
    · rw [hblocked]
      decide +kernel
    · simp only [State.healthCycle, Pool.decision, hranked]
      decide +kernel

end Warden

end PeerWarden
