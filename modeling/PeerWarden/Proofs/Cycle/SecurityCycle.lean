import PeerWarden.Proofs.Threat.Flood
import PeerWarden.Run.Session

/-!
# A Security Cycle, Peer by Peer

Every stage of a security cycle goes over all peers. Here the stages are put together for the record of one
peer: `detectedPeer` is what the detectors make of it, and the reputation pass and the forgetting follow in a cycle
that is not broken off. What concerns addresses is read off the search for floods in the same way.

## Main statements

- `get?_detect`, `get?_securityCycle`: the record of a peer after the detectors and after the whole cycle
- `detectedPeer_eq`: the detectors touch nothing of a record but its trust and two counters
- `securityCycle_eq_ok`: what a cycle reports that is not broken off
-/

namespace PeerWarden

/-! ## The stages of detection -/

/-- What a detector of single peers makes of a record. -/
def Detector.judge (d : Detector) (p : Peer) : Peer := if d.flags p then p.scaleTrust d.factor else p

/-- What Sybil detection makes of a record, given the addresses with too many suspects. -/
def Sybil.judge (cfg : Config.Security) (clusters : Directory String Nat) (p : Peer) : Peer :=
  if isSuspect cfg p && clusters.contains p.address then flag p else p

theorem Detector.get?_penalize (d : Detector) (r : Registry) (id : String) :
    (d.penalize r).get? id = (r.get? id).map d.judge :=
  Registry.get?_map ..

theorem Sybil.get?_penalize (cfg : Config.Security) (r : Registry) (id : String) :
    (penalize cfg r).get? id = (r.get? id).map (judge cfg (clusters cfg r)) :=
  Registry.get?_map ..

/-- The peers that a model flags, with the probability of a threat. Without a model there are none. -/
def Classifier.accused (model : Option Classifier) (asked : List Features) (cfg : Config)
    (rates : Directory String Nat) (r : Registry) : List (String × Float) :=
  match model with
  | none => []
  | some model =>
    flagged cfg.security.classifierThreshold (interview model asked (questions cfg.dosProtection rates r)).answers

theorem Classifier.get?_consult (model : Option Classifier) (asked : List Features) (cfg : Config)
    (now : Instant) (rates : Directory String Nat) (r : Registry) (id : String) :
    (consult model asked cfg now rates r).registry.get? id =
      (r.get? id).map fun p => ((accused model asked cfg rates r).lookup id).elim p (cap · p) := by
  cases model with
  | none => simp [consult, accused]
  | some model => exact Registry.get?_map ..

theorem Classifier.consult_events (model : Option Classifier) (asked : List Features) (cfg : Config)
    (now : Instant) (rates : Directory String Nat) (r : Registry) :
    (consult model asked cfg now rates r).events = findings now (accused model asked cfg rates r) := by
  cases model <;> rfl

/-- The reputation pass touches nothing of a record but its trust and its block. -/
theorem Peer.reviewed_eq (now : Instant) (idleDecayAfter : Span) (p : Peer) :
    ∃ trust ban, p.reviewed now idleDecayAfter = { p with trust, ban } := by
  unfold reviewed
  split
  · split
    · exact ⟨_, _, rfl⟩
    · exact ⟨p.trust, p.ban, rfl⟩
  · have hreassess : ∃ trust, p.reassess = { p with trust } := by
      unfold reassess
      split
      · exact ⟨p.trust, rfl⟩
      · exact ⟨_, rfl⟩
    obtain ⟨trust, htrust⟩ := hreassess
    rw [htrust, decay]
    split
    · exact ⟨_, p.ban, rfl⟩
    · exact ⟨trust, p.ban, rfl⟩

/-- The peers that are forgotten are those that were idle for too long. -/
theorem Registry.mem_forgotten_iff {r : Registry} {now : Instant} {retention : Span} {id : String} :
    id ∈ r.forgotten now retention ↔ ∃ p, r.get? id = some p ∧ p.isForgottenAt now retention = true := by
  rw [forgotten, Directory.mem_keys_iff, Directory.contains, Directory.get?_filter, Option.isSome_iff_exists]
  simp only [Option.filter_eq_some_iff]
  rfl

namespace State

variable (s : State) (cfg : Config) (model : Option Classifier) (asked : List Features) (now : Instant)

/-- The search for floods, the first stage of a security cycle. -/
def floods : FloodOutcome := Flood.detect cfg.dosProtection now s.registry s.attempts s.bans

def clustered : Registry := Sybil.penalize cfg.security (s.floods cfg now).registry

def eclipsed : Registry := (Detector.eclipse cfg.security now).penalize (s.clustered cfg now)

/-- The peers once timing detection is through; these are the ones that the classifier is told about. -/
def screened : Registry := (Detector.timing cfg.security now).penalize (s.eclipsed cfg now)

/-- The probability of a threat for which the classifier flags a peer. -/
def accusation? (id : String) : Option Float :=
  (Classifier.accused model asked cfg (s.floods cfg now).rates (s.screened cfg now)).lookup id

/-- The record of a peer once the search for floods is through. -/
def blamed (p : Peer) : Peer :=
  if (s.floods cfg now).offenders.contains p.address then p.noteFlood else p

def clusteredPeer (p : Peer) : Peer :=
  Sybil.judge cfg.security (Sybil.clusters cfg.security (s.floods cfg now).registry) (s.blamed cfg now p)

def eclipsedPeer (p : Peer) : Peer := (Detector.eclipse cfg.security now).judge (s.clusteredPeer cfg now p)

/-- The record of a peer once timing detection is through. -/
def screenedPeer (p : Peer) : Peer := (Detector.timing cfg.security now).judge (s.eclipsedPeer cfg now p)

/-- The record of a peer once all detectors are through. -/
def detectedPeer (id : String) (p : Peer) : Peer :=
  (s.accusation? cfg model asked now id).elim (s.screenedPeer cfg now p)
    (Classifier.cap · (s.screenedPeer cfg now p))

/-- The record of a peer once the reputation pass of a cycle that completes is through. -/
def reviewedPeer (id : String) (p : Peer) : Peer :=
  (s.detectedPeer cfg model asked now id p).reviewed now cfg.security.idleDecayAfter

/-- The search for floods counts one against the peers behind the addresses that it bans. -/
theorem blamed_eq (p : Peer) : s.blamed cfg now p =
    { p with floods := p.floods + if (s.floods cfg now).offenders.contains p.address then 1 else 0 } := by
  unfold blamed
  split <;> rfl

theorem get?_blamed (id : String) :
    (s.floods cfg now).registry.get? id = (s.registry.get? id).map (s.blamed cfg now) :=
  Flood.get?_registry ..

theorem get?_clustered (id : String) :
    (s.clustered cfg now).get? id = (s.registry.get? id).map (s.clusteredPeer cfg now) := by
  rw [clustered, Sybil.get?_penalize, get?_blamed, Option.map_map]
  rfl

theorem get?_eclipsed (id : String) :
    (s.eclipsed cfg now).get? id = (s.registry.get? id).map (s.eclipsedPeer cfg now) := by
  rw [eclipsed, Detector.get?_penalize, get?_clustered, Option.map_map]
  rfl

theorem get?_screened (id : String) :
    (s.screened cfg now).get? id = (s.registry.get? id).map (s.screenedPeer cfg now) := by
  rw [screened, Detector.get?_penalize, get?_eclipsed, Option.map_map]
  rfl

theorem get?_detect (id : String) : (s.detect cfg model asked now).registry.get? id =
    (s.registry.get? id).map (s.detectedPeer cfg model asked now id) := by
  have hconsult : (s.detect cfg model asked now).registry =
      (Classifier.consult model asked cfg now (s.floods cfg now).rates (s.screened cfg now)).registry := rfl
  rw [hconsult, Classifier.get?_consult, get?_screened, Option.map_map]
  rfl

theorem get?_reviewed (id : String) :
    ((s.detect cfg model asked now).registry.reviewed now cfg.security.idleDecayAfter).get? id =
      (s.registry.get? id).map (s.reviewedPeer cfg model asked now id) := by
  rw [Registry.reviewed, Registry.get?_map, get?_detect, Option.map_map]
  rfl

/-- The detectors touch nothing of a record but its trust and the counters of floods and clusters. -/
theorem detectedPeer_eq (id : String) (p : Peer) : ∃ trust clusterFlags, s.detectedPeer cfg model asked now id p =
    { p with trust, clusterFlags, floods := (s.blamed cfg now p).floods } := by
  have hblamed : s.blamed cfg now p = { p with floods := (s.blamed cfg now p).floods } := by
    unfold blamed
    split <;> rfl
  have hsybil (clusters : Directory String Nat) (q : Peer) : ∃ trust clusterFlags,
      Sybil.judge cfg.security clusters q = { q with trust, clusterFlags } := by
    unfold Sybil.judge
    split
    · exact ⟨_, _, rfl⟩
    · exact ⟨q.trust, q.clusterFlags, rfl⟩
  have hdetector (d : Detector) (q : Peer) : ∃ trust, d.judge q = { q with trust } := by
    unfold Detector.judge
    split
    · exact ⟨_, rfl⟩
    · exact ⟨q.trust, rfl⟩
  -- Each stage is applied to what the one before left, so the changes are put together in order.
  obtain ⟨t₁, c₁, h₁⟩ := hsybil (Sybil.clusters cfg.security (s.floods cfg now).registry) (s.blamed cfg now p)
  obtain ⟨t₂, h₂⟩ := hdetector (Detector.eclipse cfg.security now)
    { s.blamed cfg now p with trust := t₁, clusterFlags := c₁ }
  obtain ⟨t₃, h₃⟩ := hdetector (Detector.timing cfg.security now)
    { s.blamed cfg now p with trust := t₂, clusterFlags := c₁ }
  have hscreened : s.screenedPeer cfg now p =
      { p with trust := t₃, clusterFlags := c₁, floods := (s.blamed cfg now p).floods } := by
    rw [screenedPeer, eclipsedPeer, clusteredPeer, h₁, h₂, h₃, hblamed]
  unfold detectedPeer
  rw [hscreened]
  cases s.accusation? cfg model asked now id with
  | none => exact ⟨t₃, c₁, rfl⟩
  | some probability => exact ⟨_, c₁, rfl⟩

theorem address_screenedPeer (p : Peer) : (s.screenedPeer cfg now p).address = p.address := by
  -- Without a classifier, what timing detection leaves is all that the detectors leave.
  obtain ⟨trust, clusterFlags, hdetected⟩ := s.detectedPeer_eq cfg none [] now "" p
  have hscreened : s.screenedPeer cfg now p = s.detectedPeer cfg none [] now "" p := rfl
  rw [hscreened, hdetected]

/-! ## Findings -/

theorem detect_events : (s.detect cfg model asked now).events =
    (s.floods cfg now).events ++ Sybil.findings cfg.security now (s.floods cfg now).registry ++
      (Detector.eclipse cfg.security now).findings (s.clustered cfg now) ++
      (Detector.timing cfg.security now).findings (s.eclipsed cfg now) ++
      Classifier.findings now
        (Classifier.accused model asked cfg (s.floods cfg now).rates (s.screened cfg now)) := by
  rw [← Classifier.consult_events]
  rfl

theorem filter_dos_events : (s.detect cfg model asked now).events.filter (fun e => e.attack = .dos) =
    (s.floods cfg now).events := by
  have hfloods : (s.floods cfg now).events.filter (fun e => e.attack = .dos) = (s.floods cfg now).events :=
    List.filter_eq_self.mpr fun e he => by simpa using Flood.attack_of_mem _ _ _ _ _ he
  rw [detect_events]
  simp only [List.filter_append, hfloods, Sybil.findings, Detector.findings, Classifier.findings,
    List.filter_map]
  simp [Function.comp_def, Detector.eclipse, Detector.timing]

/-! ## The whole cycle -/

/-- A cycle that is broken off leaves the state as the detectors left it. -/
theorem securityCycle_of_crash {message : String} (h : (s.detect cfg model asked now).crash = some message) :
    (s.securityCycle cfg model asked now).state = s.detected (s.detect cfg model asked now) ∧
      (s.securityCycle cfg model asked now).report = .error (.cycleCrashed "security" message) := by
  simp [securityCycle, h]

theorem securityCycle_of_complete (h : (s.detect cfg model asked now).crash = none) :
    (s.securityCycle cfg model asked now).state =
      ((s.detected (s.detect cfg model asked now)).reviewed cfg.security now
        (s.detect cfg model asked now).events).tidy cfg.security now := by
  simp [securityCycle, h]

theorem securityCycle_report_of_complete (h : (s.detect cfg model asked now).crash = none) :
    ∃ report, (s.securityCycle cfg model asked now).report = .ok report := by
  simp [securityCycle, h]

/-- A cycle completes unless the classifier breaks off. -/
theorem isOk_report : (s.securityCycle cfg model asked now).report.isOk =
    (s.detect cfg model asked now).crash.isNone := by
  cases h : (s.detect cfg model asked now).crash with
  | some message => simp [(securityCycle_of_crash s cfg model asked now h).2, Except.isOk, Except.toBool]
  | none =>
    obtain ⟨report, hreport⟩ := securityCycle_report_of_complete s cfg model asked now h
    simp [hreport, Except.isOk, Except.toBool]

/-- What a cycle reports that is not broken off. -/
theorem securityCycle_eq_ok {report : ThreatReport}
    (h : (s.securityCycle cfg model asked now).report = .ok report) :
    (s.detect cfg model asked now).crash = none ∧
      report.events = (s.detect cfg model asked now).events ∧
      report.blockedAddresses = (s.floods cfg now).offenders.keys ∧
      report.forgottenPeers =
        ((s.detect cfg model asked now).registry.reviewed now cfg.security.idleDecayAfter).forgotten now
          cfg.security.peerRetention := by
  cases hcrash : (s.detect cfg model asked now).crash with
  | some message => simp [(securityCycle_of_crash s cfg model asked now hcrash).2] at h
  | none =>
    simp only [securityCycle, hcrash, Except.ok.injEq] at h
    subst h
    exact ⟨rfl, rfl, rfl, rfl⟩

theorem expiredBans_of_ok {report : ThreatReport} (h : (s.securityCycle cfg model asked now).report = .ok report) :
    report.expiredBans = ((s.floods cfg now).bans.sweep now).2 := by
  cases hcrash : (s.detect cfg model asked now).crash with
  | some message => simp [(securityCycle_of_crash s cfg model asked now hcrash).2] at h
  | none =>
    simp only [securityCycle, hcrash, Except.ok.injEq] at h
    subst h
    rfl

/-- The record of a peer after a whole cycle. -/
theorem get?_securityCycle (id : String) : (s.securityCycle cfg model asked now).state.registry.get? id =
    match (s.detect cfg model asked now).crash with
    | some _ => (s.registry.get? id).map (s.detectedPeer cfg model asked now id)
    | none =>
      ((s.registry.get? id).map fun p =>
        (s.detectedPeer cfg model asked now id p).reviewed now cfg.security.idleDecayAfter).filter
          fun p => !p.isForgottenAt now cfg.security.peerRetention := by
  cases hcrash : (s.detect cfg model asked now).crash with
  | some message =>
    rw [(securityCycle_of_crash s cfg model asked now hcrash).1]
    exact get?_detect ..
  | none =>
    rw [securityCycle_of_complete s cfg model asked now hcrash]
    simp only [tidy, State.reviewed, detected, Registry.get?_forget, Registry.reviewed, Registry.get?_map,
      get?_detect, Option.map_map]
    rfl

/-- A cycle that finds a block not overdue leaves it; only forgetting can take the record away. -/
theorem get?_securityCycle_of_blocked {id : String} {p : Peer} {ban : Ban} (hp : s.registry.get? id = some p)
    (hban : p.ban = some ban) (hnow : ban.overdueAt now = false) :
    (s.securityCycle cfg model asked now).state.registry.get? id =
      if (s.securityCycle cfg model asked now).report.isOk && p.isForgottenAt now cfg.security.peerRetention then none
      else some (s.detectedPeer cfg model asked now id p) := by
  obtain ⟨trust, clusterFlags, hdetected⟩ := detectedPeer_eq s cfg model asked now id p
  rw [get?_securityCycle, hp]
  cases hcrash : (s.detect cfg model asked now).crash with
  | some message => simp [(securityCycle_of_crash s cfg model asked now hcrash).2, Except.isOk, Except.toBool]
  | none =>
    obtain ⟨report, hreport⟩ := securityCycle_report_of_complete s cfg model asked now hcrash
    -- The reputation pass leaves a block that is not overdue, and with it the whole record.
    have hreviewed : (s.detectedPeer cfg model asked now id p).reviewed now cfg.security.idleDecayAfter =
        s.detectedPeer cfg model asked now id p := by
      rw [hdetected]
      simp [Peer.reviewed, Peer.isBlocked, Peer.isOverdueAt, hban, hnow]
    have hforgotten : (s.detectedPeer cfg model asked now id p).isForgottenAt now cfg.security.peerRetention =
        p.isForgottenAt now cfg.security.peerRetention := by
      rw [hdetected]
      rfl
    rw [hreport]
    simp only [Option.map_some, hreviewed, Option.filter, hforgotten, Except.isOk, Except.toBool, Bool.true_and]
    cases p.isForgottenAt now cfg.security.peerRetention <;> rfl

/-- A peer that is still known after a cycle stands where it stood, with the floods counted by that cycle. -/
theorem floods_securityCycle {id : String} {p' : Peer}
    (h : (s.securityCycle cfg model asked now).state.registry.get? id = some p') :
    ∃ p, s.registry.get? id = some p ∧ p'.address = p.address ∧ p'.floods = (s.blamed cfg now p).floods := by
  rw [get?_securityCycle] at h
  split at h
  · obtain ⟨p, hp, rfl⟩ := Option.map_eq_some_iff.mp h
    obtain ⟨trust, clusterFlags, heq⟩ := detectedPeer_eq s cfg model asked now id p
    exact ⟨p, hp, by rw [heq], by rw [heq]⟩
  · obtain ⟨hmap, -⟩ := Option.filter_eq_some_iff.mp h
    obtain ⟨p, hp, rfl⟩ := Option.map_eq_some_iff.mp hmap
    obtain ⟨trust, clusterFlags, heq⟩ := detectedPeer_eq s cfg model asked now id p
    obtain ⟨trust', ban, hreviewed⟩ := Peer.reviewed_eq now cfg.security.idleDecayAfter
      (s.detectedPeer cfg model asked now id p)
    exact ⟨p, hp, by rw [hreviewed, heq], by rw [hreviewed, heq]⟩

/-- A peer that was known and is not after a cycle is one that the report names as forgotten. -/
theorem forgotten_of_get?_eq_none {id : String} {p : Peer} (hp : s.registry.get? id = some p)
    (h : (s.securityCycle cfg model asked now).state.registry.get? id = none) :
    ∃ report, (s.securityCycle cfg model asked now).report = .ok report ∧ id ∈ report.forgottenPeers := by
  rw [get?_securityCycle, hp] at h
  cases hcrash : (s.detect cfg model asked now).crash with
  | some message => simp [hcrash] at h
  | none =>
    -- Only the last part of the cycle takes a record away, and it reports what it takes.
    obtain ⟨report, hreport⟩ := securityCycle_report_of_complete s cfg model asked now hcrash
    refine ⟨report, hreport, ?_⟩
    rw [(securityCycle_eq_ok s cfg model asked now hreport).2.2.2, Registry.mem_forgotten_iff]
    refine ⟨s.reviewedPeer cfg model asked now id p, ?_, ?_⟩
    · rw [get?_reviewed, hp]
      rfl
    · simpa [hcrash, reviewedPeer, Option.filter_eq_none_iff] using h

/-- A security cycle empties the logs of the addresses that it bans and prunes the others. -/
theorem get?_attempts_securityCycle (address : String) :
    (s.securityCycle cfg model asked now).state.attempts.get? address =
      if (s.floods cfg now).offenders.contains address then none
      else (some (AttemptLog.trailing now cfg.dosProtection.window (s.attempts.of address))).filter
        fun queue => !queue.isEmpty := by
  -- No later stage touches the logs, whether the cycle is broken off or not.
  have hattempts : (s.securityCycle cfg model asked now).state.attempts = (s.floods cfg now).attempts := by
    cases h : (s.detect cfg model asked now).crash with
    | some message => rw [(securityCycle_of_crash s cfg model asked now h).1]; rfl
    | none => rw [securityCycle_of_complete s cfg model asked now h]; rfl
  rw [hattempts]
  exact Flood.get?_attempts ..

/-- A security cycle sets the bans for flooding; unless it is broken off, it drops the bans that have lapsed. -/
theorem get?_bans_securityCycle (address : String) :
    (s.securityCycle cfg model asked now).state.bans.get? address =
      ((s.floods cfg now).bans.get? address).filter fun ban =>
        !(s.securityCycle cfg model asked now).report.isOk || ban.inForceAt now := by
  cases h : (s.detect cfg model asked now).crash with
  | some message =>
    obtain ⟨hstate, hreport⟩ := securityCycle_of_crash s cfg model asked now h
    have hbans : (s.securityCycle cfg model asked now).state.bans = (s.floods cfg now).bans := by rw [hstate]; rfl
    rw [hbans, hreport]
    cases (s.floods cfg now).bans.get? address <;> rfl
  | none =>
    obtain ⟨report, hreport⟩ := securityCycle_report_of_complete s cfg model asked now h
    have hbans : (s.securityCycle cfg model asked now).state.bans = ((s.floods cfg now).bans.sweep now).1 := by
      rw [securityCycle_of_complete s cfg model asked now h]
      rfl
    rw [hbans, hreport, BanList.sweep_fst, Directory.get?_filter]
    cases (s.floods cfg now).bans.get? address <;> rfl

end State

/-! ## Cycles of a warden -/

namespace Warden

variable (w : Warden) (s : Session) (now : Instant)

theorem securityCycle_state : (w.securityCycle s now).1.state =
    (s.state.securityCycle w.config w.classifier s.asked now).state := by
  cases h : (s.state.securityCycle w.config w.classifier s.asked now).report <;>
    simp [securityCycle, observe, h]

theorem securityCycle_report : (w.securityCycle s now).2 =
    (s.state.securityCycle w.config w.classifier s.asked now).report := by
  cases h : (s.state.securityCycle w.config w.classifier s.asked now).report <;> simp [securityCycle, h]

theorem get?_bans_step (address : String) : (w.step s (.securityCycle now)).state.bans.get? address =
    ((s.state.floods w.config now).bans.get? address).filter fun ban =>
      !(w.securityCycle s now).2.isOk || ban.inForceAt now := by
  have hstate : (w.step s (.securityCycle now)).state = _ := w.securityCycle_state s now
  rw [hstate, securityCycle_report]
  exact State.get?_bans_securityCycle ..

theorem get?_attempts_step (address : String) : (w.step s (.securityCycle now)).state.attempts.get? address =
    if (s.state.floods w.config now).offenders.contains address then none
    else (some (AttemptLog.trailing now w.config.dosProtection.window (s.state.attempts.of address))).filter
      fun queue => !queue.isEmpty := by
  have hstate : (w.step s (.securityCycle now)).state = _ := w.securityCycle_state s now
  rw [hstate]
  exact State.get?_attempts_securityCycle ..

end Warden

end PeerWarden
