import PeerWarden.Proofs.Cycle.Commutation
import PeerWarden.Proofs.Cycle.Penalties
import PeerWarden.Proofs.Cycle.Upkeep
import PeerWarden.Proofs.Threat.Clusters

/-!
# What a Security Cycle Makes of Trust

A security cycle goes over the records of all peers in five passes, each of which works on what the one before left.
For the trust of a peer the end of it comes to one of four cases, told apart by the record before the cycle: an
overdue block is lifted and the trust set anew, any other block stays and only the detectors count, a peer with a
record is scored by it, and a peer without one is left to Sybil detection, the classifier and decay.

## Main definitions

- `ThreatReport.names`: a finding of a kind names a peer or an address
- `Trust.cutIf`, `Trust.capFor`: what a detector and the classifier leave of a trust
- `Peer.TrustSettled`: the four cases for one peer
- `State.SettlesTrust`: what a completed cycle makes of all peers, and what its report says of them

## Main statements

- `State.screenedPeer_eq`: what the detectors make of a record
- `State.names_iff`: whom the findings name, told by the records before the cycle
- `Warden.security_cycle_settles_trust`: a completed cycle after every run
-/

namespace PeerWarden

open Number

/-! ## Cuts and caps -/

namespace Trust

/-- What is left of a trust that is cut by a factor if something is found. -/
def cutIf (found : Bool) (factor trust : Float) : Float := if found then trust * factor else trust

/-- What is left of a trust that is capped if there is a probability of a threat. -/
def capFor (accusation : Option Float) (trust : Float) : Float :=
  accusation.elim trust fun probability => lesser trust (1.0 - probability)

end Trust

/-! ## What the detectors leave -/

/-- A detector of single peers cuts the trust of those that it flags. -/
theorem Detector.judge_eq {d : Detector} (hd : InUnit d.factor) {p : Peer} (h : InUnit p.trust) :
    d.judge p = { p with trust := Trust.cutIf (d.flags p) d.factor p.trust } := by
  unfold judge Trust.cutIf
  split
  · rw [← Peer.trust_scaleTrust h hd]
    rfl
  · rfl

namespace State

variable (s : State) (cfg : Config) (model : Option Classifier) (asked : List Features) (now : Instant)

section Stages

variable {s} {id : String} {p : Peer} (hp : s.registry.get? id = some p) (hunit : InUnit p.trust)

include hp hunit

theorem clusteredPeer_eq : s.clusteredPeer cfg now p =
    { p with
      trust := Trust.cutIf (Sybil.isClustered cfg.security s.registry p) 0.5 p.trust
      clusterFlags := (s.clusteredPeer cfg now p).clusterFlags
      floods := (s.blamed cfg now p).floods } := by
  -- Sybil detection works on the registry after the search for floods, which touches the counters of floods only.
  have hblamed : (s.floods cfg now).registry.get? id = some (s.blamed cfg now p) := by
    rw [get?_blamed, hp, Option.map_some]
  have hunit' : InUnit (s.blamed cfg now p).trust := by
    rw [blamed_eq]
    exact hunit
  unfold clusteredPeer Trust.cutIf
  rw [Sybil.judge_clusters hblamed hunit', isClustered_blamed, blamed_eq]
  split <;> rfl

/-- The detectors cut the trust of a peer one after the other, each for what the record says. -/
theorem screenedPeer_eq : s.screenedPeer cfg now p =
    { p with
      trust := Trust.cutIf ((Detector.timing cfg.security now).flags p) 0.6
        (Trust.cutIf ((Detector.eclipse cfg.security now).flags p) 0.8
          (Trust.cutIf (Sybil.isClustered cfg.security s.registry p) 0.5 p.trust))
      clusterFlags := (s.clusteredPeer cfg now p).clusterFlags
      floods := (s.blamed cfg now p).floods } := by
  have hclustered := (s.notRaised_clusteredPeer cfg now hunit).inUnit
  have heclipsed := (s.notRaised_eclipsedPeer cfg now hunit).inUnit
  -- What the detectors look at is not touched by the passes before them.
  rw [screenedPeer, Detector.judge_eq (by decide : InUnit (0.6 : Float)) heclipsed, eclipsedPeer,
    Detector.judge_eq (by decide : InUnit (0.8 : Float)) hclustered, clusteredPeer_eq cfg now hp hunit]
  rfl

end Stages

/-- The classifier caps what the detectors leave. -/
theorem detectedPeer_eq_cap {id : String} {p : Peer} (hunit : InUnit p.trust)
    (haccused : ∀ probability, s.accusation? cfg model asked now id = some probability → InUnit probability) :
    s.detectedPeer cfg model asked now id p =
      { s.screenedPeer cfg now p with
        trust := Trust.capFor (s.accusation? cfg model asked now id) (s.screenedPeer cfg now p).trust } := by
  have hscreened : InUnit (s.screenedPeer cfg now p).trust := (s.notRaised_screenedPeer cfg now hunit).inUnit
  unfold detectedPeer Trust.capFor
  cases h : s.accusation? cfg model asked now id with
  | none => rfl
  | some probability => exact Classifier.cap_eq hscreened (haccused probability h)

end State

/-! ## Whom the findings name -/

/-- Whether a finding of a kind names a peer or an address. -/
def ThreatReport.names (report : ThreatReport) (attack : AttackType) (subject : String) : Bool :=
  report.events.any fun e => decide (e.attack = attack) && decide (e.subject = subject)

theorem ThreatReport.names_iff {report : ThreatReport} {attack : AttackType} {subject : String} :
    report.names attack subject = true ↔ ∃ e ∈ report.events, e.attack = attack ∧ e.subject = subject := by
  simp [names]

theorem Detector.exists_finding_iff {d : Detector} (hsubject : ∀ id p, (d.finding id p).subject = id) {r : Registry}
    {id : String} : (∃ e ∈ d.findings r, e.subject = id) ↔ ∃ p, r.get? id = some p ∧ d.flags p = true := by
  constructor
  · rintro ⟨e, he, rfl⟩
    exact flags_of_mem_findings hsubject he
  · rintro ⟨p, hp, hflags⟩
    have hentry : (id, p) ∈ r.peers.entries.filter fun e => d.flags e.2 :=
      List.mem_filter.mpr ⟨Directory.mem_entries_iff.mpr hp, hflags⟩
    exact ⟨d.finding id p, List.mem_map_of_mem hentry, hsubject id p⟩

theorem Sybil.exists_finding_iff {cfg : Config.Security} {now : Instant} {r : Registry} {address : String} :
    (∃ e ∈ findings cfg now r, e.subject = address) ↔ (clusters cfg r).contains address = true := by
  constructor
  · rintro ⟨e, he, rfl⟩
    exact contains_of_mem_findings he
  · intro h
    obtain ⟨n, hn⟩ := Option.isSome_iff_exists.mp h
    exact ⟨_, List.mem_map_of_mem (Directory.mem_entries_iff.mpr hn), rfl⟩

theorem Classifier.exists_finding_iff {now : Instant} {accused : List (String × Float)} {id : String} :
    (∃ e ∈ findings now accused, e.subject = id) ↔ ∃ probability, accused.lookup id = some probability := by
  constructor
  · rintro ⟨e, he, rfl⟩
    obtain ⟨⟨name, probability⟩, hmem, rfl⟩ := List.mem_map.mp he
    apply Option.ne_none_iff_exists'.mp
    intro hnone
    exact absurd (List.lookup_eq_none_iff.mp hnone (name, probability) hmem) (by simp)
  · rintro ⟨probability, h⟩
    obtain ⟨front, back, rfl, -⟩ := List.lookup_eq_some_iff.mp h
    exact ⟨_, List.mem_map_of_mem (by simp : (id, probability) ∈ _), rfl⟩

namespace State

variable (s : State) (cfg : Config) (model : Option Classifier) (asked : List Features) (now : Instant)

/-- The findings of the stage that reports attacks of a kind. -/
def stageFindings : AttackType → List Event
  | .dos => (s.floods cfg now).events
  | .sybil => Sybil.findings cfg.security now (s.floods cfg now).registry
  | .eclipse => (Detector.eclipse cfg.security now).findings (s.clustered cfg now)
  | .vdfManipulation => (Detector.timing cfg.security now).findings (s.eclipsed cfg now)
  | .unknown => Classifier.findings now
      (Classifier.accused model asked cfg (s.floods cfg now).rates (s.screened cfg now))
  | .selfishMining | .rateLimit => []

/-- Each kind of attack is reported by one stage, and that stage reports nothing else. -/
theorem mem_stageFindings_iff {attack : AttackType} {e : Event} : e ∈ s.stageFindings cfg model asked now attack ↔
    e ∈ (s.detect cfg model asked now).events ∧ e.attack = attack := by
  constructor
  · intro h
    constructor
    · -- The findings of detection are those of the stages, one after the other.
      rw [detect_events]
      simp only [List.mem_append]
      cases attack <;> simp_all [stageFindings]
    · cases attack with
      | dos => exact Flood.attack_of_mem _ _ _ _ _ h
      | selfishMining | rateLimit => cases h
      | sybil | eclipse | vdfManipulation | unknown =>
        obtain ⟨subject, -, rfl⟩ := List.mem_map.mp h
        rfl
  · -- The other way round, the kind of a finding tells which stage it comes from.
    rintro ⟨h, rfl⟩
    have hstage := s.stage_of_mem cfg model asked now h
    unfold stageFindings
    split <;> simp_all

variable {s cfg model asked now} {report : ThreatReport} {id address : String} {p : Peer}

/-- An accusation rests on what the model answers to a question about a peer that is not blocked. -/
theorem exists_of_accusation? {probability : Float} (hunit : ∀ id p, s.registry.get? id = some p → InUnit p.trust)
    (h : s.accusation? cfg model asked now id = some probability) :
    ∃ classify p earlier score, model = some classify ∧ s.registry.get? id = some p ∧ p.ban = none ∧
      classify earlier (Classifier.features cfg.dosProtection (s.floods cfg now).rates (s.screenedPeer cfg now p)) =
        .score score ∧ score.isFinite = true ∧ probability = clampUnit score ∧
      ¬probability < cfg.security.classifierThreshold := by
  obtain ⟨classify, q, earlier, score, hmodel, hq, hfree, hanswer, hfinite, hclamp, hreached⟩ :=
    Classifier.mem_accused (Classifier.lookup_accused_eq_some_iff.mp h)
  -- The question was about the record that the detectors left, which is blocked as it was before.
  rw [get?_screened] at hq
  obtain ⟨p, hp, rfl⟩ := Option.map_eq_some_iff.mp hq
  refine ⟨classify, p, earlier, score, hmodel, hp, ?_, hanswer, hfinite, hclamp, hreached⟩
  rw [screenedPeer_eq cfg now hp (hunit id p hp)] at hfree
  simpa [Peer.isBlocked] using hfree

variable (hevents : report.events = (s.detect cfg model asked now).events)
  (hunit : ∀ id p, s.registry.get? id = some p → InUnit p.trust)

include hevents

theorem names_iff {attack : AttackType} : report.names attack id = true ↔
    ∃ e ∈ s.stageFindings cfg model asked now attack, e.subject = id := by
  simp only [ThreatReport.names_iff, hevents, mem_stageFindings_iff, and_assoc]

theorem names_sybil_iff : report.names .sybil address = true ↔
    0 < (Sybil.suspectsBehind cfg.security s.registry address).size ∧
      cfg.security.sybilMinPeers ≤ (Sybil.suspectsBehind cfg.security s.registry address).size := by
  rw [names_iff hevents]
  apply Sybil.exists_finding_iff.trans
  rw [Sybil.contains_clusters, size_suspectsBehind_floods, decide_eq_true_eq]

theorem names_unknown_iff : report.names .unknown id = true ↔
    ∃ probability, s.accusation? cfg model asked now id = some probability := by
  rw [names_iff hevents]
  exact Classifier.exists_finding_iff

/-- A peer is in a cluster if it is a suspect and the report names its address. -/
theorem isClustered_eq (hp : s.registry.get? id = some p) : Sybil.isClustered cfg.security s.registry p =
    (decide (p.trust < cfg.security.minimumTrustScore) && report.names .sybil p.address) := by
  rw [Bool.eq_iff_iff, Sybil.isClustered_iff, Bool.and_eq_true, decide_eq_true_eq, names_sybil_iff hevents]
  refine and_congr_right fun hsuspect => (and_iff_right ?_).symm
  exact Sybil.size_suspectsBehind_pos cfg.security hp (decide_eq_true hsuspect)

omit hevents in
/-- A detector that looks at nothing that the passes before it touch flags the peers that it would have flagged before
    the cycle. -/
theorem exists_flagged_iff {d : Detector} {r : Registry} {f : Peer → Peer}
    (hr : r.get? id = (s.registry.get? id).map f)
    (hflags : ∀ p, s.registry.get? id = some p → d.flags (f p) = d.flags p) :
    (∃ p, r.get? id = some p ∧ d.flags p = true) ↔ ∃ p, s.registry.get? id = some p ∧ d.flags p = true := by
  rw [hr]
  constructor
  · rintro ⟨q, hq, hflagged⟩
    obtain ⟨p, hp, rfl⟩ := Option.map_eq_some_iff.mp hq
    exact ⟨p, hp, hflags p hp ▸ hflagged⟩
  · rintro ⟨p, hp, hflagged⟩
    exact ⟨f p, by rw [hp, Option.map_some], (hflags p hp).trans hflagged⟩

include hunit

theorem names_eclipse_iff : report.names .eclipse id = true ↔
    ∃ p, s.registry.get? id = some p ∧ (Detector.eclipse cfg.security now).flags p = true := by
  rw [names_iff hevents]
  apply (Detector.exists_finding_iff fun _ _ => rfl).trans
  apply exists_flagged_iff (get?_clustered ..)
  intro p hp
  rw [clusteredPeer_eq cfg now hp (hunit id p hp)]
  rfl

theorem names_timing_iff : report.names .vdfManipulation id = true ↔
    ∃ p, s.registry.get? id = some p ∧ (Detector.timing cfg.security now).flags p = true := by
  rw [names_iff hevents]
  apply (Detector.exists_finding_iff fun _ _ => rfl).trans
  apply exists_flagged_iff (get?_eclipsed ..)
  intro p hp
  have hclustered := (s.notRaised_clusteredPeer cfg now (hunit id p hp)).inUnit
  rw [eclipsedPeer, Detector.judge_eq (by decide : InUnit (0.8 : Float)) hclustered,
    clusteredPeer_eq cfg now hp (hunit id p hp)]
  rfl

end State

/-! ## The four cases -/

namespace Peer

variable (now : Instant) (idleDecayAfter : Span) {p : Peer}

theorem reviewed_of_overdue {ban : Ban} (hban : p.ban = some ban) (h : ban.overdueAt now = true) :
    p.reviewed now idleDecayAfter = p.unblock := by
  simp [reviewed, isBlocked, isOverdueAt, hban, h]

theorem reviewed_of_blocked {ban : Ban} (hban : p.ban = some ban) (h : ban.overdueAt now = false) :
    p.reviewed now idleDecayAfter = p := by
  simp [reviewed, isBlocked, isOverdueAt, hban, h]

theorem ban_reviewed_of_free (hban : p.ban = none) : (p.reviewed now idleDecayAfter).ban = none := by
  rw [ban_reviewed]
  simp [isOverdueAt, hban]

/-- Without a record there is nothing to score, and only idleness counts. -/
theorem reviewed_of_no_record (hban : p.ban = none) (hrecord : p.interactions = 0) (hunit : InUnit p.trust) :
    p.reviewed now idleDecayAfter =
      { p with trust := Trust.cutIf (decide (idleDecayAfter < p.idleAt now)) 0.9 p.trust } := by
  have hreviewed : p.reviewed now idleDecayAfter = p.decay now idleDecayAfter := by
    simp [reviewed, reassess, isBlocked, hban, hrecord]
  rw [hreviewed, decay]
  unfold Trust.cutIf
  by_cases h : idleDecayAfter < p.idleAt now
  · rw [if_pos h, if_pos (decide_eq_true h), ← trust_scaleTrust hunit (by decide : InUnit (0.9 : Float))]
    rfl
  · rw [if_neg h, if_neg (by simpa using h)]

/-- What a completed cycle makes of the trust of one peer, given its report, the probability of a threat for which the
    classifier flagged the peer, and the record of the peer before and after. -/
structure TrustSettled (cfg : Config) (now : Instant) (report : ThreatReport) (accusation : Option Float) (id : String)
    (before after : Peer) : Prop where
  /-- An overdue block is lifted, and the trust is set anew. -/
  lapsed : ∀ ban deadline, before.ban = some ban → ban.expires = some deadline → deadline < now →
    after.ban = none ∧ after.trust = 0.3
  /-- Any other block stays, and the trust is cut by the detectors that report the peer or its address. -/
  blocked : ∀ ban, before.ban = some ban → (∀ deadline, ban.expires = some deadline → ¬deadline < now) →
    after.ban = some ban ∧
      after.trust = Trust.cutIf (report.names .vdfManipulation id) 0.6
        (Trust.cutIf (report.names .eclipse id) 0.8
          (Trust.cutIf (decide (before.trust < cfg.security.minimumTrustScore) && report.names .sybil before.address)
            0.5 before.trust))
  /-- A peer with a record is scored by it, with the flood that this cycle counted, and decays when it is idle. As long
      as its blocks can be counted in a machine word, writing the score only clamps it. -/
  scored : before.ban = none → 0 < before.interactions →
    let floods := before.floods + if before.address ∈ report.blockedAddresses then 1 else 0
    let score := 0.7 * (Float.ofNat before.validBlocks / Float.ofNat before.interactions) -
      0.3 * lesser (Float.ofNat floods / 10.0) 1.0
    after.ban = none ∧
      after.trust = Trust.cutIf (decide (cfg.security.idleDecayAfter < before.idleAt now)) 0.9 (Trust.ofFloat score) ∧
      (before.interactions < 2 ^ 64 → Trust.ofFloat score = clampUnit score)
  /-- Without a record, a peer is left with what Sybil detection, the classifier and idleness leave of its trust. -/
  unproven : before.ban = none → before.interactions = 0 →
    after.ban = none ∧
      after.trust = Trust.cutIf (decide (cfg.security.idleDecayAfter < before.idleAt now)) 0.9
        (Trust.capFor accusation
          (Trust.cutIf (decide (before.trust < cfg.security.minimumTrustScore) && report.names .sybil before.address)
            0.5 before.trust))

end Peer

namespace State

variable {s : State} {cfg : Config} {model : Option Classifier} {asked : List Features} {now : Instant}
  {report : ThreatReport} {id : String} {p : Peer}

/-- What the detectors and the classifier make of a record, told by the findings. -/
theorem detectedPeer_eq_named (hevents : report.events = (s.detect cfg model asked now).events)
    (hunit : ∀ id p, s.registry.get? id = some p → InUnit p.trust) (hp : s.registry.get? id = some p) :
    s.detectedPeer cfg model asked now id p =
      { p with
        trust := Trust.capFor (s.accusation? cfg model asked now id)
          (Trust.cutIf (report.names .vdfManipulation id) 0.6
            (Trust.cutIf (report.names .eclipse id) 0.8
              (Trust.cutIf (decide (p.trust < cfg.security.minimumTrustScore) && report.names .sybil p.address)
                0.5 p.trust)))
        clusterFlags := (s.clusteredPeer cfg now p).clusterFlags
        floods := (s.blamed cfg now p).floods } := by
  have haccused (probability : Float) (h : s.accusation? cfg model asked now id = some probability) :
      InUnit probability := by
    obtain ⟨-, -, -, score, -, -, -, -, hfinite, rfl, -⟩ := exists_of_accusation? hunit h
    exact inUnit_clampUnit (isNaN_eq_false_of_isFinite hfinite)
  -- The peer has one record, so that a detector names it exactly if it flags this record.
  have hnamed {attack : AttackType} {d : Detector} (h : report.names attack id = true ↔
      ∃ p, s.registry.get? id = some p ∧ d.flags p = true) : d.flags p = report.names attack id := by
    rw [Bool.eq_iff_iff, h, hp]
    simp
  rw [detectedPeer_eq_cap s cfg model asked now (hunit id p hp) haccused,
    screenedPeer_eq cfg now hp (hunit id p hp), isClustered_eq hevents hp,
    hnamed (names_eclipse_iff hevents hunit), hnamed (names_timing_iff hevents hunit)]

/-- The classifier is not asked about a blocked peer. -/
theorem accusation?_of_blocked (hunit : ∀ id p, s.registry.get? id = some p → InUnit p.trust)
    (hp : s.registry.get? id = some p) (hban : p.ban ≠ none) : s.accusation? cfg model asked now id = none := by
  by_contra h
  obtain ⟨probability, haccused⟩ := Option.ne_none_iff_exists'.mp h
  obtain ⟨-, q, -, -, -, hq, hfree, -⟩ := exists_of_accusation? hunit haccused
  rw [hp] at hq
  obtain rfl := Option.some.inj hq
  exact hban hfree

/-- Detectors of single peers look for valid blocks. -/
theorem not_named_of_no_record (hevents : report.events = (s.detect cfg model asked now).events)
    (hunit : ∀ id p, s.registry.get? id = some p → InUnit p.trust) (hp : s.registry.get? id = some p)
    (hrecord : p.interactions = 0) :
    report.names .eclipse id = false ∧ report.names .vdfManipulation id = false := by
  have hblocks : p.validBlocks = 0 := (Nat.add_eq_zero_iff.mp hrecord).1
  constructor
  · apply Bool.eq_false_iff.mpr
    rw [ne_eq, names_eclipse_iff hevents hunit, hp]
    simp [Detector.eclipse, hblocks]
  · apply Bool.eq_false_iff.mpr
    rw [ne_eq, names_timing_iff hevents hunit, hp]
    simp [Detector.timing, hblocks]

theorem trustSettled (hreport : (s.securityCycle cfg model asked now).report = .ok report)
    (hunit : ∀ id p, s.registry.get? id = some p → InUnit p.trust) (hp : s.registry.get? id = some p) :
    p.TrustSettled cfg now report (s.accusation? cfg model asked now id) id
      (s.reviewedPeer cfg model asked now id p) := by
  obtain ⟨-, hevents, haddresses, -⟩ := s.securityCycle_eq_ok cfg model asked now hreport
  have hdetected := detectedPeer_eq_named hevents hunit hp
  have hstill := congrArg Peer.ban hdetected
  constructor
  case lapsed =>
    intro ban deadline hban hexpires hpast
    have hoverdue : ban.overdueAt now = true := Ban.overdueAt_iff.mpr ⟨deadline, hexpires, hpast⟩
    -- The pass comes last, so that nothing cuts the new trust.
    rw [reviewedPeer, Peer.reviewed_of_overdue _ _ (hstill.trans hban) hoverdue]
    exact ⟨rfl, Trust.ofFloat_of_inUnit (by decide : InUnit (0.3 : Float))⟩
  case blocked =>
    intro ban hban hahead
    have hlater : ban.overdueAt now = false := by
      apply Bool.eq_false_iff.mpr
      intro hoverdue
      obtain ⟨deadline, hexpires, hpast⟩ := Ban.overdueAt_iff.mp hoverdue
      exact hahead deadline hexpires hpast
    have hsilent : s.accusation? cfg model asked now id = none := accusation?_of_blocked hunit hp (by simp [hban])
    rw [reviewedPeer, Peer.reviewed_of_blocked _ _ (hstill.trans hban) hlater, hdetected, hsilent]
    exact ⟨hban, rfl⟩
  case scored =>
    intro hban hrecord floods score
    have hfloods : (s.blamed cfg now p).floods = floods := by
      simp only [blamed_eq, floods, haddresses, Directory.mem_keys_iff]
    have hfree : (s.detectedPeer cfg model asked now id p).isBlocked = false := by
      rw [Peer.isBlocked, hstill]
      exact congrArg Option.isSome hban
    refine ⟨Peer.ban_reviewed_of_free _ _ (hstill.trans hban), ?_,
      fun hword => Trust.ofFloat_deserved hrecord hword floods⟩
    -- The pass overwrites whatever the detectors and the classifier made of the trust.
    rw [reviewedPeer, Peer.trust_reviewed_of_record _ _ hfree (hdetected ▸ hrecord), hdetected, hfloods]
    unfold Trust.cutIf
    simp only [decide_eq_true_eq]
    rfl
  case unproven =>
    intro hban hrecord
    have hfree := hstill.trans hban
    have hdecayed := Peer.reviewed_of_no_record now cfg.security.idleDecayAfter hfree (hdetected ▸ hrecord)
      (s.notRaised_detectedPeer cfg model asked now (hunit id p hp) id).inUnit
    -- Two of the detectors find nothing against a peer without blocks, so their cuts drop out.
    obtain ⟨heclipse, htiming⟩ := not_named_of_no_record hevents hunit hp hrecord
    refine ⟨Peer.ban_reviewed_of_free _ _ hfree, ?_⟩
    rw [reviewedPeer, hdecayed, hdetected, heclipse, htiming]
    rfl

end State

/-! ## What the report says of the reputation pass -/

/-- What a reputation pass does is told by blocks, counters and times; a change that keeps these makes no difference. -/
theorem Registry.sweepAt_map {f : String → Peer → Peer} (hban : ∀ id p, (f id p).ban = p.ban)
    (hrecord : ∀ id p, (f id p).interactions = p.interactions) (hseen : ∀ id p, (f id p).lastSeen = p.lastSeen)
    (r : Registry) (now : Instant) (idleDecayAfter : Span) :
    (r.map f).sweepAt now idleDecayAfter = r.sweepAt now idleDecayAfter := by
  simp only [sweepAt, map, Directory.map, Directory.values, Directory.filter, Directory.keys, List.filter_map,
    List.map_map, List.length_map, Function.comp_def, Peer.isBlocked, Peer.isOverdueAt, Peer.idleAt, hban, hrecord,
    hseen]
  rfl

/-- Counting the peers that are not blocked and have a property. -/
theorem Registry.encard_free (r : Registry) (P : Peer → Prop) [DecidablePred P] :
    {id | ∃ p, r.get? id = some p ∧ p.ban = none ∧ P p}.encard =
      ((r.peers.values.filter fun p => !p.isBlocked).filter fun p => decide (P p)).length := by
  rw [List.filter_filter, ← Directory.encard_setOf_any]
  congr 1
  ext id
  show (∃ p, r.get? id = some p ∧ _) ↔ (r.get? id).any _ = true
  cases r.get? id with
  | none => simp
  | some p => simp [Peer.isBlocked, and_comm]

/-- The pass lists the peers whose block is overdue. -/
theorem Registry.mem_unblocked_iff {r : Registry} {now : Instant} {idleDecayAfter : Span} {id : String} :
    id ∈ (r.sweepAt now idleDecayAfter).unblocked ↔ ∃ p ban deadline, r.get? id = some p ∧ p.ban = some ban ∧
      ban.expires = some deadline ∧ deadline < now := by
  show id ∈ (r.peers.filter fun _ p => p.isOverdueAt now).keys ↔ _
  rw [Directory.mem_keys_iff, Directory.contains, Directory.get?_filter, Option.isSome_iff_exists]
  constructor
  · rintro ⟨p, h⟩
    obtain ⟨hp, hoverdue⟩ := Option.filter_eq_some_iff.mp h
    obtain ⟨ban, hban, hpast⟩ := (Option.any_eq_true ..).mp hoverdue
    obtain ⟨deadline, hexpires, hlate⟩ := Ban.overdueAt_iff.mp hpast
    exact ⟨p, ban, deadline, hp, hban, hexpires, hlate⟩
  · rintro ⟨p, ban, deadline, hp, hban, hexpires, hlate⟩
    have hpast : ban.overdueAt now = true := Ban.overdueAt_iff.mpr ⟨deadline, hexpires, hlate⟩
    exact ⟨p, Option.filter_eq_some_iff.mpr ⟨hp, (Option.any_eq_true ..).mpr ⟨ban, hban, hpast⟩⟩⟩

namespace State

variable {s : State} {cfg : Config} {model : Option Classifier} {asked : List Features} {now : Instant}
  {report : ThreatReport}

/-- The detectors before the pass make no difference to what the report says of it. -/
theorem reputation_of_ok (h : (s.securityCycle cfg model asked now).report = .ok report) :
    report.reputation = s.registry.sweepAt now cfg.security.idleDecayAfter := by
  cases hcrash : (s.detect cfg model asked now).crash with
  | some message => simp [(securityCycle_of_crash s cfg model asked now hcrash).2] at h
  | none =>
    simp only [securityCycle, hcrash, Except.ok.injEq] at h
    subst h
    show (s.detect cfg model asked now).registry.sweepAt now cfg.security.idleDecayAfter = _
    rw [registry_detect]
    -- Detection touches trust, flags and floods, and the pass reports none of these.
    apply Registry.sweepAt_map <;> intro id p <;>
      obtain ⟨trust, clusterFlags, hdetected⟩ := s.detectedPeer_eq cfg model asked now id p <;> rw [hdetected]
    rfl

/-! ## The whole cycle -/

variable (s cfg model asked now report)

/-- What a completed security cycle makes of the trust of all peers, and what its report says of them. -/
structure SettlesTrust : Prop where
  /-- Every peer that is not forgotten falls under the four cases. -/
  peers : ∀ id before, s.registry.get? id = some before → id ∉ report.forgottenPeers →
    ∃ after, (s.securityCycle cfg model asked now).state.registry.get? id = some after ∧
      before.TrustSettled cfg now report (s.accusation? cfg model asked now id) id after
  /-- The report names an address for a Sybil attack if there are enough suspects behind it. -/
  sybil : ∀ address, report.names .sybil address = true ↔
    0 < (Sybil.suspectsBehind cfg.security s.registry address).size ∧
      cfg.security.sybilMinPeers ≤ (Sybil.suspectsBehind cfg.security s.registry address).size
  /-- It names a peer for an eclipse attack or for its timing if the record of the peer is flagged. -/
  eclipse : ∀ id, report.names .eclipse id = true ↔ ∃ p, s.registry.get? id = some p ∧
    cfg.security.eclipseMinBlocks < p.validBlocks ∧ p.invalidBlocks = 0
  timing : ∀ id, report.names .vdfManipulation id = true ↔ ∃ p, s.registry.get? id = some p ∧
    cfg.security.vdfMinBlocks < p.validBlocks ∧
      (p.knownFor now).toFloat / Float.ofNat p.validBlocks < cfg.security.vdfAnomalyThreshold.toFloat
  /-- It names a peer for the classifier if there is a probability of a threat. -/
  accused : ∀ id, report.names .unknown id = true ↔
    ∃ probability, s.accusation? cfg model asked now id = some probability
  /-- This is the clamped answer of the model to a question about the peer, and reaches the threshold. -/
  accusation : ∀ id probability, s.accusation? cfg model asked now id = some probability →
    ∃ classify p earlier score, model = some classify ∧ s.registry.get? id = some p ∧ p.ban = none ∧
      classify earlier (Classifier.features cfg.dosProtection (s.floods cfg now).rates (s.screenedPeer cfg now p)) =
        .score score ∧ score.isFinite = true ∧ probability = clampUnit score ∧
      ¬probability < cfg.security.classifierThreshold
  /-- The report counts the peers that were scored and those that decayed, also among the forgotten ones. -/
  recomputed : {id | ∃ p, s.registry.get? id = some p ∧ p.ban = none ∧ 0 < p.interactions}.encard =
    report.reputation.recomputed
  decayed : {id | ∃ p, s.registry.get? id = some p ∧ p.ban = none ∧
    cfg.security.idleDecayAfter < p.idleAt now}.encard = report.reputation.decayed
  /-- It lists the peers whose block was lifted, in ascending order. -/
  ordered : report.reputation.unblocked.Pairwise (· < ·)
  unblocked : ∀ id, id ∈ report.reputation.unblocked ↔ ∃ p ban deadline, s.registry.get? id = some p ∧
    p.ban = some ban ∧ ban.expires = some deadline ∧ deadline < now

variable {s cfg model asked now report}

theorem settlesTrust_of_inUnit (hreport : (s.securityCycle cfg model asked now).report = .ok report)
    (hunit : ∀ id p, s.registry.get? id = some p → InUnit p.trust) : s.SettlesTrust cfg model asked now report := by
  obtain ⟨hcrash, hevents, -, hforgotten⟩ := s.securityCycle_eq_ok cfg model asked now hreport
  have hreputation := reputation_of_ok hreport
  constructor
  case peers =>
    intro id before hbefore hkept
    refine ⟨s.reviewedPeer cfg model asked now id before, ?_, trustSettled hreport hunit hbefore⟩
    have hstays : (s.reviewedPeer cfg model asked now id before).isForgottenAt now cfg.security.peerRetention =
        false := by
      apply Bool.eq_false_iff.mpr
      intro hold
      apply hkept
      rw [hforgotten, Registry.mem_forgotten_iff]
      exact ⟨_, by rw [get?_reviewed, hbefore, Option.map_some], hold⟩
    rw [get?_securityCycle, hcrash, hbefore]
    exact Option.filter_eq_some_iff.mpr ⟨rfl, by simpa [reviewedPeer] using hstays⟩
  case sybil => exact fun address => names_sybil_iff hevents
  case eclipse =>
    intro id
    rw [names_eclipse_iff hevents hunit]
    simp [Detector.eclipse]
  case timing =>
    intro id
    rw [names_timing_iff hevents hunit]
    refine exists_congr fun p => and_congr_right fun _ => ?_
    exact Bool.and_eq_true_iff.trans (and_congr decide_eq_true_iff decide_eq_true_iff)
  case accused => exact fun id => names_unknown_iff hevents
  case accusation => exact fun id probability h => exists_of_accusation? hunit h
  case recomputed =>
    rw [hreputation]
    exact s.registry.encard_free fun p => 0 < p.interactions
  case decayed =>
    rw [hreputation]
    exact s.registry.encard_free fun p => cfg.security.idleDecayAfter < p.idleAt now
  case ordered =>
    rw [hreputation]
    exact List.pairwise_map.mpr (Directory.ordered _)
  case unblocked =>
    intro id
    rw [hreputation]
    exact Registry.mem_unblocked_iff

end State

namespace Warden

/-- **A completed security cycle settles the trust of all peers**, after every run, and whatever the policy is and the
    classifier answers. -/
theorem security_cycle_settles_trust (w : Warden) (ops : List Operation) (cfg : Config) (model : Option Classifier)
    (asked : List Features) (now : Instant) (report : ThreatReport)
    (h : ((w.run w.start ops).state.securityCycle cfg model asked now).report = .ok report) :
    (w.run w.start ops).state.SettlesTrust cfg model asked now report :=
  State.settlesTrust_of_inUnit h fun id p hp => (w.run_earned w.start_earned ops id p hp).inUnit

/-- Four peers, one for each case: two that are blocked, for a while and for good, one with a record and one
    without. -/
def fourCases : List Operation :=
  [.request (.register "p" "a" 0), .request (.blockPeer "p" "spam" (some 10) 0), .request (.register "q" "b" 0),
    .request (.blockPeer "q" "spam" none 0), .request (.register "r" "c" 0), .request (.success "r" 0),
    .request (.register "s" "d" 0)]

/-- A classifier that takes everyone for a threat only concerns the last of them. -/
theorem security_cycle_settles_trust_fourCases :
    let w : Warden := { standalone {} with classifier := some (Classifier.scripted [.score 0.9]) }
    let s := (w.run w.start fourCases).state
    ∃ report, (s.securityCycle w.config w.classifier [] 20).report = .ok report ∧
      s.SettlesTrust w.config w.classifier [] 20 report ∧ report.forgottenPeers = [] ∧
      report.events.map (fun e => (e.attack, e.subject)) = [(.unknown, "r"), (.unknown, "s")] ∧
      ((s.securityCycle w.config w.classifier [] 20).state.registry.peers.entries.map fun e => (e.1, e.2.trust)) =
        [("p", 0.3), ("q", 0.5), ("r", 0.7), ("s", 1.0 - 0.9)] := by
  intro w s
  obtain ⟨report, hreport⟩ := s.securityCycle_report_of_complete w.config w.classifier [] 20 (by decide +kernel)
  obtain ⟨-, hevents, -, hforgotten⟩ := s.securityCycle_eq_ok w.config w.classifier [] 20 hreport
  refine ⟨report, hreport, security_cycle_settles_trust w fourCases w.config w.classifier [] 20 report hreport, ?_, ?_,
    by decide +kernel⟩
  · rw [hforgotten]
    decide +kernel
  · rw [hevents]
    decide +kernel

end Warden

end PeerWarden
