import PeerWarden.Proofs.Run.TrustIsEarned
import PeerWarden.Proofs.Threat.Findings

/-!
# How Long a Penalty Lasts

Detectors and classifier lower the trust of the peers that they report, each by its own measure. The
reputation pass comes after them. It has nothing to say about a peer without a record, whose penalty lasts;
but a peer with a record it scores anew, from the counters alone, so that no penalty on such a peer outlasts
the cycle that imposes it.

## Main definitions

- `Warden.PenaltiesWeigh`: what the findings of a cycle mean for a peer, and what is left of it afterwards

## Main statements

- `penalties_last_without_record`: penalties last exactly for the peers without a record
- `rescored_despite_findings`: a peer that timing and classifier report may end the cycle with full trust
-/

namespace PeerWarden

open Number Peer

/-! ## What a finding takes -/

section Measures

variable {p : Peer}

/-- A detector leaves a flagged peer no more than its share. -/
theorem Detector.trust_judge_le {d : Detector} (hd : InUnit d.factor) {p₀ : Peer} (hp : NotRaised p₀ p)
    (hunit : InUnit p₀.trust) (hflags : d.flags p = true) : (d.judge p).trust ≤ p₀.trust * d.factor := by
  rw [judge, if_pos hflags, trust_scaleTrust hp.inUnit hd]
  exact hp.inUnit.mul_le_mul_right hunit hd hp.trust_le

/-- The classifier leaves an accused peer no more than the complement of the probability. -/
theorem Classifier.trust_cap_le {probability : Float} (hp : InUnit p.trust) (h : InUnit probability) :
    (cap probability p).trust ≤ 1.0 - probability := by
  show Trust.ofFloat (lesser p.trust (1.0 - probability)) ≤ 1.0 - probability
  rw [Trust.ofFloat_of_inUnit (hp.lesser h.one_sub)]
  exact lesser_le_right h.one_sub.isNumber

/-- Sybil detection leaves a suspect behind a reported address half of its trust. -/
theorem Sybil.trust_judge {cfg : Config.Security} {clusters : Directory String Nat} (hp : InUnit p.trust)
    (hsuspect : p.trust < cfg.minimumTrustScore) (hcluster : clusters.contains p.address = true) :
    (judge cfg clusters p).trust = p.trust * factor := by
  have hflag : (isSuspect cfg p && clusters.contains p.address) = true := by
    simp [isSuspect, hsuspect, hcluster]
  rw [judge, if_pos hflag]
  exact trust_scaleTrust hp (by decide)

theorem Sybil.validBlocks_judge (cfg : Config.Security) (clusters : Directory String Nat) (p : Peer) :
    (judge cfg clusters p).validBlocks = p.validBlocks := by
  unfold judge
  split <;> rfl

theorem Detector.validBlocks_judge (d : Detector) (p : Peer) : (d.judge p).validBlocks = p.validBlocks := by
  unfold judge
  split <;> rfl

end Measures

namespace State

variable (s : State) (cfg : Config) (model : Option Classifier) (asked : List Features) (now : Instant)

theorem validBlocks_clusteredPeer (p : Peer) : (s.clusteredPeer cfg now p).validBlocks = p.validBlocks := by
  rw [clusteredPeer, Sybil.validBlocks_judge, blamed_eq]

theorem validBlocks_eclipsedPeer (p : Peer) : (s.eclipsedPeer cfg now p).validBlocks = p.validBlocks := by
  rw [eclipsedPeer, Detector.validBlocks_judge, validBlocks_clusteredPeer]

section Findings

variable {s} {cfg} {model} {asked} {now} {id : String} {p : Peer} {e : Event}

theorem trust_of_eclipse (hp : s.registry.get? id = some p) (hunit : InUnit p.trust)
    (he : e ∈ (s.detect cfg model asked now).events) (hattack : e.attack = .eclipse) (hsubject : e.subject = id) :
    0 < p.interactions ∧ (s.detectedPeer cfg model asked now id p).trust ≤ p.trust * 0.8 := by
  have hstage := s.stage_of_mem cfg model asked now he
  rw [hattack] at hstage
  obtain ⟨q, hq, hflags⟩ := Detector.flags_of_mem_findings (fun _ _ => rfl) hstage
  rw [hsubject, get?_clustered, hp] at hq
  obtain rfl := Option.some.inj hq
  have hclustered := s.notRaised_clusteredPeer cfg now hunit
  -- The stages before and after raise nothing, so the share is one of the trust before the cycle.
  have hmeasure := Detector.trust_judge_le (by decide : InUnit (0.8 : Float)) hclustered hunit hflags
  refine ⟨?_, float_le_trans ?_ hmeasure⟩
  · -- Only a peer with valid blocks is flagged.
    have hblocks : cfg.security.eclipseMinBlocks < (s.clusteredPeer cfg now p).validBlocks :=
      of_decide_eq_true (Bool.and_eq_true_iff.mp hflags).1
    rw [validBlocks_clusteredPeer] at hblocks
    exact Nat.lt_add_right p.invalidBlocks (Nat.zero_lt_of_lt hblocks)
  · exact float_le_trans (s.notRaised_accusedPeer cfg model asked now hunit id).trust_le
      (s.notRaised_screenedPeer cfg now hunit).trust_le

theorem trust_of_timing (hp : s.registry.get? id = some p) (hunit : InUnit p.trust)
    (he : e ∈ (s.detect cfg model asked now).events) (hattack : e.attack = .vdfManipulation)
    (hsubject : e.subject = id) :
    0 < p.interactions ∧ (s.detectedPeer cfg model asked now id p).trust ≤ p.trust * 0.6 := by
  have hstage := s.stage_of_mem cfg model asked now he
  rw [hattack] at hstage
  obtain ⟨q, hq, hflags⟩ := Detector.flags_of_mem_findings (fun _ _ => rfl) hstage
  rw [hsubject, get?_eclipsed, hp] at hq
  obtain rfl := Option.some.inj hq
  have heclipsed := (s.notRaised_clusteredPeer cfg now hunit).trans (s.notRaised_eclipsedPeer cfg now hunit)
  have hmeasure := Detector.trust_judge_le (by decide : InUnit (0.6 : Float)) heclipsed hunit hflags
  refine ⟨?_, float_le_trans ?_ hmeasure⟩
  · have hblocks : cfg.security.vdfMinBlocks < (s.eclipsedPeer cfg now p).validBlocks :=
      of_decide_eq_true (Bool.and_eq_true_iff.mp hflags).1
    rw [validBlocks_eclipsedPeer] at hblocks
    exact Nat.lt_add_right p.invalidBlocks (Nat.zero_lt_of_lt hblocks)
  · exact (s.notRaised_accusedPeer cfg model asked now hunit id).trust_le

theorem trust_of_sybil (hunit : InUnit p.trust) (he : e ∈ (s.detect cfg model asked now).events)
    (hattack : e.attack = .sybil) (hsubject : e.subject = p.address)
    (hsuspect : p.trust < cfg.security.minimumTrustScore) :
    (s.detectedPeer cfg model asked now id p).trust ≤ p.trust * 0.5 := by
  have hstage := s.stage_of_mem cfg model asked now he
  rw [hattack] at hstage
  have hcluster := Sybil.contains_of_mem_findings hstage
  rw [hsubject] at hcluster
  have hhalf : (s.clusteredPeer cfg now p).trust = p.trust * Sybil.factor := by
    rw [clusteredPeer, blamed_eq]
    exact Sybil.trust_judge (p := { p with floods := _ }) hunit hsuspect hcluster
  refine float_le_trans (s.notRaised_accusedPeer cfg model asked now hunit id).trust_le ?_
  refine float_le_trans (s.notRaised_screenedPeer cfg now hunit).trust_le ?_
  exact hhalf ▸ (s.notRaised_eclipsedPeer cfg now hunit).trust_le

theorem trust_of_accusation (hp : s.registry.get? id = some p) (hunit : InUnit p.trust)
    (he : e ∈ (s.detect cfg model asked now).events) (hattack : e.attack = .unknown) (hsubject : e.subject = id) :
    ∃ probability, InUnit probability ∧ ¬probability < cfg.security.classifierThreshold ∧
      e.description = s!"classifier threat probability {Number.fixed 2 probability}" ∧
      (s.detectedPeer cfg model asked now id p).trust ≤ 1.0 - probability := by
  have hstage := s.stage_of_mem cfg model asked now he
  rw [hattack] at hstage
  obtain ⟨⟨name, probability⟩, hmem, rfl⟩ := List.mem_map.mp hstage
  obtain rfl : name = id := hsubject
  -- The probability is a clamped score, and the peer is accused of no other.
  obtain ⟨classify, q, earlier, score, -, -, -, -, hfinite, rfl, hreached⟩ := Classifier.mem_accused hmem
  have hprobability := inUnit_clampUnit (isNaN_eq_false_of_isFinite hfinite)
  refine ⟨_, hprobability, hreached, rfl, ?_⟩
  rw [detectedPeer, accusation?, Classifier.lookup_accused_eq_some_iff.mpr hmem]
  exact Classifier.trust_cap_le (s.notRaised_screenedPeer cfg now hunit).inUnit hprobability

end Findings

end State

/-! ## The whole cycle -/

namespace Warden

variable (w : Warden)

/-- What the findings of a completed cycle mean for a peer that was not blocked, given its record before the
    cycle, after detectors and classifier, and after the cycle. -/
structure PenaltiesWeigh (now : Instant) (events : List Event) (id : String) (before judged after : Peer) : Prop where
  /-- Detectors and classifier only lower trust. -/
  lowered : judged.trust ≤ before.trust
  sybil : ∀ e ∈ events, e.attack = .sybil → e.subject = before.address →
    before.trust < w.config.security.minimumTrustScore → judged.trust ≤ before.trust * 0.5
  eclipse : ∀ e ∈ events, e.attack = .eclipse → e.subject = id →
    0 < before.interactions ∧ judged.trust ≤ before.trust * 0.8
  timing : ∀ e ∈ events, e.attack = .vdfManipulation → e.subject = id →
    0 < before.interactions ∧ judged.trust ≤ before.trust * 0.6
  /-- The probability is the one that the finding states, and reached the threshold. -/
  classifier : ∀ e ∈ events, e.attack = .unknown → e.subject = id →
    ∃ probability, InUnit probability ∧ ¬probability < w.config.security.classifierThreshold ∧
      e.description = s!"classifier threat probability {Number.fixed 2 probability}" ∧
      judged.trust ≤ 1.0 - probability
  /-- Without a record, penalties last. -/
  lasting : before.interactions = 0 → after.trust ≤ judged.trust
  /-- With a record, they yield to what it deserves. -/
  rescored : 0 < before.interactions → after.trust =
    if w.config.security.idleDecayAfter < before.idleAt now
    then Trust.ofFloat (Trust.deserved before.validBlocks before.invalidBlocks after.floods) * 0.9
    else Trust.ofFloat (Trust.deserved before.validBlocks before.invalidBlocks after.floods)

/-- **Penalties last for peers without a record**; a peer with a record is scored anew at the end of the
    cycle, whatever was found about it. -/
theorem penalties_last_without_record (ops : List Operation) (now : Instant) (report : ThreatReport)
    (hreport : (w.securityCycle (w.run w.start ops) now).2 = .ok report) (id : String) (before after : Peer)
    (hbefore : (w.run w.start ops).state.registry.get? id = some before) (hfree : before.isBlocked = false)
    (hafter : (w.securityCycle (w.run w.start ops) now).1.state.registry.get? id = some after) :
    ∃ judged, ((w.run w.start ops).state.detect w.config w.classifier (w.run w.start ops).asked
        now).registry.get? id = some judged ∧
      w.PenaltiesWeigh now report.events id before judged after := by
  have hearned := w.run_earned w.start_earned ops
  generalize w.run w.start ops = s at *
  -- What the run guarantees is that trust is on the scale, where scaling and capping lower it.
  have hunit : InUnit before.trust := (hearned id before hbefore).inUnit
  have hjudged := s.state.notRaised_detectedPeer w.config w.classifier s.asked now hunit id
  obtain ⟨trust, clusterFlags, heq⟩ := s.state.detectedPeer_eq w.config w.classifier s.asked now id before
  rw [securityCycle_report] at hreport
  rw [securityCycle_state, State.get?_securityCycle, hbefore] at hafter
  obtain ⟨hcrash, hevents, -, -⟩ := State.securityCycle_eq_ok _ _ _ _ _ hreport
  rw [hcrash] at hafter
  obtain ⟨hreviewed, -⟩ := Option.filter_eq_some_iff.mp hafter
  obtain rfl : (s.state.detectedPeer w.config w.classifier s.asked now id before).reviewed now
      w.config.security.idleDecayAfter = after := Option.some.inj hreviewed
  rw [hevents]
  refine ⟨s.state.detectedPeer w.config w.classifier s.asked now id before, ?_, ?_⟩
  · rw [State.get?_detect, hbefore, Option.map_some]
  -- The detectors neither block a peer nor touch its record of blocks.
  have hstill : (s.state.detectedPeer w.config w.classifier s.asked now id before).isBlocked = false := by
    rw [heq]
    exact hfree
  have hinteractions : (s.state.detectedPeer w.config w.classifier s.asked now id before).interactions =
      before.interactions := by
    rw [heq]
    rfl
  constructor
  case lowered => exact hjudged.trust_le
  case sybil => exact fun e he hattack hsubject hsuspect => State.trust_of_sybil hunit he hattack hsubject hsuspect
  case eclipse => exact fun e he hattack hsubject => State.trust_of_eclipse hbefore hunit he hattack hsubject
  case timing => exact fun e he hattack hsubject => State.trust_of_timing hbefore hunit he hattack hsubject
  case classifier => exact fun e he hattack hsubject => State.trust_of_accusation hbefore hunit he hattack hsubject
  case lasting =>
    exact fun hrecord => trust_reviewed_of_no_record _ _ hjudged.inUnit hstill (hinteractions.trans hrecord)
  case rescored =>
    intro hrecord
    obtain ⟨trust', ban, hcounters⟩ := Peer.reviewed_eq now w.config.security.idleDecayAfter
      (s.state.detectedPeer w.config w.classifier s.asked now id before)
    rw [trust_reviewed_of_record _ _ hstill (hinteractions ▸ hrecord), hcounters, heq]
    rfl

/-- A newcomer that the classifier reports keeps its penalty. -/
theorem penalties_last_for_newcomer :
    let w : Warden := { standalone {} with classifier := some (Classifier.scripted [.score 0.9]) }
    let s := w.run w.start [.request (.register "p" "a" 0)]
    ∃ report before after, (w.securityCycle s 1).2 = .ok report ∧ s.state.registry.get? "p" = some before ∧
      before.isBlocked = false ∧ (w.securityCycle s 1).1.state.registry.get? "p" = some after ∧
      before.interactions = 0 ∧ report.events.map (fun e => (e.attack, e.subject)) = [(.unknown, "p")] ∧
      ∃ judged, (s.state.detect w.config w.classifier s.asked 1).registry.get? "p" = some judged ∧
        w.PenaltiesWeigh 1 report.events "p" before judged after := by
  intro w s
  obtain ⟨report, hreport⟩ := s.state.securityCycle_report_of_complete w.config w.classifier s.asked 1
    (by decide +kernel)
  have hevents := (State.securityCycle_eq_ok _ _ _ _ _ hreport).2.1
  rw [← securityCycle_report] at hreport
  have hfound : report.events.map (fun e => (e.attack, e.subject)) = [(.unknown, "p")] := by
    rw [hevents]
    decide +kernel
  obtain ⟨after, hafter⟩ : ∃ after, (w.securityCycle s 1).1.state.registry.get? "p" = some after :=
    Option.isSome_iff_exists.mp (by decide +kernel)
  exact ⟨report, .new "a" 0, after, hreport, rfl, rfl, hafter, rfl, hfound,
    penalties_last_without_record w _ 1 report hreport "p" (.new "a" 0) after rfl rfl hafter⟩

/-- A peer that timing detection and the classifier report ends the cycle with more trust than they left it. -/
theorem rescored_despite_findings :
    let w : Warden := { standalone {} with classifier := some (Classifier.scripted [.score 0.9]) }
    let ops : List Operation :=
      .request (.register "p" "a" 0) :: List.replicate 11 (.request (.success "p" 0))
    let s := w.run w.start ops
    let events := (s.state.detect w.config w.classifier s.asked 0).events
    let judged := (s.state.detect w.config w.classifier s.asked 0).registry
    let after := (w.securityCycle s 0).1.state.registry
    (w.securityCycle s 0).2.isOk = true ∧
      events.map (fun e => (e.attack, e.subject)) = [(.vdfManipulation, "p"), (.unknown, "p")] ∧
      (s.state.registry.get? "p").map (·.isBlocked) = some false ∧
      (judged.get? "p").any (fun p => p.trust ≤ 1.0 - 0.9) = true ∧
      (after.get? "p").any (fun p => 1.0 - 0.9 < p.trust) = true := by
  decide +kernel

end Warden

end PeerWarden
