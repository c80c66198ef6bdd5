import PeerWarden.Proofs.Peer.EarnedTrust
import PeerWarden.Proofs.Run.RequestScope

/-!
# Trust over Whole Runs

Whatever is asked of a warden, in whatever order and at whatever times, no peer ever has more trust than its
valid blocks can earn. The classifier may answer anything and break off at any question.

## Main statements

- `step_earned`, `run_earned`: every operation and every run keeps all peers within their bounds
- `exists_notRaised_of_step`: only a security cycle can raise the trust of a known peer
- `trust_is_earned`: the bounds, what they mean for admission, and who may raise a score
-/

namespace PeerWarden

/-- All known peers of a session have a property. -/
def Session.ForallPeers (s : Session) (P : Peer → Prop) : Prop := ∀ id p, s.state.registry.get? id = some p → P p

namespace Warden

variable (w : Warden) {s : Session}

/-! ## The invariant -/

/-- An operation other than a security cycle does not raise the trust of a known peer. -/
theorem exists_notRaised_of_step (h : s.ForallPeers Peer.Earned) (op : Operation)
    (hop : ∀ now, op ≠ .securityCycle now) {id : String} {p : Peer} (hp : s.state.registry.get? id = some p) :
    ∃ p', (w.step s op).state.registry.get? id = some p' ∧ Peer.NotRaised p p' := by
  have hunit := (h id p hp).inUnit
  cases op with
  | request r =>
    exact ⟨_, get?_step_request hp r, s.state.notRaised_servedPeer hunit id r⟩
  | securityCycle now => exact absurd rfl (hop now)
  | healthCycle now =>
    refine ⟨_, get?_step_healthCycle hp now, ?_⟩
    split
    · exact .of_trust_eq hunit rfl (Nat.le_refl _)
    · exact .refl hunit

/-- Every operation keeps all peers within their bounds. -/
theorem step_earned (h : s.ForallPeers Peer.Earned) (op : Operation) : (w.step s op).ForallPeers Peer.Earned := by
  intro id p' hp'
  cases op with
  | request r =>
    have hserved : (s.state.serve r).1.registry.get? id = some p' := hp'
    rw [State.get?_serve] at hserved
    rcases Option.or_eq_some_iff.mp hserved with hknown | ⟨-, hnew⟩
    · obtain ⟨p, hp, rfl⟩ := Option.map_eq_some_iff.mp hknown
      exact (h id p hp).of_notRaised (s.state.notRaised_servedPeer (h id p hp).inUnit id r)
    · -- Whoever becomes known starts as a newcomer.
      obtain ⟨address, now, rfl, -, -⟩ := State.eq_new_of_newcomer hnew
      exact .new address now
  | securityCycle now =>
    have hdetected (p : Peer) (hp : s.state.registry.get? id = some p) :
        (s.state.detectedPeer w.config w.classifier s.asked now id p).Earned :=
      (h id p hp).of_notRaised
        (s.state.notRaised_detectedPeer w.config w.classifier s.asked now (h id p hp).inUnit id)
    have hcycle : (s.state.securityCycle w.config w.classifier s.asked now).state.registry.get? id = some p' := by
      rw [← securityCycle_state]
      exact hp'
    rw [State.get?_securityCycle] at hcycle
    -- A cycle that is broken off stops at what the detectors left; one that completes goes on to the review.
    split at hcycle
    · obtain ⟨p, hp, rfl⟩ := Option.map_eq_some_iff.mp hcycle
      exact hdetected p hp
    · obtain ⟨hmap, -⟩ := Option.filter_eq_some_iff.mp hcycle
      obtain ⟨p, hp, rfl⟩ := Option.map_eq_some_iff.mp hmap
      exact (hdetected p hp).reviewed now w.config.security.idleDecayAfter
  | healthCycle now =>
    have hcycle : (w.healthCycle s now).1.state.registry.get? id = some p' := hp'
    rw [get?_healthCycle] at hcycle
    obtain ⟨p, hp, -⟩ := Option.map_eq_some_iff.mp hcycle
    obtain ⟨q, hq, hstep⟩ := w.exists_notRaised_of_step h (.healthCycle now) (fun _ => nofun) hp
    rw [hp'] at hq
    exact Option.some.inj hq ▸ (h id p hp).of_notRaised hstep

theorem run_earned (h : s.ForallPeers Peer.Earned) (ops : List Operation) :
    (w.run s ops).ForallPeers Peer.Earned :=
  run_preserves (·.ForallPeers Peer.Earned) (fun _ hs op _ => w.step_earned hs op) h

theorem start_earned : w.start.ForallPeers Peer.Earned := nofun

/-! ## What it means -/

/-- Trust has to be earned: with blocks, and in the reputation pass. -/
structure TrustIsEarned (s : Session) : Prop where
  on_scale : ∀ id p, s.state.registry.get? id = some p →
    p.trust.isFinite = true ∧ 0 ≤ p.trust ∧ p.trust ≤ 0.7
  unproven : ∀ id p, s.state.registry.get? id = some p → p.validBlocks = 0 → p.trust ≤ 0.5
  /-- With a bar above the trust of a newcomer, nobody is admitted without a valid block. -/
  admitted : 0.5 < w.config.security.minimumTrustScore → ∀ id now,
    s.state.isTrusted w.config.security id now = true →
      ∃ p, s.state.registry.get? id = some p ∧ 0 < p.validBlocks
  /-- Requests and health cycles forget no peer and raise no score. -/
  not_raised : ∀ op, (∀ now, op ≠ .securityCycle now) → ∀ id p, s.state.registry.get? id = some p →
    ∃ p', (w.step s op).state.registry.get? id = some p' ∧ p'.trust ≤ p.trust

/-- **Trust has to be earned**, in every state that a run can reach. -/
theorem trust_is_earned (ops : List Operation) : w.TrustIsEarned (w.run w.start ops) := by
  have hearned := w.run_earned w.start_earned ops
  generalize w.run w.start ops = s at hearned
  constructor
  case on_scale =>
    intro id p hp
    obtain ⟨hfinite, hnonneg, hshare, -⟩ := hearned id p hp
    exact ⟨hfinite, hnonneg, hshare⟩
  case unproven => exact fun id p hp => (hearned id p hp).unproven
  case admitted =>
    intro hbar id now htrusted
    obtain ⟨p, hp, htrusts⟩ := (Option.any_eq_true ..).mp htrusted
    refine ⟨p, hp, Nat.pos_of_ne_zero fun hblocks => ?_⟩
    have hpasses : w.config.security.minimumTrustScore ≤ p.trust := by
      simp only [State.trusts, Peer.passes, Bool.and_eq_true, decide_eq_true_eq] at htrusts
      exact htrusts.1.2
    exact Number.not_lt_of_float_le (Number.float_le_trans hpasses ((hearned id p hp).unproven hblocks)) hbar
  case not_raised =>
    intro op hop id p hp
    obtain ⟨p', hp', hstep⟩ := w.exists_notRaised_of_step hearned op hop hp
    exact ⟨p', hp', hstep.trust_le⟩

end Warden

end PeerWarden
