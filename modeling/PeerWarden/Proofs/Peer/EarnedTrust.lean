import PeerWarden.Proofs.Cycle.SecurityCycle
import PeerWarden.Proofs.Peer.TrustScale
import PeerWarden.Proofs.Run.PeerRecord

/-!
# Earned Trust

Only the reputation pass can raise a trust score, and only to what the record deserves. Everything else that
happens to a record is a step of `NotRaised`, and such steps keep the bounds of `Earned`.

## Main definitions

- `Peer.NotRaised`: a record follows another without gaining trust
- `Peer.Earned`: no more trust than valid blocks can earn

## Main statements

- `notRaised_detectedPeer`, `notRaised_servedPeer`: neither the detectors nor a request raise trust
- `trust_reviewed_of_record`, `trust_reviewed_of_no_record`: the reputation pass scores a record, and has nothing to say
  without one
- `Earned.reviewed`: the reputation pass gives no more than a record can earn
-/

namespace PeerWarden

open Number

namespace Peer

/-! ## Changes that do not raise trust -/

/-- One record follows another without gaining trust: its score is on the scale and not higher, and no valid
    block was taken back. -/
structure NotRaised (p p' : Peer) : Prop where
  inUnit : InUnit p'.trust
  trust_le : p'.trust ≤ p.trust
  validBlocks_le : p.validBlocks ≤ p'.validBlocks

namespace NotRaised

variable {p p' p'' : Peer}

theorem refl (h : InUnit p.trust) : NotRaised p p := ⟨h, le_refl_of_isNaN h.isNumber, Nat.le_refl _⟩

theorem trans (h : NotRaised p p') (h' : NotRaised p' p'') : NotRaised p p'' :=
  ⟨h'.inUnit, float_le_trans h'.trust_le h.trust_le, h.validBlocks_le.trans h'.validBlocks_le⟩

theorem of_trust_eq (h : InUnit p.trust) (htrust : p'.trust = p.trust) (hblocks : p.validBlocks ≤ p'.validBlocks) :
    NotRaised p p' :=
  ⟨htrust ▸ h, htrust ▸ le_refl_of_isNaN (htrust ▸ h.isNumber), hblocks⟩

end NotRaised

variable {p : Peer}

theorem trust_scaleTrust (h : InUnit p.trust) {factor : Float} (hfactor : InUnit factor) :
    (p.scaleTrust factor).trust = p.trust * factor :=
  Trust.ofFloat_of_inUnit (h.mul hfactor)

theorem notRaised_scaleTrust (h : InUnit p.trust) {factor : Float} (hfactor : InUnit factor) :
    NotRaised p (p.scaleTrust factor) where
  inUnit := trust_scaleTrust h hfactor ▸ h.mul hfactor
  trust_le := trust_scaleTrust h hfactor ▸ h.mul_le_left hfactor
  validBlocks_le := Nat.le_refl _

theorem notRaised_creditBlock (h : InUnit p.trust) (now : Instant) : NotRaised p (p.creditBlock now) :=
  .of_trust_eq h rfl (Nat.le_succ _)

theorem notRaised_debitBlock (h : InUnit p.trust) (now : Instant) : NotRaised p (p.debitBlock now) := by
  have hcut := notRaised_scaleTrust h (by decide : InUnit Trust.failureFactor)
  exact ⟨hcut.inUnit, hcut.trust_le, hcut.validBlocks_le⟩

end Peer

/-! ## Detectors -/

open Peer

theorem Classifier.notRaised_cap {p : Peer} (h : InUnit p.trust) (probability : Float) :
    NotRaised p (cap probability p) where
  inUnit := Trust.inUnit_ofFloat _
  trust_le := Trust.ofFloat_le h.nonneg fun _ => lesser_le_left h.isNumber
  validBlocks_le := Nat.le_refl _

/-- A probability leaves no more trust than its complement. -/
theorem Classifier.cap_eq {p : Peer} {probability : Float} (h : InUnit p.trust) (hprobability : InUnit probability) :
    cap probability p = { p with trust := lesser p.trust (1.0 - probability) } := by
  rw [cap, withTrust, Trust.ofFloat_of_inUnit (h.lesser hprobability.one_sub)]

theorem Sybil.notRaised_judge {p : Peer} (h : InUnit p.trust) (cfg : Config.Security)
    (clusters : Directory String Nat) : NotRaised p (judge cfg clusters p) := by
  unfold judge
  split
  · -- The trust is cut, then the flag is counted.
    exact (notRaised_scaleTrust h (by decide)).trans (.of_trust_eq (notRaised_scaleTrust h (by decide)).inUnit rfl
      (Nat.le_refl _))
  · exact .refl h

theorem Detector.notRaised_judge {p : Peer} (h : InUnit p.trust) {d : Detector} (hd : InUnit d.factor) :
    NotRaised p (d.judge p) := by
  unfold judge
  split
  · exact notRaised_scaleTrust h hd
  · exact .refl h

namespace State

variable (s : State) (cfg : Config) (model : Option Classifier) (asked : List Features) (now : Instant)

section Stages

variable {p : Peer} (h : InUnit p.trust)

include h

theorem notRaised_clusteredPeer : NotRaised p (s.clusteredPeer cfg now p) := by
  have hblamed : NotRaised p (s.blamed cfg now p) := by
    rw [blamed_eq]
    exact .of_trust_eq h rfl (Nat.le_refl _)
  exact hblamed.trans (Sybil.notRaised_judge hblamed.inUnit _ _)

theorem notRaised_eclipsedPeer : NotRaised (s.clusteredPeer cfg now p) (s.eclipsedPeer cfg now p) :=
  Detector.notRaised_judge (s.notRaised_clusteredPeer cfg now h).inUnit (by decide : InUnit (0.8 : Float))

theorem notRaised_screenedPeer : NotRaised (s.eclipsedPeer cfg now p) (s.screenedPeer cfg now p) :=
  Detector.notRaised_judge (s.notRaised_eclipsedPeer cfg now h).inUnit (by decide : InUnit (0.6 : Float))

theorem notRaised_accusedPeer (id : String) :
    NotRaised (s.screenedPeer cfg now p) (s.detectedPeer cfg model asked now id p) := by
  have hunit := (s.notRaised_screenedPeer cfg now h).inUnit
  unfold detectedPeer
  cases s.accusation? cfg model asked now id with
  | none => exact .refl hunit
  -- The cap may be no number at all for a strange probability; the smaller of the two is taken all the same.
  | some probability => exact Classifier.notRaised_cap hunit probability

/-- No detector raises a score, whatever the classifier answers. -/
theorem notRaised_detectedPeer (id : String) : NotRaised p (s.detectedPeer cfg model asked now id p) :=
  ((s.notRaised_clusteredPeer cfg now h).trans (s.notRaised_eclipsedPeer cfg now h)).trans
    ((s.notRaised_screenedPeer cfg now h).trans (s.notRaised_accusedPeer cfg model asked now h id))

end Stages

/-! ## Requests -/

/-- No request raises the score of a known peer. -/
theorem notRaised_servedPeer {p : Peer} (h : InUnit p.trust) (id : String) (r : Request) :
    NotRaised p (s.servedPeer id r p) := by
  -- Only an invalid block touches the score; all else leaves it as it is.
  cases r <;> simp only [servedPeer] <;> try split
  case success => exact notRaised_creditBlock h _
  case failure => exact notRaised_debitBlock h _
  all_goals exact .of_trust_eq h rfl (Nat.le_refl _)

end State

/-! ## The reputation pass -/

namespace Peer

section Reviewed

variable {p : Peer} (now : Instant) (idleDecayAfter : Span)

/-- A peer without a record keeps the score that the reputation pass finds, or less. -/
theorem trust_reviewed_of_no_record (hunit : InUnit p.trust) (hfree : p.isBlocked = false)
    (hrecord : p.interactions = 0) : (p.reviewed now idleDecayAfter).trust ≤ p.trust := by
  have hreviewed : p.reviewed now idleDecayAfter = p.decay now idleDecayAfter := by
    simp [reviewed, reassess, hfree, hrecord]
  rw [hreviewed, decay]
  split
  · exact (notRaised_scaleTrust hunit (by decide)).trust_le
  · exact le_refl_of_isNaN hunit.isNumber

/-- A peer with a record is scored by it alone. -/
theorem trust_reviewed_of_record (hfree : p.isBlocked = false) (hrecord : 0 < p.interactions) :
    (p.reviewed now idleDecayAfter).trust =
      if idleDecayAfter < p.idleAt now
      then Trust.ofFloat (Trust.deserved p.validBlocks p.invalidBlocks p.floods) * Trust.idleFactor
      else Trust.ofFloat (Trust.deserved p.validBlocks p.invalidBlocks p.floods) := by
  have hreviewed : p.reviewed now idleDecayAfter =
      (p.withTrust (Trust.deserved p.validBlocks p.invalidBlocks p.floods)).decay now idleDecayAfter := by
    simp [reviewed, reassess, hfree, Nat.ne_of_gt hrecord]
  have hidle : (p.withTrust (Trust.deserved p.validBlocks p.invalidBlocks p.floods)).idleAt now = p.idleAt now := rfl
  rw [hreviewed, decay, hidle]
  split
  · exact trust_scaleTrust (Trust.inUnit_ofFloat _) (by decide)
  · rfl

end Reviewed

end Peer

/-! ## The bounds -/

namespace Peer

/-- No more trust than valid blocks can earn. -/
structure Earned (p : Peer) : Prop where
  isFinite : p.trust.isFinite = true
  nonneg : 0 ≤ p.trust
  /-- The share of trust that a spotless record earns. -/
  le_share : p.trust ≤ 0.7
  /-- Without a valid block, no more than a newcomer has. -/
  unproven : p.validBlocks = 0 → p.trust ≤ 0.5

namespace Earned

variable {p p' : Peer}

theorem inUnit (h : Earned p) : InUnit p.trust :=
  ⟨h.isFinite, h.nonneg, float_le_trans h.le_share (by decide)⟩

/-- A score on the scale that a newcomer may have is earned without a valid block. -/
theorem of_le_initial (h : InUnit p.trust) (hle : p.trust ≤ 0.5) : Earned p :=
  ⟨h.isFinite, h.nonneg, float_le_trans hle (by decide), fun _ => hle⟩

theorem of_notRaised (h : Earned p) (hstep : NotRaised p p') : Earned p' where
  isFinite := hstep.inUnit.isFinite
  nonneg := hstep.inUnit.nonneg
  le_share := float_le_trans hstep.trust_le h.le_share
  unproven hblocks :=
    float_le_trans hstep.trust_le (h.unproven (Nat.le_zero.mp (hblocks ▸ hstep.validBlocks_le)))

theorem new (address : String) (now : Instant) : Earned (.new address now) :=
  .of_le_initial (by decide : InUnit Trust.initial) (by decide : Trust.initial ≤ 0.5)

theorem reassess (h : Earned p) : Earned p.reassess := by
  unfold Peer.reassess
  split
  · exact h
  · next hinteractions =>
    have hpos : 0 < p.validBlocks + p.invalidBlocks := Nat.pos_of_ne_zero hinteractions
    -- What is deserved may be negative or no number; writing it brings it to the scale.
    have hunit := Trust.inUnit_ofFloat (Trust.deserved p.validBlocks p.invalidBlocks p.floods)
    refine ⟨hunit.isFinite, hunit.nonneg, ?_, fun hblocks => ?_⟩
    · exact Trust.ofFloat_le (by decide) fun hfin => (Trust.deserved_le hpos _ hfin).1
    · exact Trust.ofFloat_le (by decide) fun hfin =>
        float_le_trans ((Trust.deserved_le hpos _ hfin).2 hblocks) (by decide)

theorem decay (h : Earned p) (now : Instant) (idleDecayAfter : Span) : Earned (p.decay now idleDecayAfter) := by
  unfold Peer.decay
  split
  · exact h.of_notRaised (notRaised_scaleTrust h.inUnit (by decide))
  · exact h

theorem unblock : Earned p.unblock :=
  .of_le_initial (Trust.inUnit_ofFloat Trust.afterBlock) (Trust.ofFloat_le (by decide) fun _ => by decide)

/-- The reputation pass gives no more than a record can earn. -/
theorem reviewed (h : Earned p) (now : Instant) (idleDecayAfter : Span) : Earned (p.reviewed now idleDecayAfter) := by
  unfold Peer.reviewed
  split
  · split
    · exact unblock
    · exact h
  · exact h.reassess.decay now idleDecayAfter

end Earned

end Peer

end PeerWarden
