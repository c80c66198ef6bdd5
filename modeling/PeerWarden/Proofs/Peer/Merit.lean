import PeerWarden.Proofs.Peer.EarnedTrust

/-!
# Merit

The reputation pass scores a peer that is not blocked by its counters, and by nothing else. A score is computed in
doubles: a share of valid blocks, a penalty for floods that stops growing, their weighted difference, a clamp and
perhaps the decay of an idle peer. Each of these steps is rounded, and each keeps inequalities, so that a record that
is better in every respect never ends with less trust, whatever the trust of the two peers was before.

## Main definitions

- `Peer.IsScored`: a peer whose trust is set by its record
- `Peer.NoWorseThan`: a record that is at least as good in every respect

## Main statements

- `successRate_mono`, `floodPenalty_mono`, `floodPenalty_of_saturated`: the two parts of a score
- `deserved_mono`: a better record deserves more
- `better_record_more_trust`: what the reputation pass makes of two peers
-/

namespace PeerWarden

open Number

namespace Trust

/-! ## The share of valid blocks -/

/-- As long as blocks can be counted in doubles, only the division is rounded. -/
theorem isNearest_successRate {validBlocks invalidBlocks : Nat} (hpos : 0 < validBlocks + invalidBlocks)
    (hlt : validBlocks + invalidBlocks < 2 ^ 53) :
    IsNearest (Float.ofNat validBlocks / Float.ofNat (validBlocks + invalidBlocks))
      (validBlocks / (validBlocks + invalidBlocks : ℕ)) := by
  have hne : value (Float.ofNat (validBlocks + invalidBlocks)) ≠ 0 := by
    rw [value_ofNat hlt]
    exact_mod_cast hpos.ne'
  have hdiv := isNearest_div (isFinite_ofNat (by omega : validBlocks < 2 ^ 64))
    (isFinite_ofNat (by omega : validBlocks + invalidBlocks < 2 ^ 64)) hne
  rwa [value_ofNat (by omega), value_ofNat hlt] at hdiv

variable {valid₁ invalid₁ floods₁ valid₂ invalid₂ floods₂ : Nat}

/-- More valid blocks and fewer invalid ones are a larger share, although the number of all blocks may go either way. -/
theorem successRate_mono (hpos₁ : 0 < valid₁ + invalid₁) (hlt₁ : valid₁ + invalid₁ < 2 ^ 53)
    (hpos₂ : 0 < valid₂ + invalid₂) (hlt₂ : valid₂ + invalid₂ < 2 ^ 53) (hvalid : valid₂ ≤ valid₁)
    (hinvalid : invalid₁ ≤ invalid₂) :
    Float.ofNat valid₂ / Float.ofNat (valid₂ + invalid₂) ≤ Float.ofNat valid₁ / Float.ofNat (valid₁ + invalid₁) := by
  apply (isNearest_successRate hpos₂ hlt₂).le (isNearest_successRate hpos₁ hlt₁)
  rw [div_le_div_iff₀ (by exact_mod_cast hpos₂) (by exact_mod_cast hpos₁)]
  -- Multiplied out, what is left of the two sides compares the products of valid and invalid blocks.
  have hcross : valid₂ * invalid₁ ≤ valid₁ * invalid₂ := Nat.mul_le_mul hvalid hinvalid
  have hmul : valid₂ * (valid₁ + invalid₁) ≤ valid₁ * (valid₂ + invalid₂) := by
    rw [Nat.mul_add, Nat.mul_add, Nat.mul_comm valid₂ valid₁]
    exact Nat.add_le_add_left hcross _
  exact_mod_cast hmul

/-! ## The penalty for floods -/

theorem isNearest_floodShare {floods : Nat} (hlt : floods < 2 ^ 53) :
    IsNearest (Float.ofNat floods / floodSaturation) (floods / 10) := by
  have hten : value floodSaturation = 10 := by
    have : floodSaturation = Float.ofNat 10 := by decide
    rw [this, value_ofNat (by norm_num), Nat.cast_ofNat]
  have hdiv := isNearest_div (isFinite_ofNat (by omega : floods < 2 ^ 64)) (by decide : floodSaturation.isFinite = true)
    (by rw [hten]; norm_num)
  rwa [value_ofNat hlt, hten] at hdiv

theorem floodPenalty_mono (hlt₁ : floods₁ < 2 ^ 53) (hlt₂ : floods₂ < 2 ^ 53) (h : floods₁ ≤ floods₂) :
    lesser (Float.ofNat floods₁ / floodSaturation) 1.0 ≤ lesser (Float.ofNat floods₂ / floodSaturation) 1.0 := by
  apply lesser_mono_left (by decide)
  apply (isNearest_floodShare hlt₁).le (isNearest_floodShare hlt₂)
  exact div_le_div_of_nonneg_right (by exact_mod_cast h) (by norm_num)

/-- From the tenth flood on the penalty is the largest there is. -/
theorem floodPenalty_of_saturated {floods : Nat} (hlt : floods < 2 ^ 53) (h : 10 ≤ floods) :
    lesser (Float.ofNat floods / floodSaturation) 1.0 = 1.0 := by
  have hone : (1.0 : Float) = 1 := by decide
  have hle : 1.0 ≤ Float.ofNat floods / floodSaturation := by
    rw [hone]
    refine (isNearest_value isNaN_one).le (isNearest_floodShare hlt) ?_
    rw [value_one, le_div_iff₀ (by norm_num), one_mul]
    exact_mod_cast h
  rw [lesser, if_neg (not_lt_of_float_le hle), if_neg (by decide)]

/-! ## The score -/

theorem isNearest_deserved {validBlocks invalidBlocks : Nat} (hpos : 0 < validBlocks + invalidBlocks)
    (hlt : validBlocks + invalidBlocks < 2 ^ 53) (floods : Nat) :
    IsNearest (deserved validBlocks invalidBlocks floods)
      (value (successWeight * (Float.ofNat validBlocks / Float.ofNat (validBlocks + invalidBlocks))) -
        value (floodWeight * lesser (Float.ofNat floods / floodSaturation) 1.0)) :=
  isNearest_sub (InUnit.mul (by decide) (inUnit_successRate hpos (by omega))).isFinite
    (InUnit.mul (by decide) (inUnit_floodPenalty floods)).isFinite

/-- A record that is better in every respect deserves at least as much. -/
theorem deserved_mono (hpos₁ : 0 < valid₁ + invalid₁) (hlt₁ : valid₁ + invalid₁ < 2 ^ 53) (hfloods₁ : floods₁ < 2 ^ 53)
    (hpos₂ : 0 < valid₂ + invalid₂) (hlt₂ : valid₂ + invalid₂ < 2 ^ 53) (hfloods₂ : floods₂ < 2 ^ 53)
    (hvalid : valid₂ ≤ valid₁) (hinvalid : invalid₁ ≤ invalid₂) (hfloods : floods₁ ≤ floods₂) :
    deserved valid₂ invalid₂ floods₂ ≤ deserved valid₁ invalid₁ floods₁ := by
  have hrate₁ := inUnit_successRate hpos₁ (by omega)
  have hrate₂ := inUnit_successRate hpos₂ (by omega)
  have hweight : InUnit successWeight := by decide
  have hfloodWeight : InUnit floodWeight := by decide
  have hearned := hweight.mul_le_mul_left hrate₂ hrate₁ (successRate_mono hpos₁ hlt₁ hpos₂ hlt₂ hvalid hinvalid)
  have hpenalty := hfloodWeight.mul_le_mul_left (inUnit_floodPenalty floods₁) (inUnit_floodPenalty floods₂)
    (floodPenalty_mono hfloods₁ hfloods₂ hfloods)
  rw [le_iff_value_le (hweight.mul hrate₂).isNumber (hweight.mul hrate₁).isNumber] at hearned
  rw [le_iff_value_le (hfloodWeight.mul (inUnit_floodPenalty floods₁)).isNumber
    (hfloodWeight.mul (inUnit_floodPenalty floods₂)).isNumber] at hpenalty
  -- More is earned and less is taken off, in exact numbers and so in rounded ones.
  apply (isNearest_deserved hpos₂ hlt₂ floods₂).le (isNearest_deserved hpos₁ hlt₁ floods₁)
  exact sub_le_sub hearned hpenalty

theorem deserved_of_saturated (validBlocks invalidBlocks : Nat) (hfloods₁ : floods₁ < 2 ^ 53)
    (hfloods₂ : floods₂ < 2 ^ 53) (h₁ : 10 ≤ floods₁) (h₂ : 10 ≤ floods₂) :
    deserved validBlocks invalidBlocks floods₁ = deserved validBlocks invalidBlocks floods₂ := by
  rw [deserved, deserved, floodPenalty_of_saturated hfloods₁ h₁, floodPenalty_of_saturated hfloods₂ h₂]

end Trust

/-! ## Two peers -/

namespace Peer

/-- A peer whose trust the reputation pass sets by its record: it is not blocked, and has delivered a block. Its
    counters are small enough to be doubles themselves. -/
structure IsScored (p : Peer) : Prop where
  free : p.ban = none
  record : 0 < p.validBlocks + p.invalidBlocks
  blocks_lt : p.validBlocks + p.invalidBlocks < 2 ^ 53
  floods_lt : p.floods < 2 ^ 53

/-- A record is no worse than another: it has at least as many valid blocks, at most as many invalid ones, and at most
    as many floods. -/
structure NoWorseThan (p q : Peer) : Prop where
  validBlocks_le : q.validBlocks ≤ p.validBlocks
  invalidBlocks_le : p.invalidBlocks ≤ q.invalidBlocks
  floods_le : p.floods ≤ q.floods

variable {p p₁ p₂ : Peer}

/-- The score that the reputation pass gives to a peer with a record. -/
def score (p : Peer) : Float := clampUnit (Trust.deserved p.validBlocks p.invalidBlocks p.floods)

namespace IsScored

theorem inUnit_score (h : p.IsScored) : InUnit p.score := by
  have hword : p.validBlocks + p.invalidBlocks < 2 ^ 64 := h.blocks_lt.trans (by norm_num)
  rw [score, ← Trust.ofFloat_deserved h.record hword]
  exact Trust.inUnit_ofFloat _

/-- After the reputation pass the trust is the score, less the decay of an idle peer. -/
theorem trust_reviewed (h : p.IsScored) (now : Instant) (idleDecayAfter : Span) :
    (p.reviewed now idleDecayAfter).trust =
      if idleDecayAfter < p.idleAt now then p.score * Trust.idleFactor else p.score := by
  have hword : p.validBlocks + p.invalidBlocks < 2 ^ 64 := h.blocks_lt.trans (by norm_num)
  have hfree : p.isBlocked = false := by rw [isBlocked, h.free, Option.isSome_none]
  rw [trust_reviewed_of_record now idleDecayAfter hfree h.record, Trust.ofFloat_deserved h.record hword, score]

end IsScored

theorem NoWorseThan.score_le (h : p₁.NoWorseThan p₂) (h₁ : p₁.IsScored) (h₂ : p₂.IsScored) : p₂.score ≤ p₁.score :=
  clampUnit_mono (Trust.deserved_mono h₁.record h₁.blocks_lt h₁.floods_lt h₂.record h₂.blocks_lt h₂.floods_lt
    h.validBlocks_le h.invalidBlocks_le h.floods_le)

/-- Decay keeps the order of two scores, as long as the two peers are idle alike. -/
theorem trust_reviewed_le (h : p₁.NoWorseThan p₂) (h₁ : p₁.IsScored) (h₂ : p₂.IsScored)
    (hseen : p₁.lastSeen = p₂.lastSeen) (now : Instant) (idleDecayAfter : Span) :
    (p₂.reviewed now idleDecayAfter).trust ≤ (p₁.reviewed now idleDecayAfter).trust := by
  have hidle : p₁.idleAt now = p₂.idleAt now := by rw [idleAt, idleAt, hseen]
  have hscore := h.score_le h₁ h₂
  rw [h₁.trust_reviewed, h₂.trust_reviewed, hidle]
  split
  · exact h₂.inUnit_score.mul_le_mul_right h₁.inUnit_score (by decide) hscore
  · exact hscore

theorem trust_reviewed_of_saturated (h₁ : p₁.IsScored) (h₂ : p₂.IsScored) (hvalid : p₁.validBlocks = p₂.validBlocks)
    (hinvalid : p₁.invalidBlocks = p₂.invalidBlocks) (hfloods₁ : 10 ≤ p₁.floods) (hfloods₂ : 10 ≤ p₂.floods)
    (hseen : p₁.lastSeen = p₂.lastSeen) (now : Instant) (idleDecayAfter : Span) :
    (p₁.reviewed now idleDecayAfter).trust = (p₂.reviewed now idleDecayAfter).trust := by
  have hidle : p₁.idleAt now = p₂.idleAt now := by rw [idleAt, idleAt, hseen]
  have hscore : p₁.score = p₂.score := by
    rw [score, score, hvalid, hinvalid, Trust.deserved_of_saturated _ _ h₁.floods_lt h₂.floods_lt hfloods₁ hfloods₂]
  rw [h₁.trust_reviewed, h₂.trust_reviewed, hidle, hscore]

end Peer

namespace Registry

/-- **A better record means at least as much trust** once the reputation pass is through, for peers that were last seen
    at the same time, in one registry or in two; and from the tenth flood on further floods make no difference. The
    trust of the two peers before the pass plays no part. -/
theorem better_record_more_trust (r₁ r₂ : Registry) (id₁ id₂ : String) (p₁ p₂ : Peer) (hp₁ : r₁.get? id₁ = some p₁)
    (hp₂ : r₂.get? id₂ = some p₂) (h₁ : p₁.IsScored) (h₂ : p₂.IsScored) (hseen : p₁.lastSeen = p₂.lastSeen)
    (now : Instant) (idleDecayAfter : Span) :
    ∃ q₁ q₂, (r₁.reviewed now idleDecayAfter).get? id₁ = some q₁ ∧
      (r₂.reviewed now idleDecayAfter).get? id₂ = some q₂ ∧
      (p₁.NoWorseThan p₂ → q₂.trust ≤ q₁.trust) ∧
      (p₁.validBlocks = p₂.validBlocks → p₁.invalidBlocks = p₂.invalidBlocks → 10 ≤ p₁.floods → 10 ≤ p₂.floods →
        q₁.trust = q₂.trust) := by
  refine ⟨p₁.reviewed now idleDecayAfter, p₂.reviewed now idleDecayAfter, ?_, ?_, fun h => ?_, fun hv hi hf₁ hf₂ => ?_⟩
  · rw [reviewed, get?_map, hp₁, Option.map_some]
  · rw [reviewed, get?_map, hp₂, Option.map_some]
  · exact Peer.trust_reviewed_le h h₁ h₂ hseen now idleDecayAfter
  · exact Peer.trust_reviewed_of_saturated h₁ h₂ hv hi hf₁ hf₂ hseen now idleDecayAfter

/-- A spotless record that is trusted little, and a spotty one that is trusted much: after a pass in which both are
    idle, the first peer has no less trust. -/
theorem better_record_more_trust_rivals :
    let spotless : Peer := { address := "a", firstSeen := 0, lastSeen := 3, trust := 0.1, validBlocks := 3 }
    let spotty : Peer :=
      { address := "b", firstSeen := 0, lastSeen := 3, trust := 0.9, validBlocks := 2, invalidBlocks := 1
        floods := 12 }
    let r : Registry := { peers := ((∅ : Directory String Peer).insert "p" spotless).insert "q" spotty }
    r.get? "p" = some spotless ∧ r.get? "q" = some spotty ∧ spotless.IsScored ∧ spotty.IsScored ∧
      spotless.lastSeen = spotty.lastSeen ∧ spotless.NoWorseThan spotty ∧
      ∃ p q, (r.reviewed 9 5).get? "p" = some p ∧ (r.reviewed 9 5).get? "q" = some q ∧ q.trust ≤ p.trust := by
  intro spotless spotty r
  have hp : r.get? "p" = some spotless := by simp [r, get?]
  have hq : r.get? "q" = some spotty := by simp [r, get?]
  have hspotless : spotless.IsScored := ⟨rfl, by decide, by decide, by decide⟩
  have hspotty : spotty.IsScored := ⟨rfl, by decide, by decide, by decide⟩
  have hbetter : spotless.NoWorseThan spotty := ⟨by decide, by decide, by decide⟩
  obtain ⟨p, q, hp', hq', hle, -⟩ :=
    better_record_more_trust r r "p" "q" spotless spotty hp hq hspotless hspotty rfl 9 5
  exact ⟨hp, hq, hspotless, hspotty, rfl, hbetter, p, q, hp', hq', hle hbetter⟩

end Registry

end PeerWarden
