import PeerWarden.Clock
import PeerWarden.Directory

/-!
# Bans

A ban has a reason and a deadline. The same record bans an address, where it lapses at its deadline, and
blocks a peer, where it is lifted by the first reputation pass after its deadline.

## Main statements

- `Ban.inForceAt_iff`, `Ban.overdueAt_iff`: the two readings of a deadline
- `BanList.sweep_fst`: sweeping keeps the bans in force and nothing else
- `BanList.isBanned_sweep`: nobody notices a sweep
-/

namespace PeerWarden

/-- Why something is shut out, and until when. -/
structure Ban where
  reason : String
  /-- No instant means that the ban is permanent. -/
  expires : Deadline
  deriving DecidableEq, Repr

namespace Ban

/-- Whether a ban still holds: its deadline lies ahead, or there is none. -/
def inForceAt (b : Ban) (now : Instant) : Bool :=
  match b.expires with
  | none => true
  | some deadline => now < deadline

/-- Whether the deadline of a ban has passed. -/
def overdueAt (b : Ban) (now : Instant) : Bool :=
  match b.expires with
  | none => false
  | some deadline => deadline < now

/-- Whether a ban never ends by itself. -/
def isPermanent (b : Ban) : Bool := b.expires.isNone

theorem inForceAt_iff {b : Ban} {now : Instant} :
    b.inForceAt now = true ↔ ∀ deadline, b.expires = some deadline → now < deadline := by
  unfold inForceAt
  cases b.expires <;> simp

theorem overdueAt_iff {b : Ban} {now : Instant} :
    b.overdueAt now = true ↔ ∃ deadline, b.expires = some deadline ∧ deadline < now := by
  unfold overdueAt
  cases b.expires <;> simp

/-- A ban that is in force later was in force before. -/
theorem inForceAt_of_le {b : Ban} {earlier now : Instant} (hnow : earlier ≤ now)
    (h : b.inForceAt now = true) : b.inForceAt earlier = true := by
  rw [inForceAt_iff] at h ⊢
  exact fun deadline hdeadline => Int.lt_of_le_of_lt hnow (h deadline hdeadline)

end Ban

/-! ## Banned addresses -/

/-- The bans on addresses, lapsed ones included until they are swept. -/
abbrev BanList := Directory String Ban

namespace BanList

/-- Whether an address is under a ban in force. -/
def isBanned (bans : BanList) (address : String) (now : Instant) : Bool :=
  (bans.get? address).any (·.inForceAt now)

/-- Drops the lapsed bans, and names the addresses they were on. -/
def sweep (bans : BanList) (now : Instant) : BanList × List String :=
  (bans.filter fun _ ban => ban.inForceAt now, (bans.filter fun _ ban => !ban.inForceAt now).keys)

@[simp] theorem sweep_fst (bans : BanList) (now : Instant) :
    (bans.sweep now).1 = bans.filter fun _ ban => ban.inForceAt now := rfl

/-- A sweep is not noticed by those who ask at that time or later whether an address is banned. -/
theorem isBanned_sweep (bans : BanList) (address : String) {earlier now : Instant} (hnow : earlier ≤ now) :
    BanList.isBanned (bans.sweep earlier).1 address now = bans.isBanned address now := by
  cases h : bans.get? address with
  | none => simp [isBanned, h]
  | some ban =>
    cases hkept : ban.inForceAt earlier with
    | true => simp [isBanned, h, hkept]
    | false =>
      have hlapsed : ban.inForceAt now = false :=
        Bool.eq_false_iff.mpr fun hforce => by simp [Ban.inForceAt_of_le hnow hforce] at hkept
      simp [isBanned, h, hkept, hlapsed, Option.filter]

end BanList

end PeerWarden
