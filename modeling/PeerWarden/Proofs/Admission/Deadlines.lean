import PeerWarden.Config.Rules
import PeerWarden.Proofs.Cycle.SecurityCycle
import PeerWarden.Proofs.Run.AddressRecord
import PeerWarden.Proofs.Run.PeerRecord

/-!
# Deadlines at the End of Time

Not every sum of an instant and a span is an instant, and a deadline that is none is taken for no deadline at all.
Nobody can tell the difference: all that is ever compared with a deadline is an instant, and all instants lie before
a sum that is none. So every ban and every block ends as if the sums were whole numbers without a bound. The two end
differently, though: a ban has lapsed at its deadline, and a block is lifted only after it.

## Main definitions

- `BanList.LapsesAfter`, `Registry.LiftsAfter`: a ban and a block that end after a term
- `Outlasts`: one term is at least as long as another
- `State.DeadlinesExact`: what is said of all terms that start at some time

## Main statements

- `Ban.inForceAt_term_iff`, `Ban.overdueAt_term_iff`: both comparisons with a deadline, without a bound
- `blacklistDuration_of_isValid`: no valid configuration has a term that is cut
- `deadlines_exact`: bans by hand, blocks and bans for flooding
-/

namespace PeerWarden

variable {now t : Instant} {d longer : Option Span} {address id reason : String}

/-! ## Comparisons with a deadline -/

theorem Ban.inForceAt_term_iff (ht : t ≤ lastInstant) :
    Ban.inForceAt { reason, expires := deadlineAfter? now d } t = true ↔ ∀ span ∈ d, t < now + span := by
  simp only [inForceAt_iff, deadlineAfter?_eq_some_iff]
  constructor
  · intro h span hspan
    -- A sum that is no instant lies after all of them.
    by_cases hlast : now + span ≤ lastInstant
    · exact h _ ⟨span, hspan, rfl, hlast⟩
    · exact Int.lt_of_le_of_lt ht (Int.not_le.mp hlast)
  · rintro h deadline ⟨span, hspan, rfl, -⟩
    exact h span hspan

/-- A ban that would end just after the end of time holds to the last. -/
example : Ban.inForceAt { reason := "spam", expires := deadlineAfter? (lastInstant - 1) (some 2) } lastInstant := by
  decide

theorem Ban.overdueAt_term_iff (ht : t ≤ lastInstant) :
    Ban.overdueAt { reason, expires := deadlineAfter? now d } t = true ↔ ∃ span ∈ d, now + span < t := by
  simp only [overdueAt_iff, deadlineAfter?_eq_some_iff]
  constructor
  · rintro ⟨deadline, ⟨span, hspan, rfl, -⟩, hlt⟩
    exact ⟨span, hspan, hlt⟩
  · -- A sum that lies before an instant is an instant itself.
    rintro ⟨span, hspan, hlt⟩
    exact ⟨now + span, ⟨span, hspan, rfl, Int.le_trans (Int.le_of_lt hlt) ht⟩, hlt⟩

/-! ## Bans -/

/-- A ban lapses after a term that started at some time, if there is one. -/
structure BanList.LapsesAfter (bans : BanList) (address : String) (now : Instant) (d : Option Span) : Prop where
  isBanned_iff : ∀ t ≤ lastInstant, bans.isBanned address t = true ↔ ∀ span ∈ d, t < now + span
  /-- A sweep takes a ban away exactly if it has lapsed. -/
  swept_iff : ∀ t, (bans.sweep t).1.contains address = false ↔ bans.isBanned address t = false
  /-- Whom it frees, it names. -/
  named_iff : ∀ t, address ∈ (bans.sweep t).2 ↔ bans.isBanned address t = false

theorem BanList.lapsesAfter {bans : BanList}
    (h : bans.get? address = some { reason, expires := deadlineAfter? now d }) : bans.LapsesAfter address now d := by
  have hbanned (t : Instant) :
      bans.isBanned address t = Ban.inForceAt { reason, expires := deadlineAfter? now d } t := by
    rw [isBanned, h, Option.any_some]
  refine ⟨fun t ht => ?_, fun t => ?_, fun t => ?_⟩
  · rw [hbanned, Ban.inForceAt_term_iff ht]
  · rw [sweep_fst, Directory.contains, Directory.get?_filter, h, Option.isSome_filter, Option.any_some, hbanned]
  · rw [sweep, Directory.mem_keys_iff, Directory.contains, Directory.get?_filter, h, Option.isSome_filter,
      Option.any_some, hbanned, Bool.not_eq_true']

/-! ## Blocks -/

/-- A block is lifted after a term that started at some time, if there is one. -/
structure Registry.LiftsAfter (r : Registry) (id : String) (now : Instant) (d : Option Span) : Prop where
  blocked : ∃ p, r.get? id = some p ∧ p.isBlocked = true
  /-- A reputation pass lifts a block exactly if its term is over, and then the peer starts again. -/
  lifted : ∀ t ≤ lastInstant, ∀ idleDecayAfter p, r.get? id = some p → (∃ span ∈ d, now + span < t) →
    (r.reviewed t idleDecayAfter).get? id = some p.unblock
  kept : ∀ t ≤ lastInstant, ∀ idleDecayAfter p, r.get? id = some p → (¬∃ span ∈ d, now + span < t) →
    (r.reviewed t idleDecayAfter).get? id = some p
  /-- Whom it frees, it names. -/
  named_iff : ∀ t ≤ lastInstant, ∀ idleDecayAfter,
    id ∈ (r.sweepAt t idleDecayAfter).unblocked ↔ ∃ span ∈ d, now + span < t

theorem Registry.liftsAfter {r : Registry} {p : Peer} (hp : r.get? id = some p)
    (hban : p.ban = some { reason, expires := deadlineAfter? now d }) : r.LiftsAfter id now d := by
  have hblocked : p.isBlocked = true := by rw [Peer.isBlocked, hban, Option.isSome_some]
  have hoverdue (t : Instant) (ht : t ≤ lastInstant) : p.isOverdueAt t = true ↔ ∃ span ∈ d, now + span < t := by
    rw [Peer.isOverdueAt, hban, Option.any_some, Ban.overdueAt_term_iff ht]
  have hreviewed (t : Instant) (idleDecayAfter : Span) : (r.reviewed t idleDecayAfter).get? id =
      some (if p.isOverdueAt t then p.unblock else p) := by
    rw [reviewed, get?_map, hp, Option.map_some, Peer.reviewed, if_pos hblocked]
  refine ⟨⟨p, hp, hblocked⟩, fun t ht idleDecayAfter p' hp' hover => ?_,
    fun t ht idleDecayAfter p' hp' hopen => ?_, fun t ht idleDecayAfter => ?_⟩
  · obtain rfl := Option.some.inj (hp.symm.trans hp')
    rw [hreviewed, if_pos ((hoverdue t ht).mpr hover)]
  · obtain rfl := Option.some.inj (hp.symm.trans hp')
    rw [hreviewed, if_neg (mt (hoverdue t ht).mp hopen)]
  · have hpeers : r.peers.get? id = some p := hp
    rw [← hoverdue t ht, sweepAt, Directory.mem_keys_iff, Directory.contains, Directory.get?_filter, hpeers,
      Option.isSome_filter, Option.any_some]

/-! ## Longer terms -/

/-- One term is at least as long as another. No term at all is longer than any. -/
def Outlasts (longer d : Option Span) : Prop := ∀ span ∈ longer, ∃ shorter ∈ d, shorter ≤ span

theorem BanList.LapsesAfter.isBanned_of_outlasts {bans bans' : BanList} (h : bans.LapsesAfter address now d)
    (h' : bans'.LapsesAfter address now longer) (hlonger : Outlasts longer d) (ht : t ≤ lastInstant)
    (hbanned : bans.isBanned address t = true) : bans'.isBanned address t = true := by
  rw [h.isBanned_iff t ht] at hbanned
  rw [h'.isBanned_iff t ht]
  intro span hspan
  obtain ⟨shorter, hshorter, hle⟩ := hlonger span hspan
  calc t < now + shorter := hbanned shorter hshorter
    _ ≤ now + span := Int.add_le_add_left (Int.ofNat_le.mpr hle) now

theorem Registry.LiftsAfter.named_of_outlasts {r r' : Registry} (h : r.LiftsAfter id now d)
    (h' : r'.LiftsAfter id now longer) (hlonger : Outlasts longer d) (ht : t ≤ lastInstant) {idleDecayAfter : Span}
    (hnamed : id ∈ (r'.sweepAt t idleDecayAfter).unblocked) : id ∈ (r.sweepAt t idleDecayAfter).unblocked := by
  rw [h'.named_iff t ht] at hnamed
  rw [h.named_iff t ht]
  obtain ⟨span, hspan, hover⟩ := hnamed
  obtain ⟨shorter, hshorter, hle⟩ := hlonger span hspan
  refine ⟨shorter, hshorter, ?_⟩
  calc now + (shorter : Int) ≤ now + span := Int.add_le_add_left (Int.ofNat_le.mpr hle) now
    _ < t := hover

/-! ## How bans and blocks begin -/

/-- How long a valid configuration bans an address for flooding. -/
theorem Config.blacklistDuration_of_isValid {cfg : Config} (h : cfg.isValid = true) :
    cfg.dosProtection.blacklistDuration = Span.ofSeconds (cfg.dosProtection.blacklistDurationMinutes * 60) := by
  have hbound : cfg.dosProtection.blacklistDurationMinutes ≤ maxBlacklistMinutes :=
    of_decide_eq_true (holds_of_isValid h .blacklistBounded)
  have hsecs : cfg.dosProtection.blacklistDurationMinutes * 60 ≤ maxTermSecs := by
    unfold maxBlacklistMinutes at hbound
    unfold maxTermSecs
    omega
  rw [DosProtection.blacklistDuration, term, Nat.min_eq_left hsecs]

namespace State

variable (s : State)

theorem lapsesAfter_banAddress : (s.serve (.banAddress address reason d now)).1.bans.LapsesAfter address now d :=
  BanList.lapsesAfter ((s.get?_bans_serve address _).trans (if_pos rfl))

theorem liftsAfter_blockPeer (h : s.registry.contains id = true) :
    (s.serve (.blockPeer id reason d now)).1.registry.LiftsAfter id now d := by
  obtain ⟨p, hp⟩ : ∃ p, s.registry.get? id = some p := Option.isSome_iff_exists.mp h
  refine Registry.liftsAfter (p := p.block reason (deadlineAfter? now d)) ?_ rfl
  rw [get?_serve, hp]
  simp [servedPeer]

/-- A cycle that finds a flood sets a ban of the configured term. -/
theorem lapsesAfter_floods {cfg : Config} (hvalid : cfg.isValid = true)
    (h : (s.floods cfg now).offenders.contains address = true) : (s.floods cfg now).bans.LapsesAfter address now
      (some (Span.ofSeconds (cfg.dosProtection.blacklistDurationMinutes * 60))) := by
  rw [← Config.blacklistDuration_of_isValid hvalid]
  exact BanList.lapsesAfter ((Flood.get?_bans ..).trans (if_pos h))

/-- The sweep at the end of a cycle makes no difference to who is banned from then on. -/
theorem isBanned_securityCycle (cfg : Config) (model : Option Classifier) (asked : List Features) (hnow : now ≤ t) :
    (s.securityCycle cfg model asked now).state.isBanned address t = (s.floods cfg now).bans.isBanned address t := by
  -- A cycle that is broken off does not come to sweep, which makes no difference either.
  rw [← BanList.isBanned_sweep _ _ hnow]
  cases hcrash : (s.detect cfg model asked now).crash with
  | some message =>
    rw [(securityCycle_of_crash s cfg model asked now hcrash).1, BanList.isBanned_sweep _ _ hnow]
    rfl
  | none =>
    rw [securityCycle_of_complete s cfg model asked now hcrash]
    rfl

/-! ## All terms -/

/-- Every term that starts at some time ends where whole numbers without a bound would end it. -/
structure DeadlinesExact (s : State) (now : Instant) : Prop where
  /-- A ban by hand may replace any ban. -/
  bans : ∀ address reason d, (s.serve (.banAddress address reason d now)).1.bans.LapsesAfter address now d
  /-- A block may replace any block. -/
  blocks : ∀ id reason d, s.registry.contains id = true →
    (s.serve (.blockPeer id reason d now)).1.registry.LiftsAfter id now d
  floods : ∀ cfg : Config, cfg.isValid = true → ∀ address, (s.floods cfg now).offenders.contains address = true →
    (s.floods cfg now).bans.LapsesAfter address now
      (some (Span.ofSeconds (cfg.dosProtection.blacklistDurationMinutes * 60)))
  /-- The same is seen after the cycle that sets the ban, whether it completes or not. -/
  cycles : ∀ cfg : Config, cfg.isValid = true → ∀ address, (s.floods cfg now).offenders.contains address = true →
    ∀ model asked t, now ≤ t → t ≤ lastInstant →
      ((s.securityCycle cfg model asked now).state.isBanned address t = true ↔
        t < now + Span.ofSeconds (cfg.dosProtection.blacklistDurationMinutes * 60))
  /-- A longer ban never lapses earlier. -/
  longer_bans : ∀ address reason reason' d longer, Outlasts longer d → ∀ t ≤ lastInstant,
    (s.serve (.banAddress address reason d now)).1.isBanned address t = true →
      (s.serve (.banAddress address reason' longer now)).1.isBanned address t = true
  /-- A longer block is never lifted earlier. -/
  longer_blocks : ∀ id reason reason' d longer, s.registry.contains id = true → Outlasts longer d →
    ∀ t ≤ lastInstant, ∀ idleDecayAfter,
      id ∈ ((s.serve (.blockPeer id reason' longer now)).1.registry.sweepAt t idleDecayAfter).unblocked →
        id ∈ ((s.serve (.blockPeer id reason d now)).1.registry.sweepAt t idleDecayAfter).unblocked
  /-- Of two valid configurations that both find a flood, the one with the longer term never ends the ban earlier. -/
  longer_floods : ∀ cfg cfg' : Config, cfg.isValid = true → cfg'.isValid = true → ∀ address,
    (s.floods cfg now).offenders.contains address = true → (s.floods cfg' now).offenders.contains address = true →
      cfg.dosProtection.blacklistDurationMinutes ≤ cfg'.dosProtection.blacklistDurationMinutes →
        ∀ t ≤ lastInstant, (s.floods cfg now).bans.isBanned address t = true →
          (s.floods cfg' now).bans.isBanned address t = true

/-- **Deadlines are exact**, even at the end of time. -/
theorem deadlines_exact (s : State) (now : Instant) : s.DeadlinesExact now where
  bans _ _ _ := s.lapsesAfter_banAddress
  blocks _ _ _ hknown := s.liftsAfter_blockPeer hknown
  floods _ hvalid _ hflood := s.lapsesAfter_floods hvalid hflood
  cycles cfg hvalid address hflood model asked t hnow ht := by
    rw [s.isBanned_securityCycle cfg model asked hnow, (s.lapsesAfter_floods hvalid hflood).isBanned_iff t ht]
    simp
  longer_bans _ _ _ _ _ hlonger _ ht hbanned :=
    s.lapsesAfter_banAddress.isBanned_of_outlasts s.lapsesAfter_banAddress hlonger ht hbanned
  longer_blocks _ _ _ _ _ hknown hlonger _ ht _ hnamed :=
    (s.liftsAfter_blockPeer hknown).named_of_outlasts (s.liftsAfter_blockPeer hknown) hlonger ht hnamed
  longer_floods cfg cfg' hvalid hvalid' address hflood hflood' hminutes t ht hbanned := by
    -- No valid configuration has a term that is cut, so more minutes are a longer term.
    refine (s.lapsesAfter_floods hvalid hflood).isBanned_of_outlasts (s.lapsesAfter_floods hvalid' hflood') ?_ ht
      hbanned
    intro span hspan
    obtain rfl := Option.some.inj hspan
    exact ⟨_, rfl, Nat.mul_le_mul_right _ (Nat.mul_le_mul_right 60 hminutes)⟩

end State

end PeerWarden
