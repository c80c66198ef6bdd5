import PeerWarden.Config.Rules
import PeerWarden.Proofs.Cycle.HealthView
import PeerWarden.Proofs.Directory.Entries

/-!
# Preferred Peers

The preferred outbound peers of a health cycle are chosen by their links: they are connected and were measured fast
enough. Blocks and bans have no part in the choice. So a peer that is blocked, or behind a banned address, may well
be preferred as long as it is connected; what it lacks is trust.

## Main definitions

- `Session.withBarriers`: a session with other blocks and bans
- `Warden.PreferredByLink`: what holds of the peers that a health cycle prefers

## Main statements

- `Pool.exists_of_mem_preferred`: preferred peers are connected and fast
- `healthReport_withBarriers`: a health cycle reports the same with other blocks and bans
- `preferred_by_link`: the preferred peers of every reachable session
- `inadmissible_peers_preferred`: a blocked peer, and one behind a banned address, that are preferred
-/

namespace PeerWarden

/-! ## The ranking -/

theorem Pool.exists_of_isFast {preferredLatencyMs : Float} {e : String × Peer} (h : isFast preferredLatencyMs e = true) :
    ∃ ms, e.2.latency = some ms ∧ ms < preferredLatencyMs := by
  unfold isFast at h
  cases hlatency : e.2.latency with
  | none => simp [hlatency] at h
  | some ms => exact ⟨ms, rfl, by simpa [hlatency] using h⟩

/-- Preferred peers are connected, and were measured below the preferred latency. -/
theorem Pool.exists_of_mem_preferred {preferredLatencyMs : Float} {maxPeers maxOutbound : Nat} {r : Registry}
    {id : String} (h : id ∈ (decision preferredLatencyMs maxPeers maxOutbound r).preferred) :
    ∃ p ms, r.get? id = some p ∧ p.active = true ∧ p.latency = some ms ∧ ms < preferredLatencyMs := by
  simp only [decision] at h
  split at h
  · cases h
  · obtain ⟨⟨name, p⟩, hmem, rfl⟩ := List.mem_map.mp h
    have hchosen := List.mem_of_mem_take hmem
    obtain ⟨ms, hlatency, hbelow⟩ := exists_of_isFast (List.all_eq_true.mp List.all_takeWhile _ hchosen)
    have hranked : (name, p) ∈ r.active := List.mem_mergeSort.mp ((List.takeWhile_sublist _).subset hchosen)
    obtain ⟨hlisted, hactive⟩ := List.mem_filter.mp hranked
    exact ⟨p, ms, Directory.mem_entries_iff.mp hlisted, hactive, hlatency, hbelow⟩

/-! ## Blocks and bans -/

/-- A session in which other peers are blocked and other addresses are banned. -/
def Session.withBarriers (s : Session) (blocks : String → Option Ban) (bans : BanList) : Session :=
  { s with state := { s.state with registry := s.state.registry.map fun id p => { p with ban := blocks id }, bans } }

namespace Warden

variable (w : Warden) (s : Session)

/-- A health cycle does not look at blocks and bans. -/
theorem healthReport_withBarriers (blocks : String → Option Ban) (bans : BanList) (now : Instant) :
    (w.healthCycle (s.withBarriers blocks bans) now).2 = (w.healthCycle s now).2 := by
  have hlinks : Peer.KeepsLinks fun id p => { p with ban := blocks id } :=
    { active := fun _ _ => rfl, latency := fun _ _ => rfl, throughput := fun _ _ => rfl, standing := fun _ _ => rfl }
  have hsampled : w.sample (s.withBarriers blocks bans) = ({ s.withBarriers blocks bans with samples := s.samples + 1 },
      (w.sample s).2) := rfl
  cases hsample : (w.sample s).2 with
  | error fault =>
    rw [healthCycle_of_error hsample, healthCycle_of_error (by rw [hsampled, hsample])]
  | ok usage =>
    rw [healthCycle_of_ok hsample, healthCycle_of_ok (by rw [hsampled, hsample])]
    have hmap := State.healthCycle_of_map (s := s.state) (t := (s.withBarriers blocks bans).state) hlinks w.config usage
      now rfl rfl rfl rfl
    rw [hmap]

/-! ## Preferred peers -/

/-- What holds of the peers that a health cycle prefers, given its report. -/
structure PreferredByLink (now : Instant) (report : HealthReport) : Prop where
  /-- They are known, connected, and were measured below the preferred latency. -/
  fast : ∀ id ∈ report.pool.preferred, ∃ p ms, s.state.registry.get? id = some p ∧ p.active = true ∧
    p.latency = some ms ∧ ms < w.config.pool.preferredLatencyMs
  /-- They are remembered as the outbound peers, unless the set was too small to be ranked. -/
  stored : (w.healthCycle s now).1.state.outbound =
    if report.pool.skipped then s.state.outbound else report.pool.preferred
  /-- They would be the same if other peers were blocked and other addresses banned. -/
  regardless : ∀ blocks bans, (w.healthCycle (s.withBarriers blocks bans) now).2 = .ok report
  /-- Those that are blocked or behind a banned address are not trusted. -/
  distrusted : ∀ id ∈ report.pool.preferred, ∀ p, s.state.registry.get? id = some p →
    p.isBlocked = true ∨ s.state.isBanned p.address now = true →
      s.state.isTrusted w.config.security id now = false

/-- **Peers are preferred by their links**, whether or not they are blocked or behind a banned address. -/
theorem preferred_by_link (ops : List Operation) (now : Instant) (report : HealthReport)
    (h : (w.healthCycle (w.run w.start ops) now).2 = .ok report) :
    w.PreferredByLink (w.run w.start ops) now report := by
  generalize w.run w.start ops = s at *
  obtain ⟨usage, -, hreport, hstate⟩ := healthCycle_eq_ok h
  constructor
  case fast =>
    rw [hreport]
    exact fun id hid => Pool.exists_of_mem_preferred hid
  case stored =>
    rw [hstate, hreport]
    rfl
  case regardless =>
    intro blocks bans
    rw [healthReport_withBarriers, h]
  case distrusted =>
    intro id _ p hp hbarred
    rw [State.isTrusted, hp, Option.any_some, State.trusts, Peer.passes]
    rcases hbarred with hblocked | hbanned
    · simp [hblocked]
    · simp [hbanned]

/-! ## Outsiders who are preferred -/

/-- Three connected peers that were all measured fast. The first one is blocked, the address of the second is banned. -/
def outsiders : List Operation :=
  [.request (.register "p" "a" 0), .request (.latency "p" 10.0), .request (.register "q" "b" 0),
    .request (.latency "q" 20.0), .request (.register "r" "c" 0), .request (.latency "r" 30.0),
    .request (.blockPeer "p" "spam" none 0), .request (.banAddress "b" "flood" none 0)]

/-- A warden that has room for just these. -/
def snug : Warden := standalone { pool := { maxPeers := 3, maxOutboundPeers := 3 } }

theorem exists_report_outsiders : ∃ report, (snug.healthCycle (snug.run snug.start outsiders) 1).2 = .ok report ∧
    report.pool.preferred = ["p", "q", "r"] ∧
    (snug.healthCycle (snug.run snug.start outsiders) 1).1.state.outbound = ["p", "q", "r"] := by
  have hranked : Pool.ranked (snug.run snug.start outsiders).state.registry =
      (snug.run snug.start outsiders).state.registry.active :=
    Pool.ranked_of_pairwise (by decide +kernel)
  have hsample : (snug.sample (snug.run snug.start outsiders)).2 = .ok {} := rfl
  refine ⟨_, congrArg Prod.snd (healthCycle_of_ok hsample 1), ?_, ?_⟩
  · simp only [State.healthCycle, Pool.decision, hranked]
    decide +kernel
  · rw [healthCycle_of_ok hsample]
    simp only [State.healthCycle, State.applyPool, Pool.decision, hranked]
    decide +kernel

/-- A blocked peer and one behind a banned address, both preferred and remembered as outbound peers. -/
theorem inadmissible_peers_preferred :
    let s := snug.run snug.start outsiders
    snug.config.isValid = true ∧ (s.state.registry.get? "p").any (·.isBlocked) = true ∧
      (s.state.registry.get? "q").any (fun q => s.state.isBanned q.address 1) = true ∧
      ∃ report, (snug.healthCycle s 1).2 = .ok report ∧ "p" ∈ report.pool.preferred ∧
        "q" ∈ report.pool.preferred ∧ (snug.healthCycle s 1).1.state.outbound = report.pool.preferred := by
  intro s
  obtain ⟨report, hreport, hpreferred, houtbound⟩ := exists_report_outsiders
  refine ⟨by decide +kernel, by decide +kernel, by decide +kernel, report, hreport, ?_⟩
  rw [houtbound, hpreferred]
  decide

/-- The third one, which is neither, is preferred as well. -/
theorem preferred_by_link_outsiders : ∃ report, (snug.healthCycle (snug.run snug.start outsiders) 1).2 = .ok report ∧
    "r" ∈ report.pool.preferred ∧ snug.PreferredByLink (snug.run snug.start outsiders) 1 report := by
  obtain ⟨report, hreport, hpreferred, -⟩ := exists_report_outsiders
  refine ⟨report, hreport, ?_, preferred_by_link snug outsiders 1 report hreport⟩
  rw [hpreferred]
  decide

end Warden

end PeerWarden
