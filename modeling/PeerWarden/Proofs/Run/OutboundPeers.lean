import Mathlib.Data.List.Induction
import PeerWarden.Proofs.Cycle.Commutation
import PeerWarden.Proofs.Health.Preference
import PeerWarden.Proofs.Run.Contacts
import PeerWarden.Proofs.Run.Independence
import PeerWarden.Proofs.Run.Reports

/-!
# Outbound Peers

The outbound peers are remembered by name, and only a ranking replaces them. Meanwhile peers come, go and are
forgotten. Still nobody among them is known and not connected: only a health cycle takes peers out of the connected
set, and one that evicts anybody has ranked them all and chosen the outbound peers from those that stay.

## Main definitions

- `Warden.ranking?`, `Warden.rankings`: the reports of the health cycles in which the connected peers were ranked
- `Warden.ForgottenBy`: a run with the security cycle singled out that forgot a peer for good
- `Warden.OutboundAccounted`: what is known of the outbound peers after a run

## Main statements

- `Pool.notMem_evicted_of_mem_preferred`: nobody is preferred and evicted at once
- `isActive_of_mem_preferred`: a ranking leaves the peers connected that it prefers
- `isActive_step_or_forgotten`: without a ranking, connected peers stay connected or are forgotten
- `outbound_accounted`: the outbound peers after every run
-/

namespace PeerWarden

/-! ## Preferred peers -/

namespace Pool

variable {preferredLatencyMs : Float} {maxPeers maxOutbound : Nat} {r : Registry} {id : String}

theorem preferred_sublist_take :
    (decision preferredLatencyMs maxPeers maxOutbound r).preferred.Sublist
      (((ranked r).take maxOutbound).map Prod.fst) := by
  simp only [decision]
  split
  · exact List.nil_sublist _
  · rw [List.take_takeWhile]
    exact (List.takeWhile_sublist _).map Prod.fst

/-- A set that is too small to be ranked keeps its peers. -/
theorem evicted_of_skipped (h : (decision preferredLatencyMs maxPeers maxOutbound r).skipped = true) :
    (decision preferredLatencyMs maxPeers maxOutbound r).evicted = [] := by
  simp only [decision] at h ⊢
  split at h
  · next hsparse => rw [if_pos hsparse]
  · cases h

theorem nodup_preferred : (decision preferredLatencyMs maxPeers maxOutbound r).preferred.Nodup :=
  (preferred_sublist_take.trans ((List.take_sublist ..).map Prod.fst)).nodup nodup_ranked

theorem length_preferred_le : (decision preferredLatencyMs maxPeers maxOutbound r).preferred.length ≤ maxOutbound :=
  calc (decision preferredLatencyMs maxPeers maxOutbound r).preferred.length
      ≤ (((ranked r).take maxOutbound).map Prod.fst).length := preferred_sublist_take.length_le
    _ ≤ maxOutbound := by
      rw [List.length_map]
      exact List.length_take_le ..

/-- Nobody is preferred and evicted at once. -/
theorem notMem_evicted_of_mem_preferred (h : id ∈ (decision preferredLatencyMs maxPeers maxOutbound r).preferred) :
    id ∉ (decision preferredLatencyMs maxPeers maxOutbound r).evicted := by
  intro hevicted
  have hnodup : ((ranked r).map Prod.fst).Nodup := nodup_ranked
  rw [← List.take_append_drop maxOutbound (ranked r), List.map_append, List.nodup_append] at hnodup
  exact hnodup.2.2 id (preferred_sublist_take.subset h) id (evicted_sublist_drop.subset hevicted) rfl

end Pool

/-! ## Rankings -/

namespace Warden

variable (w : Warden)

/-- The report of a health cycle that ranks the connected peers. -/
def ranking? (s : Session) (op : Operation) : Option HealthReport :=
  (w.healthReport? s op).filter fun report => !report.pool.skipped

/-- The reports of the health cycles that rank the connected peers. -/
def rankings (ops : List Operation) : List HealthReport :=
  (w.healthReports ops).filter fun report => !report.pool.skipped

theorem rankings_concat (ops : List Operation) (op : Operation) :
    w.rankings (ops ++ [op]) = w.rankings ops ++ (w.ranking? (w.run w.start ops) op).toList := by
  rw [rankings, healthReports_concat, List.filter_append, ← rankings, ranking?]
  cases w.healthReport? (w.run w.start ops) op with
  | none => rfl
  | some report => cases h : report.pool.skipped <;> simp [Option.filter, h]

variable {w} {s : Session} {op : Operation} {id : String} {report : HealthReport}

theorem ranking?_eq_some (h : w.ranking? s op = some report) :
    ∃ now, op = .healthCycle now ∧ (w.healthCycle s now).2 = .ok report ∧ report.pool.skipped = false := by
  obtain ⟨hreport, hranked⟩ := Option.filter_eq_some_iff.mp h
  obtain ⟨now, rfl, hok⟩ := healthReport?_eq_some hreport
  exact ⟨now, rfl, hok, by simpa using hranked⟩

/-- A ranking replaces the outbound peers by those that it prefers. -/
theorem outbound_of_ranking (h : w.ranking? s op = some report) :
    (w.step s op).state.outbound = report.pool.preferred ∧ report.pool = Pool.decision
      w.config.pool.preferredLatencyMs w.config.pool.maxPeers w.config.pool.maxOutboundPeers s.state.registry := by
  obtain ⟨now, rfl, hok, hranked⟩ := ranking?_eq_some h
  obtain ⟨usage, -, rfl, hstate⟩ := healthCycle_eq_ok hok
  refine ⟨?_, rfl⟩
  show (w.healthCycle s now).1.state.outbound = _
  rw [hstate]
  exact if_neg (hranked ▸ Bool.false_ne_true)

/-- Without a ranking, a health cycle evicts nobody and keeps the outbound peers. -/
theorem healthCycle_of_unranked {now : Instant} (h : w.ranking? s (.healthCycle now) = none) :
    w.evictedBy s now = [] ∧ (w.healthCycle s now).1.state.outbound = s.state.outbound := by
  cases hsample : (w.sample s).2 with
  | error fault =>
    rw [evictedBy, healthCycle_of_error hsample]
    exact ⟨rfl, rfl⟩
  | ok usage =>
    -- The cycle has a report, so it can only be the ranking that did not take place.
    have hskipped : (s.state.healthCycle w.config usage now).2.pool.skipped = true := by
      simpa [ranking?, healthReport?, healthCycle_of_ok hsample, Except.toOption] using h
    rw [evictedBy, healthCycle_of_ok hsample]
    exact ⟨Pool.evicted_of_skipped hskipped, if_pos hskipped⟩

theorem outbound_of_unranked (h : w.ranking? s op = none) : (w.step s op).state.outbound = s.state.outbound := by
  -- Neither requests nor security cycles touch the outbound peers at all.
  cases op with
  | request r =>
    show (s.state.serve r).1.outbound = _
    rw [State.serve_frame]
  | securityCycle now =>
    show (w.securityCycle s now).1.state.outbound = _
    rw [securityCycle_state, State.securityCycle_frame]
  | healthCycle now => exact (healthCycle_of_unranked h).2

/-- A ranking leaves the peers connected that it prefers. -/
theorem isActive_of_mem_preferred (h : w.ranking? s op = some report) (hid : id ∈ report.pool.preferred) :
    (w.step s op).state.registry.isActive id = true := by
  obtain ⟨-, hdecision⟩ := outbound_of_ranking h
  obtain ⟨now, rfl, hok, -⟩ := ranking?_eq_some h
  rw [hdecision] at hid
  obtain ⟨p, -, hp, hactive, -⟩ := Pool.exists_of_mem_preferred hid
  have hstays : id ∉ w.evictedBy s now := by
    rw [evictedBy, hok]
    show id ∉ report.pool.evicted
    rw [hdecision]
    exact Pool.notMem_evicted_of_mem_preferred hid
  rw [Registry.isActive, get?_step_healthCycle hp, if_neg hstays]
  exact hactive

/-- Without a ranking, a connected peer stays connected, unless a security cycle forgets it. -/
theorem isActive_step_or_forgotten (h : w.ranking? s op = none) (hactive : s.state.registry.isActive id = true) :
    (w.step s op).state.registry.isActive id = true ∨ ∃ now report, op = .securityCycle now ∧
      (w.securityCycle s now).2 = .ok report ∧ id ∈ report.forgottenPeers ∧ (w.step s op).knows id = false := by
  obtain ⟨p, hp, hpactive⟩ := (Option.any_eq_true ..).mp hactive
  cases hp' : (w.step s op).state.registry.get? id with
  | none =>
    obtain ⟨now, report, hop, hok, hforgotten⟩ := (get?_step_eq_none_iff hp op).mp hp'
    exact .inr ⟨now, report, hop, hok, hforgotten, Session.not_knows_iff.mpr hp'⟩
  | some p' =>
    left
    rw [Registry.isActive, hp', Option.any_some, active_step hp hp', hpactive]
    cases hcontact : w.contact? s id op with
    | none => rfl
    | some c =>
      cases c with
      | dropped =>
        -- Only health cycles drop peers, and this one would have had to rank them.
        obtain ⟨d, hd, rfl⟩ := contact?_eq_dropped_iff.mp hcontact
        obtain ⟨now, rfl, hevicted⟩ := exists_healthCycle_of_mem_issued hd
        rw [(healthCycle_of_unranked h).1] at hevicted
        cases hevicted
      | _ => rfl

/-- Whoever becomes known is connected. -/
theorem isActive_step_of_unknown (hunknown : s.knows id = false) (hknown : (w.step s op).knows id = true) :
    (w.step s op).state.registry.isActive id = true := by
  obtain ⟨p, hp⟩ := Session.knows_iff.mp hknown
  have hstep := w.get?_step_of_unknown (Session.not_knows_iff.mp hunknown) op
  rw [hp] at hstep
  obtain ⟨⟨address, now⟩, -, rfl⟩ := Option.map_eq_some_iff.mp hstep.symm
  rw [Registry.isActive, hp]
  rfl

/-! ## Outbound peers -/

variable (w)

/-- A run with the security cycle singled out that forgot a peer for good, after the latest ranking. -/
structure ForgottenBy (id : String) (ops earlier : List Operation) (now : Instant) (later : List Operation) : Prop where
  split : ops = earlier ++ .securityCycle now :: later
  /-- The cycle reports the peer as forgotten. -/
  forgotten : ∃ report, (w.securityCycle (w.run w.start earlier) now).2 = .ok report ∧ id ∈ report.forgottenPeers
  /-- From then on to the end of the run the peer is not known. -/
  unknown : ∀ since, since <+: later → (w.run w.start (earlier ++ .securityCycle now :: since)).knows id = false
  /-- Every ranking of the run came before the cycle. -/
  ranked : w.rankings earlier = w.rankings ops

/-- What is known of the outbound peers after a run. -/
structure OutboundAccounted (ops : List Operation) : Prop where
  /-- Nobody is among them twice. -/
  nodup : (w.run w.start ops).state.outbound.Nodup
  /-- There are no more of them than slots. -/
  bounded : (w.run w.start ops).state.outbound.length ≤ w.config.pool.maxOutboundPeers
  /-- They are the peers that the latest ranking preferred; before the first one there are none. -/
  latest : (w.run w.start ops).state.outbound = ((w.rankings ops).getLast?.map (·.pool.preferred)).getD []
  /-- Each of them is known and connected, or is unknown since a security cycle after that ranking forgot it. -/
  present : ∀ id ∈ (w.run w.start ops).state.outbound, (w.run w.start ops).state.registry.isActive id = true ∨
    ∃ earlier now later, w.ForgottenBy id ops earlier now later

variable {w} {ops : List Operation}

/-- A peer that was forgotten stays so as long as it is not known again and nobody is ranked. -/
theorem ForgottenBy.concat {earlier later : List Operation} {now : Instant} (h : w.ForgottenBy id ops earlier now later)
    (hunranked : w.ranking? (w.run w.start ops) op = none) (hunknown : (w.run w.start (ops ++ [op])).knows id = false) :
    w.ForgottenBy id (ops ++ [op]) earlier now (later ++ [op]) where
  split := by simp [h.split]
  forgotten := h.forgotten
  unknown := by
    intro since hsince
    rcases List.prefix_concat_iff.mp hsince with rfl | hbefore
    · have hall : earlier ++ .securityCycle now :: (later ++ [op]) = ops ++ [op] := by simp [h.split]
      rw [hall]
      exact hunknown
    · exact h.unknown since hbefore
  ranked := by rw [rankings_concat, hunranked, Option.toList_none, List.append_nil, h.ranked]

namespace OutboundAccounted

theorem start : w.OutboundAccounted [] where
  nodup := List.nodup_nil
  bounded := Nat.zero_le _
  latest := rfl
  present := nofun

/-- A ranking replaces the outbound peers. -/
theorem concat_ranking {report : HealthReport} (h : w.ranking? (w.run w.start ops) op = some report) :
    w.OutboundAccounted (ops ++ [op]) := by
  obtain ⟨houtbound, hdecision⟩ := outbound_of_ranking h
  rw [← run_concat] at houtbound
  constructor
  case nodup =>
    rw [houtbound, hdecision]
    exact Pool.nodup_preferred
  case bounded =>
    rw [houtbound, hdecision]
    exact Pool.length_preferred_le
  case latest =>
    rw [houtbound, rankings_concat, h, Option.toList_some, List.getLast?_concat]
    rfl
  case present =>
    intro id hid
    left
    rw [houtbound] at hid
    rw [run_concat]
    exact isActive_of_mem_preferred h hid

/-- Any other operation leaves the names of the outbound peers, and accounts for those that it forgets. -/
theorem concat_unranked (hops : w.OutboundAccounted ops) (h : w.ranking? (w.run w.start ops) op = none) :
    w.OutboundAccounted (ops ++ [op]) := by
  have houtbound := outbound_of_unranked h
  rw [← run_concat] at houtbound
  have hrankings : w.rankings (ops ++ [op]) = w.rankings ops := by
    rw [rankings_concat, h, Option.toList_none, List.append_nil]
  constructor
  case nodup => exact houtbound ▸ hops.nodup
  case bounded => exact houtbound ▸ hops.bounded
  case latest => rw [houtbound, hrankings, hops.latest]
  case present =>
    intro id hid
    rw [houtbound] at hid
    -- The name is still there. What it stands for may have been forgotten, or have come back.
    rcases hops.present id hid with hactive | ⟨earlier, now, later, hforgotten⟩
    · rcases isActive_step_or_forgotten h hactive with hstays | ⟨now, report, rfl, hok, hmem, hunknown⟩
      · left
        rw [run_concat]
        exact hstays
      · refine .inr ⟨ops, now, [], rfl, ⟨report, hok, hmem⟩, fun since hsince => ?_, hrankings.symm⟩
        rw [List.prefix_nil.mp hsince, run_concat]
        exact hunknown
    · cases hknown : (w.run w.start (ops ++ [op])).knows id with
      | false => exact .inr ⟨earlier, now, later ++ [op], hforgotten.concat h hknown⟩
      | true =>
        left
        have hunknown : (w.run w.start ops).knows id = false := by
          rw [hforgotten.split]
          exact hforgotten.unknown later (List.prefix_refl _)
        rw [run_concat] at hknown ⊢
        exact isActive_step_of_unknown hunknown hknown

end OutboundAccounted

/-- **The outbound peers are accounted for** after every run: by the latest ranking, and by the security cycles that
    came after it. -/
theorem outbound_accounted (w : Warden) (ops : List Operation) : w.OutboundAccounted ops := by
  induction ops using List.reverseRecOn with
  | nil => exact .start
  | append_singleton ops op ih =>
    -- Only after another ranking does the account start anew.
    cases h : w.ranking? (w.run w.start ops) op with
    | none => exact ih.concat_unranked h
    | some report => exact .concat_ranking h

end Warden

end PeerWarden
