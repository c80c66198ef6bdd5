import PeerWarden.Proofs.Health.Pruning
import PeerWarden.Proofs.Number.TotalOrder
import PeerWarden.Proofs.Run.OutboundPeers

/-!
# What a Ranking Selects and Prunes

The connected peers are ranked by latency, the unmeasured ones last, and by identity where latencies tie. No two of
them share a place, so there is one order of them, and both selections are parts of it: the peers that are preferred
are the first of all that were measured fast enough, and the peers that are evicted are all behind the slots. That
the fast ones can be read off the front of the line needs latencies that are finite numbers; other doubles do not rank
as they compare.

## Main definitions

- `Registry.SamplesChecked`: every latency on record passed the check of measurements
- `Pool.RanksBefore`: the order of the peers
- `Pool.PrunesByRank`: what a ranking selects, and what it leaves of a registry

## Main statements

- `Pool.pairwise_ranked`: the ranking is in the order of the peers
- `Pool.takeWhile_isFast`: the fast peers are the front of the ranking
- `Pool.ranksBefore_of_evicted`: whoever stays ranks before whoever is evicted
- `Pool.prunes_by_rank`: all of it, for every registry and all limits
- `Warden.samplesChecked_run`: the latencies on record after every run
-/

namespace PeerWarden

/-! ## Checked latencies -/

/-- Every latency on record passed the check of measurements. -/
def Registry.SamplesChecked (r : Registry) : Prop :=
  ∀ id p ms, r.get? id = some p → p.latency = some ms → checkSample id "latency_ms" ms = .ok ()

theorem isFinite_of_checkSample {peer field : String} {value : Float} (h : checkSample peer field value = .ok ()) :
    value.isFinite = true := by
  unfold checkSample at h
  split at h
  · next hpasses => exact (Bool.and_eq_true_iff.mp hpasses).1
  · cases h

namespace Pool

/-! ## The order of the peers -/

/-- One peer ranks before another: a measured one before an unmeasured one, of two measured ones that with the lower
    latency, and otherwise that with the lower identity. -/
def RanksBefore (a b : String × Peer) : Prop :=
  match a.2.latency, b.2.latency with
  | some x, some y => Number.rank x < Number.rank y ∨ x = y ∧ a.1 < b.1
  | some _, none => True
  | none, some _ => False
  | none, none => a.1 < b.1

/-- The comparison that sorts the peers is the complement of the order, taken the other way round. -/
theorem ranksBefore_iff {a b : String × Peer} : RanksBefore a b ↔ ranksLE b a = false := by
  have hsame (x y : Float) : x = y ↔ Number.rank x = Number.rank y := Number.rank_injective.eq_iff.symm
  unfold RanksBefore ranksLE
  cases a.2.latency <;> cases b.2.latency
  case some.some x y =>
    simp only [latencyLE, hsame]
    -- Only latencies in the same place leave it to the identity.
    rcases lt_trichotomy (Number.rank x) (Number.rank y) with h | h | h
    · simp [h, h.le]
    · simp [h]
    · simp [h.not_ge, h.not_gt, h.ne', h.le]
  all_goals simp [latencyLE]

theorem RanksBefore.irrefl (e : String × Peer) : ¬RanksBefore e e := by
  rw [ranksBefore_iff, Bool.not_eq_false]
  simpa using ranksLE_total e e

theorem ranksLE_of_ranksBefore {a b : String × Peer} (h : RanksBefore a b) : ranksLE a b = true := by
  have htotal := ranksLE_total a b
  rw [ranksBefore_iff.mp h, Bool.or_false] at htotal
  exact htotal

theorem RanksBefore.trans {a b c : String × Peer} (hab : RanksBefore a b) (hbc : RanksBefore b c) :
    RanksBefore a c := by
  rw [ranksBefore_iff]
  apply Bool.eq_false_iff.mpr
  intro hca
  -- If the last ranked before or with the first, then also before or with the one between them.
  have hcb : ranksLE c b = true := ranksLE_trans c a b hca (ranksLE_of_ranksBefore hab)
  exact Bool.false_ne_true ((ranksBefore_iff.mp hbc).symm.trans hcb)

variable {r : Registry}

/-- Of two connected peers one ranks before the other. -/
theorem RanksBefore.total {a b : String × Peer} (ha : a ∈ r.active) (hb : b ∈ r.active) (hne : a ≠ b) :
    RanksBefore a b ∨ RanksBefore b a := by
  by_contra hneither
  obtain ⟨hab, hba⟩ := not_or.mp hneither
  rw [ranksBefore_iff, Bool.not_eq_false] at hab hba
  exact hne (eq_of_ranksLE ha hb hba hab)

/-! ## The ranking -/

theorem mem_ranked {e : String × Peer} : e ∈ ranked r ↔ e ∈ r.active := List.mem_mergeSort

theorem perm_ranked (r : Registry) : (ranked r).Perm r.active := List.mergeSort_perm ..

/-- The ranking is in the order of the peers. -/
theorem pairwise_ranked (r : Registry) : (ranked r).Pairwise RanksBefore := by
  have hsorted : (ranked r).Pairwise fun a b => ranksLE a b = true :=
    List.pairwise_mergeSort ranksLE_trans ranksLE_total r.active
  have hnodup : (ranked r).Pairwise (· ≠ ·) := List.Nodup.of_map _ nodup_ranked
  refine (hsorted.and hnodup).imp_of_mem fun {a b} ha hb h => ?_
  rcases RanksBefore.total (mem_ranked.mp ha) (mem_ranked.mp hb) h.2 with hab | hba
  · exact hab
  · -- Ranked the other way round they would have been sorted the other way round.
    exact absurd (h.1.symm.trans (ranksBefore_iff.mp hba)) Bool.true_eq_false.mp

/-- A list in which whatever comes before a hit is a hit begins with all its hits. -/
theorem takeWhile_eq_filter {α : Type} {p : α → Bool} {xs : List α}
    (h : xs.Pairwise fun a b => p b = true → p a = true) : xs.takeWhile p = xs.filter p := by
  induction xs with
  | nil => rfl
  | cons a xs ih =>
    obtain ⟨hfirst, hrest⟩ := List.pairwise_cons.mp h
    cases ha : p a with
    | true => rw [List.takeWhile_cons_of_pos ha, List.filter_cons_of_pos ha, ih hrest]
    | false =>
      -- Behind the first miss there are no hits.
      have hnone : xs.filter p = [] := List.filter_eq_nil_iff.mpr fun b hb hit => by
        rw [hfirst b hb hit] at ha
        cases ha
      rw [List.takeWhile_cons_of_neg (by simp [ha]), List.filter_cons_of_neg (by simp [ha]), hnone]

/-- Whoever ranks before a fast peer is fast. -/
theorem isFast_of_ranksBefore (hchecked : r.SamplesChecked) {preferredLatencyMs : Float} {a b : String × Peer}
    (ha : a ∈ r.active) (hb : b ∈ r.active) (hab : RanksBefore a b) (hfast : isFast preferredLatencyMs b = true) :
    isFast preferredLatencyMs a = true := by
  have hfinite {e : String × Peer} {ms : Float} (he : e ∈ r.active) (hms : e.2.latency = some ms) :
      ms.isFinite = true :=
    isFinite_of_checkSample (hchecked e.1 e.2 ms (get?_of_mem_active he) hms)
  obtain ⟨y, hy, hbelow⟩ := exists_of_isFast hfast
  unfold RanksBefore at hab
  cases hx : a.2.latency with
  | none => simp [hx, hy] at hab
  | some x =>
    simp only [hx, hy] at hab
    have hle : Number.rank x ≤ Number.rank y := hab.elim le_of_lt fun htie => htie.1 ▸ le_rfl
    -- Only among finite latencies does the lower place mean the lower number.
    have hxy : x ≤ y := Number.le_of_rank_le (hfinite ha hx) (hfinite hb hy) hle
    rw [isFast, hx]
    exact decide_eq_true (Number.lt_of_float_le_of_lt hxy hbelow)

/-- The fast peers are the front of the ranking. -/
theorem takeWhile_isFast (hchecked : r.SamplesChecked) (preferredLatencyMs : Float) :
    (ranked r).takeWhile (isFast preferredLatencyMs) = (ranked r).filter (isFast preferredLatencyMs) := by
  apply takeWhile_eq_filter
  refine (pairwise_ranked r).imp_of_mem fun ha hb hab => ?_
  exact isFast_of_ranksBefore hchecked (mem_ranked.mp ha) (mem_ranked.mp hb) hab

/-! ## Selecting and pruning -/

section Decision

variable {preferredLatencyMs : Float} {maxPeers maxOutbound : Nat}

theorem decision_of_isSparse (h : isSparse r.activeCount maxPeers = true) :
    decision preferredLatencyMs maxPeers maxOutbound r = { skipped := true } := if_pos h

theorem decision_of_not_isSparse (h : ¬isSparse r.activeCount maxPeers = true) :
    decision preferredLatencyMs maxPeers maxOutbound r =
      { preferred := (((ranked r).takeWhile (isFast preferredLatencyMs)).take maxOutbound).map Prod.fst
        evicted := if isCrowded r.activeCount maxPeers then ((ranked r).drop maxOutbound).map Prod.fst else [] } :=
  if_neg h

/-- Either nobody is evicted, or everyone behind the slots. -/
theorem evicted_eq_nil_or_drop (preferredLatencyMs : Float) (maxPeers maxOutbound : Nat) (r : Registry) :
    (decision preferredLatencyMs maxPeers maxOutbound r).evicted = [] ∨
      (decision preferredLatencyMs maxPeers maxOutbound r).evicted = ((ranked r).drop maxOutbound).map Prod.fst := by
  by_cases hsparse : isSparse r.activeCount maxPeers = true
  · left
    rw [decision_of_isSparse hsparse]
  · rw [decision_of_not_isSparse hsparse]
    exact (ite_eq_or_eq ..).symm

/-- Whoever stays ranks before whoever is evicted. -/
theorem ranksBefore_of_evicted {a b : String × Peer} (ha : a ∈ r.active) (hb : b ∈ r.active)
    (hstays : a.1 ∉ (decision preferredLatencyMs maxPeers maxOutbound r).evicted)
    (hevicted : b.1 ∈ (decision preferredLatencyMs maxPeers maxOutbound r).evicted) : RanksBefore a b := by
  rcases evicted_eq_nil_or_drop preferredLatencyMs maxPeers maxOutbound r with hnobody | hbehind
  · rw [hnobody] at hevicted
    cases hevicted
  · rw [hbehind] at hstays hevicted
    have hsplit := List.take_append_drop maxOutbound (ranked r)
    -- One of them has a slot, and the other is behind the slots.
    have haslot : a ∈ (ranked r).take maxOutbound := by
      have hrank : a ∈ (ranked r).take maxOutbound ++ (ranked r).drop maxOutbound := by
        rw [hsplit]
        exact mem_ranked.mpr ha
      exact (List.mem_append.mp hrank).resolve_right fun hdrop => hstays (List.mem_map_of_mem hdrop)
    have hbdrop : b ∈ (ranked r).drop maxOutbound := by
      obtain ⟨b', hmem, hname⟩ := List.mem_map.mp hevicted
      have hb' : b' ∈ r.active := mem_ranked.mp (List.mem_of_mem_drop hmem)
      -- The identity tells the record, so whoever has the name of the evicted peer is this peer.
      have hrecord := get?_of_mem_active hb'
      rw [hname, get?_of_mem_active hb] at hrecord
      rwa [Prod.ext hname (Option.some.inj hrecord).symm] at hmem
    have hpairwise := pairwise_ranked r
    rw [← hsplit, List.pairwise_append] at hpairwise
    exact hpairwise.2.2 a haslot b hbdrop

theorem get?_pruned (id : String) : (pruned preferredLatencyMs maxPeers maxOutbound r).get? id =
    (r.get? id).map fun p =>
      if id ∈ (decision preferredLatencyMs maxPeers maxOutbound r).evicted then { p with active := false } else p := by
  rw [pruned, Registry.evictAll, Registry.get?_map]

/-- Pruning disconnects the evicted peers and nobody else. -/
theorem isActive_pruned_iff {id : String} :
    (pruned preferredLatencyMs maxPeers maxOutbound r).isActive id = true ↔
      r.isActive id = true ∧ id ∉ (decision preferredLatencyMs maxPeers maxOutbound r).evicted := by
  simp only [Registry.isActive, get?_pruned]
  cases r.get? id with
  | none => simp
  | some p =>
    by_cases h : id ∈ (decision preferredLatencyMs maxPeers maxOutbound r).evicted
    · simp [h]
    · simp [h]

end Decision

/-- What a ranking of a registry decides, and what it leaves of the registry. -/
structure PrunesByRank (preferredLatencyMs : Float) (maxPeers maxOutbound : Nat) (r : Registry) (d : PoolDecision)
    (after : Registry) : Prop where
  /-- The order of the peers is strict. -/
  irrefl : ∀ e, ¬RanksBefore e e
  trans : ∀ a b c, RanksBefore a b → RanksBefore b c → RanksBefore a c
  /-- It is total on the connected peers. -/
  total : ∀ a ∈ r.active, ∀ b ∈ r.active, a ≠ b → RanksBefore a b ∨ RanksBefore b a
  /-- The ranking has the connected peers in this order. -/
  perm : (ranked r).Perm r.active
  sorted : (ranked r).Pairwise RanksBefore
  /-- Below the first mark nothing is decided, and nothing changes. -/
  sparse : Float.ofNat r.activeCount < Float.ofNat maxPeers * rankingFill →
    d = { skipped := true, preferred := [], evicted := [] } ∧ after = r
  ranks : ¬Float.ofNat r.activeCount < Float.ofNat maxPeers * rankingFill → d.skipped = false
  /-- The preferred peers are the first ones of all that are fast, in the order of the ranking. -/
  preferred : ¬Float.ofNat r.activeCount < Float.ofNat maxPeers * rankingFill →
    d.preferred = (((ranked r).filter (isFast preferredLatencyMs)).take maxOutbound).map Prod.fst
  /-- Above the second mark all peers behind the slots are evicted, and otherwise nobody. -/
  evicted : ¬Float.ofNat r.activeCount < Float.ofNat maxPeers * rankingFill →
    d.evicted = if Float.ofNat maxPeers * evictionFill < Float.ofNat r.activeCount
      then ((ranked r).drop maxOutbound).map Prod.fst else []
  /-- The connected peers are those from before who were not evicted. -/
  connected : ∀ id, after.isActive id = true ↔ r.isActive id = true ∧ id ∉ d.evicted
  /-- Above the second mark there are no more of them than slots. -/
  bounded : ¬Float.ofNat r.activeCount < Float.ofNat maxPeers * rankingFill →
    Float.ofNat maxPeers * evictionFill < Float.ofNat r.activeCount → after.activeCount ≤ maxOutbound
  /-- Whoever stays ranks before whoever is evicted. -/
  front : ∀ a ∈ r.active, ∀ b ∈ r.active, a.1 ∉ d.evicted → b.1 ∈ d.evicted → RanksBefore a b
  /-- Nobody is preferred and evicted at once. -/
  apart : ∀ id ∈ d.preferred, id ∉ d.evicted
  /-- Whoever is preferred stays connected. -/
  stays : ∀ id ∈ d.preferred, after.isActive id = true
  /-- No record is lost or gained, and all that changes is who is connected. -/
  records : ∀ id, after.get? id = (r.get? id).map fun p => if id ∈ d.evicted then { p with active := false } else p
  succeeded : after.connectionsSucceeded = r.connectionsSucceeded
  failed : after.connectionsFailed = r.connectionsFailed

/-- **A ranking selects and prunes by the order of the peers**, whatever the preferred latency and the limits are. -/
theorem prunes_by_rank (r : Registry) (hchecked : r.SamplesChecked) (preferredLatencyMs : Float)
    (maxPeers maxOutbound : Nat) : PrunesByRank preferredLatencyMs maxPeers maxOutbound r
      (decision preferredLatencyMs maxPeers maxOutbound r) (pruned preferredLatencyMs maxPeers maxOutbound r) := by
  have hmark : isSparse r.activeCount maxPeers = true ↔
      Float.ofNat r.activeCount < Float.ofNat maxPeers * rankingFill := decide_eq_true_iff
  have hcrowded : isCrowded r.activeCount maxPeers = true ↔
      Float.ofNat maxPeers * evictionFill < Float.ofNat r.activeCount := decide_eq_true_iff
  constructor
  case irrefl => exact RanksBefore.irrefl
  case trans => exact fun a b c => RanksBefore.trans
  case total => exact fun a ha b hb => RanksBefore.total ha hb
  case perm => exact perm_ranked r
  case sorted => exact pairwise_ranked r
  case sparse =>
    intro h
    have hdecision : decision preferredLatencyMs maxPeers maxOutbound r = { skipped := true } :=
      decision_of_isSparse (hmark.mpr h)
    refine ⟨hdecision, ?_⟩
    rw [pruned, hdecision]
    exact evictAll_nil r
  case ranks =>
    intro h
    rw [decision_of_not_isSparse (mt hmark.mp h)]
  case preferred =>
    intro h
    rw [decision_of_not_isSparse (mt hmark.mp h), takeWhile_isFast hchecked]
  case evicted =>
    intro h
    simp only [decision_of_not_isSparse (mt hmark.mp h), hcrowded]
  case connected => exact fun id => isActive_pruned_iff
  case bounded =>
    intro h habove
    -- The ranking of those that are left is the part of it that has slots.
    rw [pruned, decision_of_not_isSparse (mt hmark.mp h), if_pos (hcrowded.mpr habove), ← length_ranked,
      ranked_evictAll]
    exact List.length_take_le ..
  case front => exact fun a ha b hb => ranksBefore_of_evicted ha hb
  case apart => exact fun id hid => notMem_evicted_of_mem_preferred hid
  case stays =>
    intro id hid
    obtain ⟨p, -, hp, hactive, -⟩ := exists_of_mem_preferred hid
    have hbefore : r.isActive id = true := by
      rw [Registry.isActive, hp]
      exact hactive
    exact isActive_pruned_iff.mpr ⟨hbefore, notMem_evicted_of_mem_preferred hid⟩
  case records => exact fun id => get?_pruned id
  case succeeded => rfl
  case failed => rfl

end Pool

/-! ## Latencies on record -/

/-- What is noted after a check passed the check. -/
theorem checked_of_isOk {α : Type} {check : Except Fault Unit} {note : Unit → Except Fault α}
    (h : (check >>= note).isOk = true) : check = .ok () := by
  cases check with
  | ok => rfl
  | error fault => cases h

/-- A request leaves the latency of a peer, or notes one that passed the check. -/
theorem State.latency_servedPeer (s : State) (id : String) (r : Request) (p : Peer) :
    (s.servedPeer id r p).latency = p.latency ∨
      ∃ ms, (s.servedPeer id r p).latency = some ms ∧ checkSample id "latency_ms" ms = .ok () := by
  cases r <;> dsimp only [servedPeer] <;> try split
  case latency.isTrue name ms h =>
    obtain ⟨rfl, hok⟩ := h
    exact .inr ⟨ms, rfl, checked_of_isOk hok⟩
  case link.isTrue name ms mbps h =>
    obtain ⟨rfl, hok⟩ := h
    exact .inr ⟨ms, rfl, checked_of_isOk hok⟩
  all_goals exact .inl rfl

namespace Warden

variable (w : Warden) {s : Session} {op : Operation} {id : String} {p p' : Peer}

/-- An operation leaves the latency of a known peer, or notes one that passed the check. -/
theorem latency_step (hp : s.state.registry.get? id = some p)
    (hp' : (w.step s op).state.registry.get? id = some p') :
    p'.latency = p.latency ∨ ∃ ms, p'.latency = some ms ∧ checkSample id "latency_ms" ms = .ok () := by
  cases op with
  | request r =>
    rw [get?_step_request hp] at hp'
    obtain rfl := Option.some.inj hp'
    exact s.state.latency_servedPeer id r p
  | securityCycle now =>
    left
    have hcycle : (w.securityCycle s now).1.state.registry.get? id = some p' := hp'
    rw [securityCycle_state] at hcycle
    obtain ⟨trust, ban, rfl⟩ := State.exists_of_get?_securityCycle _ _ _ _ _ hp hcycle
    obtain ⟨trust', clusterFlags, hdetected⟩ := s.state.detectedPeer_eq w.config w.classifier s.asked now id p
    rw [hdetected]
  | healthCycle now =>
    left
    rw [get?_step_healthCycle hp] at hp'
    obtain rfl := Option.some.inj hp'
    split <;> rfl

theorem samplesChecked_step (h : s.state.registry.SamplesChecked) (op : Operation) :
    (w.step s op).state.registry.SamplesChecked := by
  intro id p' ms hp' hms
  cases hp : s.state.registry.get? id with
  | none =>
    -- Whoever becomes known was not measured yet.
    have hnew := w.get?_step_of_unknown hp op
    rw [hp'] at hnew
    obtain ⟨⟨address, now⟩, -, rfl⟩ := Option.map_eq_some_iff.mp hnew.symm
    cases hms
  | some p =>
    rcases w.latency_step hp hp' with hsame | ⟨ms', hnoted, hok⟩
    · exact h id p ms hp (hsame ▸ hms)
    · rw [hms] at hnoted
      exact Option.some.inj hnoted ▸ hok

/-- After every run the latencies on record passed the check. -/
theorem samplesChecked_run (ops : List Operation) : (w.run w.start ops).state.registry.SamplesChecked :=
  run_preserves (·.state.registry.SamplesChecked) (fun _ hs op _ => w.samplesChecked_step hs op) nofun

/-- A crowd of four connected peers, the last of which was not measured, with room for two outbound peers. -/
theorem prunes_by_rank_crowd :
    let r := (cramped.run cramped.start (crowd ++ [.request (.register "s" "d" 0)])).state.registry
    r.SamplesChecked ∧ (Pool.decision 15.0 4 2 r).preferred = ["p"] ∧ (Pool.decision 15.0 4 2 r).evicted = ["r", "s"] ∧
      Pool.PrunesByRank 15.0 4 2 r (Pool.decision 15.0 4 2 r) (Pool.pruned 15.0 4 2 r) := by
  intro r
  have hchecked : r.SamplesChecked := cramped.samplesChecked_run _
  have hranked : Pool.ranked r = r.active := Pool.ranked_of_pairwise (by decide +kernel)
  refine ⟨hchecked, ?_, ?_, Pool.prunes_by_rank r hchecked 15.0 4 2⟩
  · simp only [Pool.decision, hranked]
    decide +kernel
  · simp only [Pool.decision, hranked]
    decide +kernel

end Warden

end PeerWarden
