import PeerWarden.Config.Rules
import PeerWarden.Proofs.Number.UnitInterval
import PeerWarden.Proofs.Run.Contacts

/-!
# Pruning the Pool

A health cycle that succeeds leaves no more connected peers than the limit, and a second one right after it finds
nothing left to do.

The two marks at which a set is ranked and pruned are products of doubles, so they are rounded. Both stay on the right
side of the limit: a set below the first mark is smaller than the limit, and a set that is not above the second is not
larger. What is evicted are the peers behind the outbound slots. The ranking of those that remain is therefore a first
part of the ranking before, with the same preferred peers, and nobody of them is behind the slots.

## Main definitions

- `Pool.pruned`: what pruning leaves of a registry
- `Warden.Settled`: a session in which the pool needs no pruning

## Main statements

- `Pool.lt_of_isSparse`, `Pool.le_of_not_isCrowded`: the marks and the limit
- `Pool.ranksLE_trans`, `Pool.ranksLE_total`, `Pool.eq_of_ranksLE`: the ranking is an order
- `Pool.ranked_evictAll`: the ranking once the peers behind the slots are evicted
- `Pool.activeCount_pruned`, `Pool.evicted_pruned`, `Pool.preferred_pruned`: what pruning leaves needs no pruning
- `pruning_settles`: after a health cycle that succeeds, the session is settled
-/

open Float.Model (UnpackedFloat)

namespace PeerWarden

/-! ## The marks -/

namespace Pool

open Number

/-- The double for nine tenths. -/
theorem value_evictionFill : value evictionFill = 8106479329266893 * 2 ^ (-53 : ℤ) := by
  have hunpack : evictionFill.toModel.unpack = UnpackedFloat.finite .positive 8106479329266893 (-53) (by decide) := rfl
  rw [value, hunpack, unpackedValue_finite, signFactor_positive, one_mul]
  rfl

section Marks

variable {count maxPeers : Nat} (hword : maxPeers < 2 ^ 64)

include hword

/-- A set that is too small to be ranked is smaller than the limit. -/
theorem lt_of_isSparse (h : isSparse count maxPeers = true) : count < maxPeers := by
  by_contra hnot
  have hfill : InUnit rankingFill := by decide
  have hfinite := isFinite_ofNat hword
  have hmaxPeers := isNearest_ofNat maxPeers
  have hnonneg : 0 ≤ value (Float.ofNat maxPeers) := by
    rw [hmaxPeers.value_eq, ← rounded_zero]
    exact rounded_mono maxPeers.cast_nonneg
  -- A share of the limit is not above it, and neither conversion nor product turns that round.
  have hshare : Float.ofNat maxPeers * rankingFill ≤ Float.ofNat maxPeers :=
    (isNearest_mul hfinite hfill.isFinite).le_of_le_value hmaxPeers.isNumber
      (mul_le_of_le_one_right hnonneg hfill.value_le_one)
  have hcount : Float.ofNat maxPeers ≤ Float.ofNat count :=
    hmaxPeers.le (isNearest_ofNat count) (by exact_mod_cast not_lt.mp hnot)
  exact not_lt_of_float_le (float_le_trans hshare hcount) (of_decide_eq_true h)

/-- A set from which nobody is evicted is within the limit. -/
theorem le_of_not_isCrowded (hpos : 0 < maxPeers) (h : isCrowded count maxPeers = false) : count ≤ maxPeers := by
  by_contra hnot
  have hmaxPeers := isNearest_ofNat maxPeers
  have hcount := isNearest_ofNat count
  have hmark := isNearest_mul (isFinite_ofNat hword) (y := evictionFill) (by decide)
  have hone : 1 ≤ value (Float.ofNat maxPeers) := by
    rw [hmaxPeers.value_eq, ← rounded_one]
    exact rounded_mono (by exact_mod_cast hpos)
  -- Nine tenths leave so much room that rounding cannot reach the limit again.
  have hbelow : value (Float.ofNat maxPeers * evictionFill) < value (Float.ofNat count) := by
    have hfill : (1 / 2 : ℚ) ≤ value evictionFill ∧ value evictionFill ≤ 15 / 16 := by
      rw [value_evictionFill]
      norm_num
    generalize value evictionFill = fill at *
    generalize hlimit : value (Float.ofNat maxPeers) = limit at *
    have hhalf : 1 / 2 ≤ limit * fill := by nlinarith
    calc value (Float.ofNat maxPeers * evictionFill) = rounded (limit * fill) := hmark.value_eq
      _ ≤ nearest (limit * fill) := rounded_le_nearest (by linarith)
      _ ≤ limit * fill * (1 + 1 / 2 ^ 52) := nearest_le_mul (by linarith) (lt_ulp_of_half_le hhalf)
      _ < limit := by nlinarith
      _ = rounded maxPeers := hlimit ▸ hmaxPeers.value_eq
      _ ≤ rounded count := rounded_mono (by exact_mod_cast (not_le.mp hnot).le)
      _ = value (Float.ofNat count) := hcount.value_eq.symm
  rw [← lt_iff_value_lt hmark.isNumber hcount.isNumber] at hbelow
  exact of_decide_eq_false h hbelow

end Marks

/-! ## The order of the ranking -/

theorem latencyLE_total (x y : Option Float) : latencyLE x y = true ∨ latencyLE y x = true := by
  cases x <;> cases y <;> simp [latencyLE, le_total]

theorem latencyLE_trans {x y z : Option Float} (hxy : latencyLE x y = true) (hyz : latencyLE y z = true) :
    latencyLE x z = true := by
  cases x <;> cases y <;> cases z <;> simp_all [latencyLE]
  exact hxy.trans hyz

/-- The identity decides where latencies tie. -/
theorem ranksLE_iff {a b : String × Peer} : ranksLE a b = true ↔
    latencyLE a.2.latency b.2.latency = true ∧ (latencyLE b.2.latency a.2.latency = true → a.1 ≤ b.1) := by
  unfold ranksLE
  cases latencyLE a.2.latency b.2.latency <;> cases latencyLE b.2.latency a.2.latency <;> simp

theorem ranksLE_trans (a b c : String × Peer) (hab : ranksLE a b = true) (hbc : ranksLE b c = true) :
    ranksLE a c = true := by
  rw [ranksLE_iff] at *
  refine ⟨latencyLE_trans hab.1 hbc.1, fun hca => ?_⟩
  -- If the ends of the chain tie, then all three do.
  have hba : a.1 ≤ b.1 := hab.2 (latencyLE_trans hbc.1 hca)
  have hcb : b.1 ≤ c.1 := hbc.2 (latencyLE_trans hca hab.1)
  exact hba.trans hcb

theorem ranksLE_total (a b : String × Peer) : (ranksLE a b || ranksLE b a) = true := by
  rw [Bool.or_eq_true, ranksLE_iff, ranksLE_iff]
  cases hab : latencyLE a.2.latency b.2.latency with
  | false => simp [(latencyLE_total a.2.latency b.2.latency).resolve_left (hab ▸ Bool.false_ne_true)]
  | true =>
    cases latencyLE b.2.latency a.2.latency with
    | false => simp
    | true => simpa using le_total a.1 b.1

variable {r : Registry}

theorem get?_of_mem_active {e : String × Peer} (he : e ∈ r.active) : r.get? e.1 = some e.2 :=
  Directory.mem_entries_iff.mp (List.mem_filter.mp he).1

/-- Two connected peers of which each ranks before or with the other are the same. -/
theorem eq_of_ranksLE {a b : String × Peer} (ha : a ∈ r.active) (hb : b ∈ r.active) (hab : ranksLE a b = true)
    (hba : ranksLE b a = true) : a = b := by
  rw [ranksLE_iff] at hab hba
  have hid : a.1 = b.1 := le_antisymm (hab.2 hba.1) (hba.2 hab.1)
  have ha' := get?_of_mem_active ha
  rw [hid, get?_of_mem_active hb] at ha'
  exact Prod.ext hid (Option.some.inj ha').symm

/-- A part of the connected peers is ranked as it is within the whole. -/
theorem mergeSort_filter_active (p : String × Peer → Bool) :
    (r.active.filter p).mergeSort ranksLE = (ranked r).filter p := by
  have hsorted (l : List (String × Peer)) : (l.mergeSort ranksLE).Pairwise fun a b => ranksLE a b = true :=
    List.pairwise_mergeSort ranksLE_trans ranksLE_total l
  have hperm : ((r.active.filter p).mergeSort ranksLE).Perm ((ranked r).filter p) :=
    (List.mergeSort_perm ..).trans ((List.mergeSort_perm ..).symm.filter p)
  -- Both lists are in the order of the ranking, and have the same members.
  refine List.Perm.eq_of_pairwise (fun a b ha hb hab hba => ?_) (hsorted _) ((hsorted _).filter p) hperm
  have ha' : a ∈ r.active := List.mem_of_mem_filter (List.mem_mergeSort.mp ha)
  have hb' : b ∈ r.active := List.mem_mergeSort.mp (List.mem_of_mem_filter hb)
  exact eq_of_ranksLE ha' hb' hab hba

/-! ## Evicting peers -/

theorem active_evictAll (ids : List String) : (r.evictAll ids).active = r.active.filter fun e => e.1 ∉ ids := by
  show (r.peers.entries.map fun e => (e.1, if e.1 ∈ ids then { e.2 with active := false } else e.2)).filter
    (·.2.active) = (r.peers.entries.filter (·.2.active)).filter fun e => e.1 ∉ ids
  rw [List.filter_map, List.filter_filter]
  have hkept : ((fun e : String × Peer => e.2.active) ∘ fun e : String × Peer =>
      (e.1, if e.1 ∈ ids then { e.2 with active := false } else e.2)) = fun e => decide (e.1 ∉ ids) && e.2.active := by
    funext e
    by_cases h : e.1 ∈ ids <;> simp [h]
  rw [hkept]
  -- Those that are left have kept their records.
  refine (List.map_congr_left fun e he => ?_).trans (List.map_id _)
  have hstays : e.1 ∉ ids := by
    have hboth := (List.mem_filter.mp he).2
    rw [Bool.and_eq_true, decide_eq_true_eq] at hboth
    exact hboth.1
  rw [if_neg hstays]
  rfl

theorem filter_notMem_of_nodup (front back : List (String × Peer)) (h : ((front ++ back).map Prod.fst).Nodup) :
    ((front ++ back).filter fun e => e.1 ∉ back.map Prod.fst) = front := by
  rw [List.map_append, List.nodup_append] at h
  have hfront : ∀ e ∈ front, e.1 ∉ back.map Prod.fst := fun e he hback =>
    h.2.2 e.1 (List.mem_map_of_mem he) e.1 hback rfl
  have hback : ∀ e ∈ back, e.1 ∈ back.map Prod.fst := fun e he => List.mem_map_of_mem he
  rw [List.filter_append, List.filter_eq_self.mpr fun e he => decide_eq_true (hfront e he),
    List.filter_eq_nil_iff.mpr fun e he => by simpa using hback e he, List.append_nil]

/-- Once the peers behind the slots are evicted, the ranking ends with the last slot. -/
theorem ranked_evictAll (n : Nat) : ranked (r.evictAll (((ranked r).drop n).map Prod.fst)) = (ranked r).take n := by
  have hsplit := List.take_append_drop n (ranked r)
  have hfront := filter_notMem_of_nodup ((ranked r).take n) ((ranked r).drop n) (hsplit.symm ▸ nodup_ranked)
  rw [hsplit] at hfront
  rw [ranked, active_evictAll, mergeSort_filter_active, hfront]

theorem length_ranked : (ranked r).length = r.activeCount := List.length_mergeSort _

/-- What a ranking leaves of a registry, once the peers are evicted that it gives up. -/
def pruned (preferredLatencyMs : Float) (maxPeers maxOutbound : Nat) (r : Registry) : Registry :=
  r.evictAll (decision preferredLatencyMs maxPeers maxOutbound r).evicted

theorem evictAll_nil (r : Registry) : r.evictAll [] = r := by
  refine Registry.ext_get? (fun id => ?_) rfl rfl
  rw [Registry.evictAll, Registry.get?_map]
  simp

section Decision

variable {preferredLatencyMs : Float} {maxPeers maxOutbound : Nat}

theorem preferred_of_ranked (h : (decision preferredLatencyMs maxPeers maxOutbound r).skipped = false) :
    (decision preferredLatencyMs maxPeers maxOutbound r).preferred =
      (((ranked r).takeWhile (isFast preferredLatencyMs)).take maxOutbound).map Prod.fst := by
  simp only [decision] at h ⊢
  split at h
  · cases h
  · next hsparse => rw [if_neg hsparse]

variable (hword : maxPeers < 2 ^ 64) (hpos : 0 < maxPeers)

include hword hpos

/-- Either nobody is evicted from a set within the limit, or everyone behind the slots. -/
theorem evicted_cases (preferredLatencyMs : Float) (maxOutbound : Nat) (r : Registry) :
    ((decision preferredLatencyMs maxPeers maxOutbound r).evicted = [] ∧ r.activeCount ≤ maxPeers) ∨
      (decision preferredLatencyMs maxPeers maxOutbound r).skipped = false ∧
        (decision preferredLatencyMs maxPeers maxOutbound r).evicted = ((ranked r).drop maxOutbound).map Prod.fst := by
  simp only [decision]
  split
  · next hsparse => exact .inl ⟨rfl, (lt_of_isSparse hword hsparse).le⟩
  · split
    · exact .inr ⟨rfl, rfl⟩
    · next hcrowded => exact .inl ⟨rfl, le_of_not_isCrowded hword hpos (Bool.not_eq_true _ ▸ hcrowded)⟩

/-- Pruning leaves no more than the limit. -/
theorem activeCount_pruned (houtbound : maxOutbound ≤ maxPeers) :
    (pruned preferredLatencyMs maxPeers maxOutbound r).activeCount ≤ maxPeers := by
  unfold pruned
  rcases evicted_cases hword hpos preferredLatencyMs maxOutbound r with ⟨hnobody, hwithin⟩ | ⟨-, hevicted⟩
  · rw [hnobody, evictAll_nil]
    exact hwithin
  · rw [hevicted, ← length_ranked, ranked_evictAll]
    exact (List.length_take_le ..).trans houtbound

/-- Nobody is evicted from what pruning leaves. -/
theorem evicted_pruned : (decision preferredLatencyMs maxPeers maxOutbound
    (pruned preferredLatencyMs maxPeers maxOutbound r)).evicted = [] := by
  unfold pruned
  rcases evicted_cases hword hpos preferredLatencyMs maxOutbound r with ⟨hnobody, -⟩ | ⟨-, hevicted⟩
  · rw [hnobody, evictAll_nil, hnobody]
  · rw [hevicted]
    rcases evicted_cases hword hpos preferredLatencyMs maxOutbound
      (r.evictAll (((ranked r).drop maxOutbound).map Prod.fst)) with ⟨hnobody, -⟩ | ⟨-, hagain⟩
    · exact hnobody
    · -- The ranking has no part behind the slots any more.
      rw [hagain, ranked_evictAll, List.drop_eq_nil_of_le (List.length_take_le ..)]
      rfl

/-- If what pruning leaves is ranked, then so was what it was given, and the same peers were preferred. -/
theorem preferred_pruned (h : (decision preferredLatencyMs maxPeers maxOutbound
    (pruned preferredLatencyMs maxPeers maxOutbound r)).skipped = false) :
    (decision preferredLatencyMs maxPeers maxOutbound r).skipped = false ∧
      (decision preferredLatencyMs maxPeers maxOutbound
        (pruned preferredLatencyMs maxPeers maxOutbound r)).preferred =
        (decision preferredLatencyMs maxPeers maxOutbound r).preferred := by
  unfold pruned at *
  rcases evicted_cases hword hpos preferredLatencyMs maxOutbound r with ⟨hnobody, -⟩ | ⟨hranked, hevicted⟩
  · rw [hnobody, evictAll_nil] at h ⊢
    exact ⟨h, rfl⟩
  · refine ⟨hranked, ?_⟩
    rw [preferred_of_ranked h, preferred_of_ranked hranked, hevicted, ranked_evictAll]
    -- Only the slots count, and they are the same.
    rw [← List.take_takeWhile, List.take_take, min_self]

end Decision

end Pool

/-! ## Two cycles in a row -/

namespace Warden

variable (w : Warden)

/-- A session in which the pool needs no pruning. -/
structure Settled (s : Session) : Prop where
  /-- No more peers are connected than the limit allows. -/
  bounded : s.state.registry.activeCount ≤ w.config.pool.maxPeers
  /-- A health cycle that succeeds evicts nobody. -/
  nobody : ∀ now report, (w.healthCycle s now).2 = .ok report → report.pool.evicted = []
  /-- Whether it succeeds or not, the connection layer hears nothing of it. -/
  silent : ∀ now, (w.healthCycle s now).1.disconnects = s.disconnects
  /-- Every record stays as it is. -/
  records : ∀ now, (w.healthCycle s now).1.state.registry = s.state.registry
  /-- So do the outbound peers. -/
  outbound : ∀ now, (w.healthCycle s now).1.state.outbound = s.state.outbound

variable {w} {s : Session}

/-- A session is settled if the next ranking evicts nobody and prefers the outbound peers, if it takes place. -/
theorem settled_of_decision {pool : PoolDecision}
    (hpool : Pool.decision w.config.pool.preferredLatencyMs w.config.pool.maxPeers w.config.pool.maxOutboundPeers
      s.state.registry = pool)
    (hbounded : s.state.registry.activeCount ≤ w.config.pool.maxPeers) (hnobody : pool.evicted = [])
    (hpreferred : pool.skipped = false → pool.preferred = s.state.outbound) : w.Settled s := by
  have hcycle (usage : HostUsage) (now : Instant) : (s.state.healthCycle w.config usage now).2.pool = pool := hpool
  have hsame (now : Instant) : (w.healthCycle s now).1.disconnects = s.disconnects ∧
      (w.healthCycle s now).1.state.registry = s.state.registry ∧
      (w.healthCycle s now).1.state.outbound = s.state.outbound := by
    cases hsample : (w.sample s).2 with
    | error fault =>
      rw [healthCycle_of_error hsample]
      exact ⟨rfl, rfl, rfl⟩
    | ok usage =>
      rw [healthCycle_of_ok hsample]
      show _ ∧ s.state.registry.evictAll (s.state.healthCycle w.config usage now).2.pool.evicted = _ ∧
        (if (s.state.healthCycle w.config usage now).2.pool.skipped then s.state.outbound
          else (s.state.healthCycle w.config usage now).2.pool.preferred) = _
      rw [hcycle, hnobody]
      refine ⟨List.append_nil _, Pool.evictAll_nil _, ?_⟩
      -- A ranking replaces the outbound peers, but by the same ones.
      cases hskipped : pool.skipped with
      | true => rfl
      | false => exact hpreferred hskipped
  constructor
  case bounded => exact hbounded
  case nobody =>
    intro now report h
    obtain ⟨usage, -, rfl, -⟩ := healthCycle_eq_ok h
    rw [hcycle]
    exact hnobody
  case silent => exact fun now => (hsame now).1
  case records => exact fun now => (hsame now).2.1
  case outbound => exact fun now => (hsame now).2.2

/-- **Pruning settles the pool**: after a health cycle that succeeds, the set is within its limit, and another health
    cycle right after it finds nothing to prune. The limit has to fit a machine word. -/
theorem pruning_settles (w : Warden) (hvalid : w.config.isValid = true) (hword : w.config.pool.maxPeers < 2 ^ 64)
    (ops : List Operation) (now : Instant) (report : HealthReport)
    (h : (w.healthCycle (w.run w.start ops) now).2 = .ok report) :
    w.Settled (w.run w.start (ops ++ [.healthCycle now])) := by
  rw [run_append]
  show w.Settled (w.healthCycle (w.run w.start ops) now).1
  generalize w.run w.start ops = s at *
  obtain ⟨usage, -, -, hstate⟩ := healthCycle_eq_ok h
  have hpos : 0 < w.config.pool.maxPeers := by
    simpa [Rule.holds] using Config.holds_of_isValid hvalid .someMaxPeers
  have hwithin : w.config.pool.maxOutboundPeers ≤ w.config.pool.maxPeers := by
    simpa [Rule.holds] using Config.holds_of_isValid hvalid .outboundWithinPeers
  have hregistry : (w.healthCycle s now).1.state.registry = Pool.pruned w.config.pool.preferredLatencyMs
      w.config.pool.maxPeers w.config.pool.maxOutboundPeers s.state.registry := by
    rw [hstate]
    rfl
  -- The second ranking is one of what the first has left.
  apply settled_of_decision (congrArg _ hregistry)
  · rw [hregistry]
    exact Pool.activeCount_pruned hword hpos hwithin
  · exact Pool.evicted_pruned hword hpos
  · intro hranked
    obtain ⟨hbefore, hsame⟩ := Pool.preferred_pruned hword hpos hranked
    rw [hsame, hstate]
    show _ = if _ then _ else _
    exact (if_neg (hbefore ▸ Bool.false_ne_true)).symm

/-- Three connected peers, one after the other slower. -/
def crowd : List Operation :=
  [.request (.register "p" "a" 0), .request (.latency "p" 10.0), .request (.register "q" "b" 0),
    .request (.latency "q" 20.0), .request (.register "r" "c" 0), .request (.latency "r" 30.0)]

/-- A warden that has room for two of them, and for one as an outbound peer. -/
def cramped : Warden := standalone { pool := { maxPeers := 2, maxOutboundPeers := 1 } }

/-- The two slower peers are evicted, and that settles the pool. -/
theorem pruning_settles_crowd : ∃ report, (cramped.healthCycle (cramped.run cramped.start crowd) 1).2 = .ok report ∧
    report.pool.evicted = ["q", "r"] ∧ cramped.Settled (cramped.run cramped.start (crowd ++ [.healthCycle 1])) := by
  have hranked : Pool.ranked (cramped.run cramped.start crowd).state.registry =
      (cramped.run cramped.start crowd).state.registry.active :=
    Pool.ranked_of_pairwise (by decide +kernel)
  have hsample : (cramped.sample (cramped.run cramped.start crowd)).2 = .ok {} := rfl
  have hcycle := congrArg Prod.snd (healthCycle_of_ok hsample 1)
  refine ⟨_, hcycle, ?_, pruning_settles cramped (by decide +kernel) (by decide) crowd 1 _ hcycle⟩
  simp only [State.healthCycle, Pool.decision, hranked]
  decide +kernel

end Warden

end PeerWarden
