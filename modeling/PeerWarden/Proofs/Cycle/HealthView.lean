import PeerWarden.Proofs.Peer.Standing

/-!
# What a Health Cycle Looks At

Of a record, a health cycle looks at the link alone: whether the peer is connected, and what was measured. Trust,
counters and blocks may be anything. So a change of the records that keeps the links can be made before a health
cycle or after it, and the report is the same.

## Main definitions

- `Peer.KeepsLinks`: a change of the records that keeps the links

## Main statements

- `Pool.decision_map`, `Registry.evictAll_map`: the ranking, and what it does to the registry
- `State.healthCycle_of_map`: a health cycle before and after such a change
- `healthCycle_of_error`, `healthCycle_of_ok`, `healthCycle_eq_ok`: a health cycle of a session
-/

namespace PeerWarden

/-- A change of the records that keeps the links of all peers, and makes the rest what it would make it if all peers
    were connected. -/
structure Peer.KeepsLinks (f : String → Peer → Peer) : Prop where
  active : ∀ id p, (f id p).active = p.active
  latency : ∀ id p, (f id p).latency = p.latency
  throughput : ∀ id p, (f id p).throughput = p.throughput
  standing : ∀ id p, (f id p).standing = f id p.standing

variable {f : String → Peer → Peer} (hf : Peer.KeepsLinks f)

include hf

/-- Taking a peer out of the connected set makes no difference to such a change. -/
theorem Peer.KeepsLinks.evicted (id : String) (p : Peer) :
    f id { p with active := false } = { f id p with active := false } := by
  have hstanding : (f id { p with active := false }).standing = (f id p).standing := by
    rw [hf.standing, hf.standing]
    rfl
  have hactive : (f id { p with active := false }).active = false := hf.active ..
  -- A record is its standing together with the one field that the standing leaves open.
  have hrecord (q : Peer) : q = { q.standing with active := q.active } := rfl
  rw [hrecord (f id { p with active := false }), hstanding, hactive]
  rfl

/-! ## The registry -/

namespace Registry

variable (r : Registry)

theorem active_map : (r.map f).active = r.active.map fun e => (e.1, f e.1 e.2) := by
  simp only [active, map, Directory.map, List.filter_map, Function.comp_def, hf.active]

theorem activeCount_map : (r.map f).activeCount = r.activeCount := by
  simp [activeCount, r.active_map hf]

theorem averageLatency_map : (r.map f).averageLatency = r.averageLatency := by
  simp only [averageLatency, r.active_map hf, List.filterMap_map, Function.comp_def, hf.latency]

theorem averageThroughput_map : (r.map f).averageThroughput = r.averageThroughput := by
  simp only [averageThroughput, r.active_map hf, List.filterMap_map, Function.comp_def, hf.throughput]

theorem totalBandwidth_map : (r.map f).totalBandwidth = r.totalBandwidth := by
  simp only [totalBandwidth, r.active_map hf, List.filterMap_map, Function.comp_def, hf.throughput]

theorem evictAll_map (ids : List String) : (r.map f).evictAll ids = (r.evictAll ids).map f := by
  have hrecord (id : String) (p : Peer) : (if id ∈ ids then { f id p with active := false } else f id p) =
      f id (if id ∈ ids then { p with active := false } else p) := by
    split
    · exact (hf.evicted id p).symm
    · rfl
  simp only [evictAll, map, Directory.map, List.map_map, Function.comp_def, hrecord]

end Registry

/-! ## The ranking -/

namespace Pool

variable (r : Registry)

theorem ranked_map : ranked (r.map f) = (ranked r).map fun e => (e.1, f e.1 e.2) := by
  rw [ranked, r.active_map hf, ranked]
  refine (List.map_mergeSort fun a _ b _ => ?_).symm
  simp only [ranksLE, hf.latency]

omit hf in
/-- Peers that happen to stand in the order of the ranking stay in it. -/
theorem ranked_of_pairwise {r : Registry} (h : r.active.Pairwise fun a b => ranksLE a b = true) :
    ranked r = r.active :=
  List.mergeSort_of_pairwise h

theorem decision_map (preferredLatencyMs : Float) (maxPeers maxOutbound : Nat) :
    decision preferredLatencyMs maxPeers maxOutbound (r.map f) =
      decision preferredLatencyMs maxPeers maxOutbound r := by
  have hfast : isFast preferredLatencyMs ∘ (fun e : String × Peer => (e.1, f e.1 e.2)) = isFast preferredLatencyMs := by
    funext e
    simp only [Function.comp_apply, isFast, hf.latency]
  have hname : Prod.fst ∘ (fun e : String × Peer => (e.1, f e.1 e.2)) = Prod.fst := rfl
  simp only [decision, r.activeCount_map hf, ranked_map hf, List.takeWhile_map, hfast, ← List.map_take,
    ← List.map_drop, List.map_map, hname]

end Pool

/-! ## The cycle -/

namespace State

variable {s t : State} (cfg : Config) (usage : HostUsage) (now : Instant)

/-- A health cycle does the same before and after a change that keeps the links. -/
theorem healthCycle_of_map (hregistry : t.registry = s.registry.map f) (hhistory : t.history = s.history)
    (hcongestion : t.congestion = s.congestion) (houtbound : t.outbound = s.outbound) :
    t.healthCycle cfg usage now =
      ({ t with
          registry := (s.healthCycle cfg usage now).1.registry.map f
          history := (s.healthCycle cfg usage now).1.history
          congestion := (s.healthCycle cfg usage now).1.congestion
          outbound := (s.healthCycle cfg usage now).1.outbound },
        (s.healthCycle cfg usage now).2) := by
  have hsnapshot : t.snapshot usage now = s.snapshot usage now := by
    simp only [snapshot, hregistry, s.registry.activeCount_map hf, s.registry.totalBandwidth_map hf,
      s.registry.averageLatency_map hf]
    rfl
  simp only [healthCycle, applyPool, hsnapshot, hhistory, hcongestion, houtbound, hregistry, Pool.decision_map hf,
    s.registry.evictAll_map hf, Registry.averageThroughput_map hf]

end State

omit hf

namespace Warden

variable {w : Warden} {s : Session}

/-- Without figures of the host, a health cycle only asks the sampler. -/
theorem healthCycle_of_error {fault : Fault} (h : (w.sample s).2 = .error fault) (now : Instant) :
    w.healthCycle s now = ({ s with samples := s.samples + 1 }, .error fault) := by
  simp only [healthCycle, h]
  rfl

theorem healthCycle_of_ok {usage : HostUsage} (h : (w.sample s).2 = .ok usage) (now : Instant) :
    let cycle := s.state.healthCycle w.config usage now
    let evicted := cycle.2.pool.evicted
    w.healthCycle s now =
      ({ state := cycle.1
         asked := s.asked
         samples := s.samples + 1
         meters := (s.meters.observeEvictions evicted.length).observeStatus (cycle.1.status w.config now)
         disconnects := s.disconnects ++ evicted.map fun id => { id, reason := evictionReason } },
        .ok cycle.2) := by
  simp only [healthCycle, h]
  rfl

/-- A health cycle that succeeds had figures of the host. -/
theorem healthCycle_eq_ok {now : Instant} {report : HealthReport} (h : (w.healthCycle s now).2 = .ok report) :
    ∃ usage, (w.sample s).2 = .ok usage ∧ report = (s.state.healthCycle w.config usage now).2 ∧
      (w.healthCycle s now).1.state = (s.state.healthCycle w.config usage now).1 := by
  cases hsample : (w.sample s).2 with
  | error fault =>
    rw [healthCycle_of_error hsample] at h
    cases h
  | ok usage =>
    rw [healthCycle_of_ok hsample] at h ⊢
    exact ⟨usage, rfl, (Except.ok.inj h).symm, rfl⟩

end Warden

end PeerWarden
