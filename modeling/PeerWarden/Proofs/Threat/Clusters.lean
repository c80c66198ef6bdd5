import PeerWarden.Proofs.Peer.EarnedTrust
import PeerWarden.Proofs.Threat.Locality

/-!
# Sybil Clusters

Sybil detection first collects the suspects of all addresses, and then penalizes those behind an address with enough
of them. Who is a suspect is settled before the first penalty, so neither the order of the penalties nor their number
matters: a peer is hit once or not at all, and an address is reported with the suspects that it had at the start.

## Main definitions

- `Sybil.isClustered`: a suspect that is one of enough suspects behind its address
- `Sybil.HitsClusters`: what holds of a registry and some findings if exactly the clusters were hit

## Main statements

- `judge_clusters`: what Sybil detection makes of the record of one peer
- `findings_eq`: one finding for each cluster, in the order of the addresses
- `State.isClustered_blamed`: the search for floods makes no difference to the clusters
- `clusters_hit_exactly`: Sybil detection hits exactly the clusters
-/

namespace PeerWarden

open Number

namespace Sybil

/-- Whether a peer is a suspect, and one of enough suspects behind its address to make a cluster. -/
def isClustered (cfg : Config.Security) (r : Registry) (p : Peer) : Bool :=
  isSuspect cfg p && decide (cfg.sybilMinPeers ≤ (suspectsBehind cfg r p.address).size)

variable {cfg : Config.Security} {r : Registry} {id address : String} {p : Peer}

theorem isClustered_iff : isClustered cfg r p = true ↔
    p.trust < cfg.minimumTrustScore ∧ cfg.sybilMinPeers ≤ (suspectsBehind cfg r p.address).size := by
  simp [isClustered, isSuspect]

/-! ## Peers -/

/-- For a known suspect, the address is a cluster as soon as there are enough suspects behind it. -/
theorem isSuspect_and_contains_clusters (hp : r.get? id = some p) :
    (isSuspect cfg p && (clusters cfg r).contains p.address) = isClustered cfg r p := by
  unfold isClustered
  cases hsuspect : isSuspect cfg p with
  | false => rfl
  | true =>
    -- The peer itself is behind its address, so that there is a suspect at all.
    have hpos := size_suspectsBehind_pos cfg hp hsuspect
    rw [contains_clusters]
    simp [hpos]

/-- A peer in a cluster keeps half of its trust and is flagged once more; any other keeps its record. -/
theorem judge_clusters (hp : r.get? id = some p) (hunit : InUnit p.trust) : judge cfg (clusters cfg r) p =
    if isClustered cfg r p then { p with trust := p.trust * factor, clusterFlags := p.clusterFlags + 1 } else p := by
  rw [judge, isSuspect_and_contains_clusters hp]
  have hhalf : p.scaleTrust factor = { p with trust := p.trust * factor } := by
    have htrust := Peer.trust_scaleTrust hunit (by decide : InUnit factor)
    rw [← htrust]
    rfl
  rw [flag, hhalf]

/-! ## Addresses -/

/-- There are suspects behind an address if there is a suspect with that address. -/
theorem size_suspectsBehind_pos_iff : 0 < (suspectsBehind cfg r address).size ↔
    ∃ id p, r.get? id = some p ∧ p.address = address ∧ isSuspect cfg p = true := by
  constructor
  · intro hpos
    obtain ⟨⟨id, p⟩, hmem⟩ := List.exists_mem_of_length_pos hpos
    obtain ⟨hlisted, hbehind⟩ := List.mem_filter.mp hmem
    have hboth : p.address = address ∧ isSuspect cfg p = true := by simpa using hbehind
    exact ⟨id, p, Directory.mem_entries_iff.mp hlisted, hboth⟩
  · rintro ⟨id, p, hp, rfl, hsuspect⟩
    exact size_suspectsBehind_pos cfg hp hsuspect

/-- The clusters are the addresses of the peers in a cluster. -/
theorem mem_keys_clusters : address ∈ (clusters cfg r).keys ↔
    ∃ id p, r.get? id = some p ∧ p.address = address ∧ isClustered cfg r p = true := by
  rw [Directory.mem_keys_iff, contains_clusters, decide_eq_true_eq, size_suspectsBehind_pos_iff]
  constructor
  · rintro ⟨⟨id, p, hp, rfl, hsuspect⟩, henough⟩
    exact ⟨id, p, hp, rfl, by simp [isClustered, hsuspect, henough]⟩
  · rintro ⟨id, p, hp, rfl, hclustered⟩
    rcases Bool.and_eq_true_iff.mp hclustered with ⟨hsuspect, henough⟩
    exact ⟨⟨id, p, hp, rfl, hsuspect⟩, of_decide_eq_true henough⟩

/-- There is one finding for each cluster, which names the number of suspects. -/
theorem findings_eq (cfg : Config.Security) (now : Instant) (r : Registry) : findings cfg now r =
    (clusters cfg r).keys.map fun address =>
      { time := now
        attack := .sybil
        subject := address
        severity := .warning
        description :=
          s!"Sybil attack: {(suspectsBehind cfg r address).size} suspicious peers from {address}"
        action := .penalized } := by
  rw [Directory.keys, List.map_map]
  apply List.map_congr_left
  rintro ⟨address, n⟩ hentry
  -- What the tally holds under an address is the number of suspects behind it.
  have hn := Directory.mem_entries_iff.mp hentry
  rw [get?_clusters] at hn
  split at hn
  · obtain rfl := Option.some.inj hn
    rfl
  · cases hn

end Sybil

/-! ## After the search for floods -/

namespace State

variable (s : State) (cfg : Config) (now : Instant)

theorem size_suspectsBehind_floods (address : String) :
    (Sybil.suspectsBehind cfg.security (s.floods cfg now).registry address).size =
      (Sybil.suspectsBehind cfg.security s.registry address).size := by
  have hregistry : (s.floods cfg now).registry = s.registry.map fun _ => s.blamed cfg now := rfl
  rw [hregistry]
  apply Sybil.size_suspectsBehind_map <;> intro id q <;> rw [blamed_eq]

/-- The search for floods makes no difference to who is in a cluster. -/
theorem isClustered_blamed (p : Peer) :
    Sybil.isClustered cfg.security (s.floods cfg now).registry (s.blamed cfg now p) =
      Sybil.isClustered cfg.security s.registry p := by
  rw [blamed_eq]
  unfold Sybil.isClustered
  rw [size_suspectsBehind_floods]
  rfl

end State

namespace Sybil

/-! ## All peers and addresses -/

/-- What holds of a registry afterwards, and of the findings, if exactly the clusters of a registry were hit. -/
structure HitsClusters (cfg : Config.Security) (now : Instant) (r after : Registry) (events : List Event) : Prop where
  /-- The peers whose record changes are the suspects, blocked or not, with enough suspects behind their address. -/
  changed_iff : ∀ id p, r.get? id = some p → (after.get? id ≠ some p ↔
    p.trust < cfg.minimumTrustScore ∧ cfg.sybilMinPeers ≤ (suspectsBehind cfg r p.address).size)
  /-- Such a peer keeps half of its trust and is flagged once more, and the rest of its record stays. -/
  halved : ∀ id p, r.get? id = some p → after.get? id ≠ some p →
    after.get? id = some { p with trust := p.trust * 0.5, clusterFlags := p.clusterFlags + 1 }
  /-- No peer is forgotten, and none becomes known. -/
  known_iff : ∀ id, after.contains id = r.contains id
  connections : after.connectionsSucceeded = r.connectionsSucceeded ∧ after.connectionsFailed = r.connectionsFailed
  /-- There is one warning for each address behind which a record changes, in ascending order of the addresses. It
      names the number of suspects before the first of them was penalized. -/
  warnings : ∃ addresses : List String, addresses.Pairwise (· < ·) ∧
    (∀ address, address ∈ addresses ↔
      ∃ id p, r.get? id = some p ∧ p.address = address ∧ after.get? id ≠ some p) ∧
    events = addresses.map fun address =>
      { time := now
        attack := .sybil
        subject := address
        severity := .warning
        description :=
          s!"Sybil attack: {(suspectsBehind cfg r address).size} suspicious peers from {address}"
        action := .penalized }

/-- **Sybil detection hits exactly the clusters** of a registry in which all trust is on the scale. -/
theorem clusters_hit_exactly (cfg : Config.Security) (now : Instant) (r : Registry)
    (hunit : ∀ id p, r.get? id = some p → InUnit p.trust) :
    HitsClusters cfg now r (penalize cfg r) (findings cfg now r) := by
  have hafter (id : String) (p : Peer) (hp : r.get? id = some p) : (penalize cfg r).get? id =
      some (if isClustered cfg r p then { p with trust := p.trust * 0.5, clusterFlags := p.clusterFlags + 1 }
        else p) := by
    rw [get?_penalize, hp, Option.map_some, judge_clusters hp (hunit id p hp)]
    rfl
  have hchanged (id : String) (p : Peer) (hp : r.get? id = some p) :
      (penalize cfg r).get? id ≠ some p ↔ isClustered cfg r p = true := by
    rw [hafter id p hp]
    cases hclustered : isClustered cfg r p with
    | false => simp
    | true =>
      -- Whatever halving does to a trust of zero, the counter of flags has moved on.
      have hflags : p.clusterFlags + 1 ≠ p.clusterFlags := Nat.succ_ne_self _
      simp only [↓reduceIte, ne_eq, Option.some.injEq, iff_true]
      exact fun heq => hflags (congrArg Peer.clusterFlags heq)
  constructor
  case changed_iff => exact fun id p hp => (hchanged id p hp).trans isClustered_iff
  case halved =>
    intro id p hp hne
    rw [hafter id p hp, if_pos ((hchanged id p hp).mp hne)]
  case known_iff =>
    intro id
    show ((penalize cfg r).get? id).isSome = (r.get? id).isSome
    rw [get?_penalize, Option.isSome_map]
  case connections => exact ⟨rfl, rfl⟩
  case warnings =>
    refine ⟨(clusters cfg r).keys, List.pairwise_map.mpr (clusters cfg r).ordered, fun address => ?_,
      findings_eq cfg now r⟩
    rw [mem_keys_clusters]
    constructor
    · rintro ⟨id, p, hp, haddress, hclustered⟩
      exact ⟨id, p, hp, haddress, (hchanged id p hp).mpr hclustered⟩
    · rintro ⟨id, p, hp, haddress, hne⟩
      exact ⟨id, p, hp, haddress, (hchanged id p hp).mp hne⟩

/-- Two newcomers behind one address, one of them blocked, a trusted peer beside them, and a newcomer elsewhere. -/
def neighbourhood : Registry :=
  let newcomers := [("p", "a"), ("q", "a"), ("r", "a"), ("s", "b")].foldl
    (fun r e => r.register e.1 e.2 0) ({} : Registry)
  (newcomers.block "q" "spam" none).adjust "r" (·.withTrust 0.9)

/-- If two suspects make a cluster, then the two newcomers behind one address are one. -/
theorem clusters_hit_exactly_neighbourhood :
    let cfg : Config.Security := { sybilMinPeers := 2 }
    (∀ id p, neighbourhood.get? id = some p → InUnit p.trust) ∧
      HitsClusters cfg 1 neighbourhood (penalize cfg neighbourhood) (findings cfg 1 neighbourhood) ∧
      ((penalize cfg neighbourhood).peers.entries.map fun e => (e.1, e.2.clusterFlags)) =
        [("p", 1), ("q", 1), ("r", 0), ("s", 0)] := by
  intro cfg
  have hlisted : ∀ e ∈ neighbourhood.peers.entries, InUnit e.2.trust := by decide +kernel
  have hunit : ∀ id p, neighbourhood.get? id = some p → InUnit p.trust :=
    fun id p hp => hlisted (id, p) (Directory.mem_entries_iff.mpr hp)
  exact ⟨hunit, clusters_hit_exactly cfg 1 neighbourhood hunit, by decide +kernel⟩

end Sybil

end PeerWarden
