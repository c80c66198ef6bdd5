import PeerWarden.Proofs.Directory.Entries
import PeerWarden.Proofs.Peer.Standing

/-!
# What the Detectors Look At

Sybil detection counts over all peers, and the classifier is asked about one peer after the other. Here it is
stated how little of that matters for one address and for one peer: an address is a cluster by the standing of the
peers behind it, and a model that answers every question by itself flags a peer by the record of that peer and the
rate of its address.

## Main definitions

- `Sybil.suspectsBehind`: the suspects behind an address
- `Classifier.IsSteady`: a model that remembers nothing and never breaks off
- `Classifier.verdict?`: what such a model makes of one peer

## Main statements

- `get?_clusters`, `contains_clusters`: an address is a cluster by the number of suspects behind it
- `lookup_accused_of_steady`: whom a steady model accuses
-/

namespace PeerWarden

/-! ## Sybil clusters -/

namespace Sybil

/-- The suspects behind an address. -/
def suspectsBehind (cfg : Config.Security) (r : Registry) (address : String) : Directory String Peer :=
  r.peers.filter fun _ p => decide (p.address = address) && isSuspect cfg p

variable (cfg : Config.Security) (r : Registry) (address : String)

theorem count_suspects : ((r.peers.values.filter (isSuspect cfg)).map (·.address)).count address =
    (suspectsBehind cfg r address).size := by
  rw [suspectsBehind, Directory.size, Directory.filter, Directory.values, List.filter_map, List.map_map,
    List.count_eq_countP, List.countP_map, List.countP_filter, List.countP_eq_length_filter]
  rfl

/-- Under the address of a cluster stands the number of suspects behind it. -/
theorem get?_clusters : (clusters cfg r).get? address =
    if 0 < (suspectsBehind cfg r address).size ∧ cfg.sybilMinPeers ≤ (suspectsBehind cfg r address).size
    then some (suspectsBehind cfg r address).size else none := by
  -- An address without suspects is not tallied at all, so it is no cluster even for a limit of zero.
  have hmem : address ∈ (r.peers.values.filter (isSuspect cfg)).map (·.address) ↔
      0 < (suspectsBehind cfg r address).size := by
    rw [← List.count_pos_iff, count_suspects]
  rw [clusters, Directory.get?_filter, Directory.get?_tally, count_suspects]
  by_cases h : 0 < (suspectsBehind cfg r address).size
  · simp [h, hmem.mpr h, Option.filter]
  · simp [h, mt hmem.mp h]

theorem contains_clusters : (clusters cfg r).contains address =
    decide (0 < (suspectsBehind cfg r address).size ∧ cfg.sybilMinPeers ≤ (suspectsBehind cfg r address).size) := by
  rw [Directory.contains, get?_clusters]
  split <;> simp_all

/-- Suspects are told by their trust and their address alone. -/
theorem size_suspectsBehind_map {f : String → Peer → Peer} (haddress : ∀ id p, (f id p).address = p.address)
    (htrust : ∀ id p, (f id p).trust = p.trust) :
    (suspectsBehind cfg (r.map f) address).size = (suspectsBehind cfg r address).size := by
  simp [suspectsBehind, Registry.map, Directory.size, Directory.map, Directory.filter, List.filter_map, isSuspect,
    Function.comp_def, haddress, htrust]

variable {r address}

/-- A suspect is behind its address. -/
theorem size_suspectsBehind_pos {id : String} {p : Peer} (hp : r.get? id = some p)
    (hsuspect : isSuspect cfg p = true) : 0 < (suspectsBehind cfg r p.address).size := by
  have hget : (suspectsBehind cfg r p.address).get? id = some p := by
    rw [suspectsBehind, Directory.get?_filter]
    exact Option.filter_eq_some_iff.mpr ⟨hp, by simp [hsuspect]⟩
  exact List.length_pos_of_mem (Directory.mem_entries_iff.mpr hget)

/-- Where the same peers of the same standing are behind an address, it is a cluster or not alike. -/
theorem contains_clusters_congr {r' : Registry}
    (h : ∀ id, ((r.get? id).filter fun p => p.address = address).map Peer.standing =
      ((r'.get? id).filter fun p => p.address = address).map Peer.standing) :
    (clusters cfg r).contains address = (clusters cfg r').contains address := by
  -- The suspects are chosen among these peers by their trust.
  have hget (r : Registry) (id : String) : ((suspectsBehind cfg r address).map fun _ => Peer.standing).get? id =
      (((r.get? id).filter fun p => p.address = address).map Peer.standing).filter (isSuspect cfg) := by
    rw [← Peer.map_standing_filter (fun _ => rfl), Option.filter_filter, Directory.get?_map, suspectsBehind,
      Directory.get?_filter]
    rfl
  have hsuspects : (suspectsBehind cfg r address).map (fun _ => Peer.standing) =
      (suspectsBehind cfg r' address).map fun _ => Peer.standing := by
    apply Directory.ext_get?
    intro id
    rw [hget, hget, h]
  have hsize : (suspectsBehind cfg r address).size = (suspectsBehind cfg r' address).size := by
    simpa [Directory.size, Directory.map] using congrArg Directory.size hsuspects
  rw [contains_clusters, contains_clusters, hsize]

end Sybil

/-! ## Steady models -/

namespace Classifier

/-- A model is steady if it answers every question by itself and never breaks off. -/
def IsSteady (model : Classifier) : Prop :=
  ∃ classify : Features → Answer,
    (∀ earlier f, model earlier f = classify f) ∧ ∀ f message, classify f ≠ .crash message

/-- The probability of a threat for which a steady model flags a peer. -/
def verdict? (classify : Features → Answer) (cfg : Config) (rates : Directory String Nat) (p : Peer) :
    Option Float :=
  if p.isBlocked then none
  else flagged? cfg.security.classifierThreshold (classify (features cfg.dosProtection rates p))

theorem verdict?_standing (classify : Features → Answer) (cfg : Config) (rates : Directory String Nat) (p : Peer) :
    verdict? classify cfg rates p.standing = verdict? classify cfg rates p := rfl

/-- Of the rates, only that of the address of the peer matters. -/
theorem verdict?_congr (classify : Features → Answer) (cfg : Config) {rates rates' : Directory String Nat} {p : Peer}
    (h : rates.get? p.address = rates'.get? p.address) :
    verdict? classify cfg rates p = verdict? classify cfg rates' p := by
  unfold verdict? features
  rw [h]

section Steady

variable {model : Classifier} {classify : Features → Answer} (hmodel : ∀ earlier f, model earlier f = classify f)
  (hcrash : ∀ f message, classify f ≠ .crash message) (asked : List Features)

include hmodel hcrash

theorem interview_of_steady (questions : List (String × Features)) :
    (interview model asked questions).answers = questions.map (fun question => (question.1, classify question.2)) ∧
      (interview model asked questions).crash = none := by
  induction questions generalizing asked with
  | nil => exact ⟨rfl, rfl⟩
  | cons question rest ih =>
    obtain ⟨id, f⟩ := question
    unfold interview
    split
    next message hanswer => exact absurd ((hmodel asked f).symm.trans hanswer) (hcrash f message)
    next =>
      obtain ⟨hanswers, hnone⟩ := ih (f :: asked)
      exact ⟨by simp [hanswers, hmodel], hnone⟩

theorem lookup_accused_of_steady (cfg : Config) (rates : Directory String Nat) (r : Registry) (id : String) :
    (accused (some model) asked cfg rates r).lookup id = (r.get? id).bind (verdict? classify cfg rates) := by
  -- The questions leave out the blocked peers and the answers those that are not flagged: one pass in all.
  have haccused : accused (some model) asked cfg rates r =
      r.peers.entries.filterMap fun e => (verdict? classify cfg rates e.2).map (e.1, ·) := by
    rw [accused, (interview_of_steady hmodel hcrash asked _).1, flagged, questions, List.map_map,
      List.filterMap_map, List.filterMap_filter]
    congr 1
    funext e
    cases h : e.2.isBlocked <;> simp [verdict?, h]
  rw [haccused]
  exact Directory.lookup_filterMap_entries ..

end Steady

/-- A cycle that consults a steady model, or none, completes. -/
theorem crash_detect_of_steady {model : Option Classifier} (hmodel : ∀ m, model = some m → m.IsSteady) (s : State)
    (cfg : Config) (asked : List Features) (now : Instant) : (s.detect cfg model asked now).crash = none := by
  cases model with
  | none => rfl
  | some m =>
    obtain ⟨classify, hclassify, hcrash⟩ := hmodel m rfl
    exact (interview_of_steady hclassify hcrash asked _).2

end Classifier

end PeerWarden
