import PeerWarden.Proofs.Admission.FloodWindow
import PeerWarden.Proofs.Run.Registration
import PeerWarden.Proofs.Threat.Clusters

/-!
# The Ledger of a Peer

The record of a peer counts its valid and invalid blocks, the floods from its address and the Sybil clusters that it
was found in. The counts are exact over every run: each report and each cycle counts once, nothing else counts, and
nothing sets a count back for as long as the peer is known. What is older than the latest registration does not count.

## Main definitions

- `Warden.countCycles`: in how many security cycles of a run something is the case
- `Warden.inCluster`: a peer that is one of too many suspects behind an address
- `Warden.Books`: what a run adds to the record of a peer
- `Warden.LedgerExact`: what the record of a peer says about the run since its registration

## Main statements

- `step_books`, `run_books`: what one operation and what a run adds
- `ledger_exact`: the ledger of every known peer is exact
-/

namespace PeerWarden

namespace Operation

/-- Whether an operation reports a valid block of a peer. -/
def reportsSuccess (id : String) : Operation → Bool
  | .request (.success name _) => name = id
  | _ => false

/-- Whether an operation reports an invalid block of a peer. -/
def reportsFailure (id : String) : Operation → Bool
  | .request (.failure name _) => name = id
  | _ => false

end Operation

/-! ## Sybil clusters -/

namespace Sybil

variable (cfg : Config.Security)

theorem clusterFlags_judge (clusters : Directory String Nat) (p : Peer) : (judge cfg clusters p).clusterFlags =
    p.clusterFlags + if isSuspect cfg p && clusters.contains p.address then 1 else 0 := by
  unfold judge
  split <;> rfl

end Sybil

namespace State

variable (s : State) (cfg : Config) (model : Option Classifier) (asked : List Features) (now : Instant)

/-- Of the detectors, Sybil detection alone counts clusters. -/
theorem clusterFlags_detectedPeer (id : String) (p : Peer) :
    (s.detectedPeer cfg model asked now id p).clusterFlags = (s.clusteredPeer cfg now p).clusterFlags := by
  have hjudge (d : Detector) (q : Peer) : (d.judge q).clusterFlags = q.clusterFlags := by
    unfold Detector.judge
    split <;> rfl
  have hscreened : (s.screenedPeer cfg now p).clusterFlags = (s.clusteredPeer cfg now p).clusterFlags := by
    rw [screenedPeer, hjudge, eclipsedPeer, hjudge]
  unfold detectedPeer
  cases s.accusation? cfg model asked now id with
  | none => exact hscreened
  | some probability => exact hscreened

/-- A peer is flagged if it is one of enough suspects behind its address. -/
theorem clusterFlags_clusteredPeer {id : String} {p : Peer} (hp : s.registry.get? id = some p) :
    (s.clusteredPeer cfg now p).clusterFlags = p.clusterFlags +
      if Sybil.isSuspect cfg.security p &&
        decide (cfg.security.sybilMinPeers ≤ (Sybil.suspectsBehind cfg.security s.registry p.address).size)
      then 1 else 0 := by
  have hblamed : (s.floods cfg now).registry.get? id = some (s.blamed cfg now p) := by
    rw [get?_blamed, hp, Option.map_some]
  rw [clusteredPeer, Sybil.clusterFlags_judge, Sybil.isSuspect_and_contains_clusters hblamed, isClustered_blamed,
    blamed_eq]
  rfl

end State

namespace Warden

variable (w : Warden)

/-! ## What a run adds -/

/-- In how many security cycles of a run something is the case, also in those that break off. -/
def countCycles (test : Session → Instant → Bool) (s : Session) : List Operation → Nat
  | [] => 0
  | op :: ops =>
    (match op with
      | .securityCycle now => if test s now then 1 else 0
      | _ => 0) + countCycles test (w.step s op) ops

/-- Whether a peer is a suspect, and one of enough suspects behind its address to make a cluster. -/
def inCluster (s : Session) (id : String) : Bool :=
  (s.state.registry.get? id).any fun p =>
    Sybil.isSuspect w.config.security p &&
      decide (w.config.security.sybilMinPeers ≤
        (Sybil.suspectsBehind w.config.security s.state.registry p.address).size)

/-- What some operations add to the record of a peer. -/
structure Books (s : Session) (id : String) (ops : List Operation) (p p' : Peer) : Prop where
  address : p'.address = p.address
  firstSeen : p'.firstSeen = p.firstSeen
  validBlocks : p'.validBlocks = p.validBlocks + ops.countP (·.reportsSuccess id)
  invalidBlocks : p'.invalidBlocks = p.invalidBlocks + ops.countP (·.reportsFailure id)
  floods : p'.floods = p.floods + w.countCycles (fun s now => w.bansAt s now p.address) s ops
  clusterFlags : p'.clusterFlags = p.clusterFlags + w.countCycles (fun s _ => w.inCluster s id) s ops

variable {w} {s : Session} {id : String} {p p₁ p' : Peer} {op : Operation} {ops : List Operation}

theorem Books.refl : w.Books s id [] p p := ⟨rfl, rfl, rfl, rfl, rfl, rfl⟩

theorem Books.cons (hfirst : w.Books s id [op] p p₁) (hrest : w.Books (w.step s op) id ops p₁ p') :
    w.Books s id (op :: ops) p p' where
  address := hrest.address.trans hfirst.address
  firstSeen := hrest.firstSeen.trans hfirst.firstSeen
  validBlocks := by
    rw [hrest.validBlocks, hfirst.validBlocks, Nat.add_assoc, ← List.countP_append, List.singleton_append]
  invalidBlocks := by
    rw [hrest.invalidBlocks, hfirst.invalidBlocks, Nat.add_assoc, ← List.countP_append, List.singleton_append]
  floods := by
    -- The address is still the same, so the later cycles are counted for the address of the first record.
    rw [hrest.floods, hfirst.floods, hfirst.address]
    simp only [countCycles, Nat.add_zero, Nat.add_assoc]
  clusterFlags := by
    rw [hrest.clusterFlags, hfirst.clusterFlags]
    simp only [countCycles, Nat.add_zero, Nat.add_assoc]

/-- What one operation adds to the record of a peer that is known before and after. -/
theorem step_books (hp : s.state.registry.get? id = some p)
    (hp' : (w.step s op).state.registry.get? id = some p') : w.Books s id [op] p p' := by
  cases op with
  | request r =>
    rw [get?_step_request hp] at hp'
    obtain rfl := Option.some.inj hp'
    cases r with
    | register | attempt | outcome | banAddress | liftBan => exact ⟨rfl, rfl, rfl, rfl, rfl, rfl⟩
    | success name now =>
      by_cases h : name = id
      · have hserved : s.state.servedPeer id (.success name now) p = p.creditBlock now := if_pos h
        rw [hserved]
        exact ⟨rfl, rfl, by simp [Operation.reportsSuccess, Peer.creditBlock, h], rfl, rfl, rfl⟩
      · have hserved : s.state.servedPeer id (.success name now) p = p := if_neg h
        rw [hserved]
        exact ⟨rfl, rfl, by simp [Operation.reportsSuccess, h], rfl, rfl, rfl⟩
    | failure name now =>
      by_cases h : name = id
      · have hserved : s.state.servedPeer id (.failure name now) p = p.debitBlock now := if_pos h
        have hinvalid : (p.debitBlock now).invalidBlocks = p.invalidBlocks + 1 := rfl
        rw [hserved]
        exact ⟨rfl, rfl, rfl, by simp [Operation.reportsFailure, hinvalid, h], rfl, rfl⟩
      · have hserved : s.state.servedPeer id (.failure name now) p = p := if_neg h
        rw [hserved]
        exact ⟨rfl, rfl, rfl, by simp [Operation.reportsFailure, h], rfl, rfl⟩
    | peerAttempt | latency | throughput | link | blockPeer =>
      simp only [State.servedPeer]
      split <;> exact ⟨rfl, rfl, rfl, rfl, rfl, rfl⟩
  | securityCycle now =>
    have hcycle : (w.securityCycle s now).1.state.registry.get? id = some p' := hp'
    rw [securityCycle_state] at hcycle
    obtain ⟨trust, ban, rfl⟩ := State.exists_of_get?_securityCycle _ _ _ _ _ hp hcycle
    obtain ⟨trust', clusterFlags, hdetected⟩ :=
      s.state.detectedPeer_eq w.config w.classifier s.asked now id p
    have hflags := s.state.clusterFlags_detectedPeer w.config w.classifier s.asked now id p
    rw [s.state.clusterFlags_clusteredPeer w.config now hp] at hflags
    constructor
    case clusterFlags =>
      rw [hflags]
      simp only [countCycles, inCluster, hp, Option.any_some, Nat.add_zero]
    case floods =>
      rw [hdetected]
      simp only [State.blamed_eq, countCycles, bansAt, Nat.add_zero]
      rfl
    case address | firstSeen => rw [hdetected]
    case validBlocks | invalidBlocks =>
      rw [hdetected]
      rfl
  | healthCycle now =>
    rw [get?_step_healthCycle hp] at hp'
    obtain rfl := Option.some.inj hp'
    split <;> exact ⟨rfl, rfl, rfl, rfl, rfl, rfl⟩

/-- What a run adds to the record of a peer that is known all along. -/
theorem run_books (hp : s.state.registry.get? id = some p)
    (hknown : ∀ since, since <+: ops → (w.run s since).knows id = true)
    (hp' : (w.run s ops).state.registry.get? id = some p') : w.Books s id ops p p' := by
  induction ops generalizing s p with
  | nil =>
    obtain rfl := Option.some.inj (hp.symm.trans hp')
    exact .refl
  | cons op ops ih =>
    obtain ⟨p₁, hp₁⟩ := Session.knows_iff.mp (hknown [op] ⟨ops, rfl⟩)
    have hrest : ∀ since, since <+: ops → (w.run (w.step s op) since).knows id = true := fun since hsince =>
      hknown (op :: since) (List.cons_prefix_cons.mpr ⟨rfl, hsince⟩)
    exact .cons (step_books hp hp₁) (ih hp₁ hrest hp')

/-! ## The ledger -/

/-- What the record of a known peer says about a run. -/
structure LedgerExact (w : Warden) (ops : List Operation) (id : String) (p : Peer) : Prop where
  /-- The record is listed under its identity, and it is the only one there. -/
  listed : (w.run w.start ops).state.registry.peers.entries.filter (fun e => e.1 = id) = [(id, p)]
  /-- It tells of the latest registration and counts what happened since then. -/
  booked : ∃ earlier op later, w.KnownSince id ops earlier op later ∧
    registration? (w.run w.start earlier) id op = some (p.address, p.firstSeen) ∧
    p.validBlocks = later.countP (·.reportsSuccess id) ∧
    p.invalidBlocks = later.countP (·.reportsFailure id) ∧
    p.floods = w.countCycles (fun s now => w.bansAt s now p.address) (w.step (w.run w.start earlier) op) later ∧
    p.clusterFlags = w.countCycles (fun s _ => w.inCluster s id) (w.step (w.run w.start earlier) op) later
  /-- The next operation drops it only if it is a security cycle that reports it as forgotten. -/
  dropped : ∀ op, (w.run w.start (ops ++ [op])).knows id = false ↔ ∃ now report, op = .securityCycle now ∧
    (w.securityCycle (w.run w.start ops) now).2 = .ok report ∧ id ∈ report.forgottenPeers
  /-- A security cycle that completes reports it if it was idle for too long and is not blocked for good. -/
  forgotten : ∀ now report, (w.securityCycle (w.run w.start ops) now).2 = .ok report →
    (id ∈ report.forgottenPeers ↔ w.config.security.peerRetention < p.idleAt now ∧ p.isPermanentlyBlocked = false)

/-- **The ledger is exact.** The record of every peer that is known after a run tells of its latest registration,
    counts every report and every cycle since then once and nothing else, and is kept until a security cycle forgets
    a peer that was idle for too long. -/
theorem ledger_exact (w : Warden) (ops : List Operation) {id : String} {p : Peer}
    (hp : (w.run w.start ops).state.registry.get? id = some p) : w.LedgerExact ops id p := by
  constructor
  case listed =>
    have hget : (w.run w.start ops).state.registry.peers.get? id = some p := hp
    rw [Directory.filter_key_entries, hget]
    rfl
  case booked =>
    obtain ⟨earlier, op, later, hsince⟩ := w.exists_knownSince (Session.knows_iff.mpr ⟨p, hp⟩)
    obtain ⟨address, now, hregistration, hnew⟩ := hsince.exists_registration
    have hbooks : w.Books (w.step (w.run w.start earlier) op) id later (.new address now) p := by
      apply run_books hnew hsince.knows_later
      rw [hsince.run_later]
      exact hp
    -- A new record starts with all counts at zero.
    refine ⟨earlier, op, later, hsince, ?_, ?_, ?_, ?_, ?_⟩
    · rw [hbooks.address, hbooks.firstSeen]
      exact hregistration
    · exact hbooks.validBlocks.trans (Nat.zero_add _)
    · exact hbooks.invalidBlocks.trans (Nat.zero_add _)
    · rw [hbooks.address]
      exact hbooks.floods.trans (Nat.zero_add _)
    · exact hbooks.clusterFlags.trans (Nat.zero_add _)
  case dropped =>
    intro op
    rw [run_append, Session.not_knows_iff]
    exact get?_step_eq_none_iff hp op
  case forgotten =>
    intro now report hreport
    exact mem_forgottenPeers_iff hp hreport

/-- A peer in its second life: what is counted is a valid and an invalid block, a flood and a cluster, and not the valid
    block before it was forgotten. -/
theorem ledger_exact_second_life :
    let w := standalone { security := { peerRetentionHours := 1, sybilMinPeers := 1 }, dosProtection := { rateLimit := 1 } }
    let sec (seconds : Nat) : Instant := Span.ofSeconds seconds
    let ops : List Operation :=
      [.request (.register "p" "b" 0), .request (.success "p" 0), .securityCycle (sec 3601),
        .request (.register "p" "a" (sec 3602)), .request (.success "p" (sec 3603)), .request (.failure "p" (sec 3604)),
        .request (.attempt "a" (sec 3605)), .request (.attempt "a" (sec 3606)), .securityCycle (sec 3607),
        .healthCycle (sec 3608)]
    (w.run w.start (ops.take 3)).knows "p" = false ∧
      ∃ p, (w.run w.start ops).state.registry.get? "p" = some p ∧ w.LedgerExact ops "p" p ∧
        p.address = "a" ∧ p.firstSeen = sec 3602 ∧ p.validBlocks = 1 ∧ p.invalidBlocks = 1 ∧ p.floods = 1 ∧
        p.clusterFlags = 1 := by
  intro w sec ops
  refine ⟨by decide +kernel, ?_⟩
  obtain ⟨p, hp⟩ := Session.knows_iff.mp (by decide +kernel : (w.run w.start ops).knows "p" = true)
  have hrecord : ((w.run w.start ops).state.registry.get? "p").map (fun p =>
      (p.address, p.firstSeen, p.validBlocks, p.invalidBlocks, p.floods, p.clusterFlags)) =
        some ("a", sec 3602, 1, 1, 1, 1) := by
    decide +kernel
  rw [hp] at hrecord
  have hfields := Option.some.inj hrecord
  simp only [Prod.mk.injEq] at hfields
  exact ⟨p, hp, ledger_exact w ops hp, hfields⟩

end Warden

end PeerWarden
