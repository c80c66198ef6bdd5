import PeerWarden.Proofs.Cycle.SecurityCycle
import PeerWarden.Proofs.Run.PeerRecord

/-!
# Records apart from the Connected Set

Who belongs to the connected set is decided for all peers together, by a ranking. Nothing else that happens to a
record looks at it: what a request or a stage of a security cycle makes of a peer is the same whether the peer
is connected or not. `Peer.standing` is the rest of the record, and each change commutes with it.

## Main statements

- `standing_servedPeer`: requests
- `standing_detectedPeer`, `standing_reviewed`: the parts of a security cycle
-/

namespace PeerWarden

/-- The record of a peer apart from the connected set: what it would be if the peer were connected. -/
def Peer.standing (p : Peer) : Peer := { p with active := true }

namespace Peer

variable (p : Peer) (now : Instant)

theorem standing_reassess : p.reassess.standing = p.standing.reassess := apply_ite standing ..

theorem standing_decay (idleDecayAfter : Span) :
    (p.decay now idleDecayAfter).standing = p.standing.decay now idleDecayAfter :=
  apply_ite standing ..

theorem standing_reviewed (idleDecayAfter : Span) :
    (p.reviewed now idleDecayAfter).standing = p.standing.reviewed now idleDecayAfter := by
  have hblocked : p.standing.isBlocked = p.isBlocked := rfl
  have hoverdue : p.standing.isOverdueAt now = p.isOverdueAt now := rfl
  unfold reviewed
  rw [hblocked, hoverdue, apply_ite standing, apply_ite standing, standing_decay, standing_reassess]
  rfl

/-- A choice among records that does not look at the connected set. -/
theorem map_standing_filter {test : Peer → Bool} (htest : ∀ p : Peer, test p.standing = test p) (p? : Option Peer) :
    (p?.filter test).map standing = (p?.map standing).filter test := by
  cases p? with
  | none => rfl
  | some p => cases h : test p <;> simp [Option.filter, htest, h]

end Peer

/-! ## Detectors -/

theorem Sybil.standing_judge (cfg : Config.Security) (clusters : Directory String Nat) (p : Peer) :
    (judge cfg clusters p).standing = judge cfg clusters p.standing :=
  apply_ite Peer.standing ..

theorem Detector.standing_judge {d : Detector} (hd : ∀ p : Peer, d.flags p.standing = d.flags p) (p : Peer) :
    (d.judge p).standing = d.judge p.standing := by
  unfold judge
  rw [hd, apply_ite Peer.standing]
  rfl

namespace State

variable (s : State) (cfg : Config) (model : Option Classifier) (asked : List Features) (now : Instant)
  (id : String) (p : Peer)

theorem standing_blamed : (s.blamed cfg now p).standing = s.blamed cfg now p.standing := apply_ite Peer.standing ..

theorem standing_screenedPeer : (s.screenedPeer cfg now p).standing = s.screenedPeer cfg now p.standing := by
  have heclipse (q : Peer) : (Detector.eclipse cfg.security now).flags q.standing =
      (Detector.eclipse cfg.security now).flags q := rfl
  have htiming (q : Peer) : (Detector.timing cfg.security now).flags q.standing =
      (Detector.timing cfg.security now).flags q := rfl
  unfold screenedPeer eclipsedPeer clusteredPeer
  rw [Detector.standing_judge htiming, Detector.standing_judge heclipse, Sybil.standing_judge, standing_blamed]

theorem standing_detectedPeer : (s.detectedPeer cfg model asked now id p).standing =
    s.detectedPeer cfg model asked now id p.standing := by
  unfold detectedPeer
  rw [← standing_screenedPeer]
  cases s.accusation? cfg model asked now id <;> rfl

/-! ## Requests -/

/-- A request that connects a peer makes no difference either: the rest of the record stays. -/
theorem standing_servedPeer (r : Request) : (s.servedPeer id r p).standing = s.servedPeer id r p.standing := by
  cases r with
  | register | attempt | outcome | banAddress | liftBan => rfl
  | _ => exact apply_ite Peer.standing ..

end State

end PeerWarden
