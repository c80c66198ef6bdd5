import PeerWarden.Proofs.Run.AddressRecord
import PeerWarden.Proofs.Run.PeerRecord

/-!
# The Scope of a Request

A request names at most one peer and at most one address. It changes nothing that is kept under another peer or
another address, and what it makes of a record depends on the rest of the state in one point alone: whether the
address of an attempt is banned.

## Main definitions

- `Request.address?`, `Request.peer?`: what a request names

## Main statements

- `servedPeer_of_ne`, `banAfter_of_ne`, `queueAfter_of_ne`: what a request does not name stays as it is
- `servedPeer_congr`, `newcomer?_congr`, `queueAfter_congr`: what a request makes of a record in two states
-/

namespace PeerWarden

namespace Request

/-- The address that a request names. -/
def address? : Request → Option String
  | .register _ address _ | .attempt address _ | .peerAttempt _ address _ => some address
  | .banAddress address _ _ _ | .liftBan address => some address
  | .outcome _ | .success _ _ | .failure _ _ | .latency _ _ | .throughput _ _ | .link _ _ _ | .blockPeer _ _ _ _ => none

/-- The peer that a request names. -/
def peer? : Request → Option String
  | .register id _ _ | .peerAttempt id _ _ | .success id _ | .failure id _ => some id
  | .latency id _ | .throughput id _ | .link id _ _ | .blockPeer id _ _ _ => some id
  | .outcome _ | .attempt _ _ | .banAddress _ _ _ _ | .liftBan _ => none

variable {r : Request} {address : String}

theorem address?_of_attempt {now : Instant} (h : r.attempt? = some (address, now)) : r.address? = some address := by
  cases r with
  | attempt | peerAttempt =>
    obtain ⟨rfl, -⟩ := Prod.mk.inj (Option.some.inj h)
    rfl
  | _ => cases h

theorem banAfter_of_ne (h : r.address? ≠ some address) (ban? : Option Ban) : r.banAfter address ban? = ban? := by
  cases r with
  | banAddress target reason duration now =>
    have hne : target ≠ address := fun heq => h (congrArg some heq)
    simp [banAfter, hne]
  | liftBan target =>
    have hne : target ≠ address := fun heq => h (congrArg some heq)
    simp [banAfter, hne]
  | _ => rfl

end Request

/-! ## Measurements -/

namespace Registry

variable (r r' : Registry) (id : String) (ms mbps : Float)

-- Whether a measurement is refused is decided before the peer is looked up.

theorem isOk_recordLatency : (r.recordLatency id ms).isOk = (r'.recordLatency id ms).isOk := by
  unfold recordLatency
  cases checkSample id "latency_ms" ms <;> rfl

theorem isOk_recordThroughput : (r.recordThroughput id mbps).isOk = (r'.recordThroughput id mbps).isOk := by
  unfold recordThroughput
  cases checkSample id "throughput_mbps" mbps <;> rfl

theorem isOk_recordLink : (r.recordLink id ms mbps).isOk = (r'.recordLink id ms mbps).isOk := by
  unfold recordLink
  cases checkSample id "latency_ms" ms with
  | error fault => rfl
  | ok => cases checkSample id "throughput_mbps" mbps <;> rfl

end Registry

namespace State

variable {s t : State} {id address : String} {r : Request} {p : Peer}

/-! ## Peers -/

theorem servedPeer_of_ne (h : r.peer? ≠ some id) (p : Peer) : s.servedPeer id r p = p := by
  cases r <;> simp_all [servedPeer, Request.peer?]

theorem newcomer?_of_ne (h : r.peer? ≠ some id) : s.newcomer? id r = none := by
  cases r <;> simp_all [newcomer?, Request.peer?]

/-- A peer that becomes known is named by the request, and so is the address it is behind. -/
theorem eq_new_of_newcomer (h : s.newcomer? id r = some p) :
    ∃ address now, p = .new address now ∧ r.peer? = some id ∧ r.address? = some address := by
  cases r <;> simp only [newcomer?, reduceCtorEq, Option.ite_none_right_eq_some, Option.some.injEq] at h
  case register name address now =>
    obtain ⟨rfl, rfl⟩ := h
    exact ⟨address, now, rfl, rfl, rfl⟩
  case peerAttempt name source now =>
    obtain ⟨⟨rfl, -⟩, rfl⟩ := h
    exact ⟨source, now, rfl, rfl, rfl⟩

theorem address_servedPeer (r : Request) (p : Peer) : (s.servedPeer id r p).address = p.address := by
  cases r <;> simp only [servedPeer] <;> try split
  all_goals rfl

section Attempts

variable (hbanned : ∀ source now, r.attempt? = some (source, now) → s.isBanned source now = t.isBanned source now)

include hbanned

theorem servedPeer_congr (p : Peer) : s.servedPeer id r p = t.servedPeer id r p := by
  cases r with
  | peerAttempt name source now => simp only [servedPeer, peerAttempt_accepted_iff, hbanned source now rfl]
  | latency name ms => simp only [servedPeer, s.registry.isOk_recordLatency t.registry]
  | throughput name mbps => simp only [servedPeer, s.registry.isOk_recordThroughput t.registry]
  | link name ms mbps => simp only [servedPeer, s.registry.isOk_recordLink t.registry]
  | _ => rfl

theorem newcomer?_congr : s.newcomer? id r = t.newcomer? id r := by
  cases r with
  | peerAttempt name source now => simp only [newcomer?, peerAttempt_accepted_iff, hbanned source now rfl]
  | _ => rfl

end Attempts

/-! ## Addresses -/

theorem queueAfter_of_ne (h : r.address? ≠ some address) : s.queueAfter address r = s.attempts.get? address := by
  cases r <;> simp_all [queueAfter, Request.address?]

/-- The attempts that are logged for an address depend on those before and on the ban on it. -/
theorem queueAfter_congr (hbans : s.bans.get? address = t.bans.get? address)
    (hattempts : s.attempts.get? address = t.attempts.get? address) (r : Request) :
    s.queueAfter address r = t.queueAfter address r := by
  have hof : s.attempts.of address = t.attempts.of address := congrArg (·.getD []) hattempts
  have hbanned (now : Instant) : s.isBanned address now = t.isBanned address now :=
    congrArg (·.any (·.inForceAt now)) hbans
  cases r with
  | attempt source now | peerAttempt id source now =>
    by_cases h : source = address
    · subst h
      simp only [queueAfter, hbanned, hof, hattempts]
    · simp only [queueAfter, h, hattempts, false_and, ↓reduceIte]
  | _ => simp only [queueAfter, hattempts]

end State

end PeerWarden
