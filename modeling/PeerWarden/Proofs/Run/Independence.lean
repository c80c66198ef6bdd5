import PeerWarden.Proofs.Run.RequestScope

/-!
# Independent Requests

Two requests that name different peers and different addresses commute: whichever is served first, the state is the
same in the end, and each gets the reply that it would have got alone. The counts of connections are the one thing
that both may change, and they only add up.

## Main definitions

- `Request.Apart`: two requests that name different peers and different addresses

## Main statements

- `serve_comm`: requests that are apart commute
- `reply_serve`: a request gets the same reply after one that is apart from it
-/

namespace PeerWarden

namespace Request

/-- Two requests that name different peers and different addresses. -/
def Apart (r q : Request) : Prop :=
  (∀ id ∈ r.peer?, q.peer? ≠ some id) ∧ ∀ address ∈ r.address?, q.address? ≠ some address

instance (r q : Request) : Decidable (r.Apart q) := inferInstanceAs (Decidable (_ ∧ _))

theorem Apart.symm {r q : Request} (h : r.Apart q) : q.Apart r := by
  constructor
  · intro id hq hr
    exact h.1 id hr hq
  · intro address hq hr
    exact h.2 address hr hq

/-- How many connections of an outcome a request reports. -/
def connections (succeeded : Bool) : Request → Nat
  | .outcome b => if b = succeeded then 1 else 0
  | _ => 0

end Request

namespace State

variable (s : State) {t : State} {r q : Request}

/-! ## What a request leaves alone -/

/-- A request changes the registry, the attempts and the bans at most. -/
theorem serve_frame (r : Request) : (s.serve r).1 =
    { s with
      registry := (s.serve r).1.registry
      attempts := (s.serve r).1.attempts
      bans := (s.serve r).1.bans } := by
  have hattempt (u : State) (source : String) (now : Instant) : (u.attempt source now).1 =
      { u with attempts := (u.attempt source now).1.attempts } := by
    unfold attempt
    split <;> rfl
  have hmeasured (result : Except Fault Registry) : (s.measured result).1 =
      { s with registry := (s.measured result).1.registry } := by
    cases result <;> rfl
  cases r with
  | attempt source now =>
    simp only [serve, judged]
    rw [hattempt]
  | peerAttempt id source now =>
    simp only [serve, judged, peerAttempt]
    split
    · rfl
    · rw [hattempt]
      rfl
  | latency id ms | throughput id mbps | link id ms mbps =>
    simp only [serve]
    rw [hmeasured]
  | outcome succeeded => cases succeeded <;> rfl
  | _ => rfl

/-- The counts of connections add up. -/
theorem connections_serve (r : Request) :
    (s.serve r).1.registry.connectionsSucceeded = s.registry.connectionsSucceeded + r.connections true ∧
      (s.serve r).1.registry.connectionsFailed = s.registry.connectionsFailed + r.connections false := by
  cases r with
  | outcome succeeded => cases succeeded <;> exact ⟨rfl, rfl⟩
  | attempt source now =>
    have hregistry : (s.serve (.attempt source now)).1.registry = s.registry := s.registry_attempt source now
    rw [hregistry]
    exact ⟨rfl, rfl⟩
  | peerAttempt id source now =>
    have hregistry : (s.serve (.peerAttempt id source now)).1.registry = _ := s.registry_peerAttempt id source now
    rw [hregistry]
    unfold welcome Registry.register
    split
    · split <;> exact ⟨rfl, rfl⟩
    · exact ⟨rfl, rfl⟩
  | register id address now =>
    simp only [serve, Registry.register]
    split <;> exact ⟨rfl, rfl⟩
  | latency id ms =>
    simp only [serve, Registry.recordLatency]
    cases checkSample id "latency_ms" ms <;> exact ⟨rfl, rfl⟩
  | throughput id mbps =>
    simp only [serve, Registry.recordThroughput]
    cases checkSample id "throughput_mbps" mbps <;> exact ⟨rfl, rfl⟩
  | link id ms mbps =>
    simp only [serve, Registry.recordLink]
    cases checkSample id "latency_ms" ms with
    | error fault => exact ⟨rfl, rfl⟩
    | ok => cases checkSample id "throughput_mbps" mbps <;> exact ⟨rfl, rfl⟩
  | success | failure | blockPeer | banAddress | liftBan => exact ⟨rfl, rfl⟩

section Unnamed

variable {id address : String}

/-- A peer that a request does not name is left as it is. -/
theorem get?_serve_of_ne (h : q.peer? ≠ some id) : (s.serve q).1.registry.get? id = s.registry.get? id := by
  rw [get?_serve, newcomer?_of_ne h, Option.or_none, funext (servedPeer_of_ne h), Option.map_id']

theorem get?_bans_serve_of_ne (h : q.address? ≠ some address) :
    (s.serve q).1.bans.get? address = s.bans.get? address := by
  rw [get?_bans_serve, Request.banAfter_of_ne h]

theorem get?_attempts_serve_of_ne (h : q.address? ≠ some address) :
    (s.serve q).1.attempts.get? address = s.attempts.get? address := by
  rw [get?_attempts_serve, queueAfter_of_ne h]

/-- What a request makes of an address that the one before it does not name, it makes of it without the one before. -/
theorem get?_bans_serve_after (h : q.address? ≠ some address) (r : Request) :
    ((s.serve q).1.serve r).1.bans.get? address = (s.serve r).1.bans.get? address := by
  rw [get?_bans_serve _ _ r, get?_bans_serve _ _ r, s.get?_bans_serve_of_ne h]

theorem get?_attempts_serve_after (h : q.address? ≠ some address) (r : Request) :
    ((s.serve q).1.serve r).1.attempts.get? address = (s.serve r).1.attempts.get? address := by
  rw [get?_attempts_serve _ _ r, get?_attempts_serve _ _ r]
  exact queueAfter_congr (s.get?_bans_serve_of_ne h) (s.get?_attempts_serve_of_ne h) r

end Unnamed

/-! ## What a request depends on -/

/-- A reply depends on whether the peer is known and on the ban on the address. -/
theorem reply_congr (hknown : ∀ id ∈ r.peer?, s.registry.contains id = t.registry.contains id)
    (hbans : ∀ address ∈ r.address?, s.bans.get? address = t.bans.get? address) : (s.serve r).2 = (t.serve r).2 := by
  have hbanned (source : String) (now : Instant) (hattempt : r.attempt? = some (source, now)) :
      s.isBanned source now = t.isBanned source now :=
    congrArg (·.any (·.inForceAt now)) (hbans source (Request.address?_of_attempt hattempt))
  have hverdict (source : String) (now : Instant) (hattempt : r.attempt? = some (source, now)) :
      (s.serve r).2 = (t.serve r).2 := by
    have heq := hbanned source now hattempt
    cases hs : s.isBanned source now with
    | false => rw [serve_of_free hattempt hs, serve_of_free hattempt (heq.symm.trans hs)]
    | true => rw [serve_of_banned hattempt hs, serve_of_banned hattempt (heq.symm.trans hs)]
  cases r with
  | register id address now | blockPeer id reason duration now =>
    simp only [serve, hknown id rfl]
  | attempt source now | peerAttempt id source now => exact hverdict source now rfl
  | liftBan address =>
    simp only [serve, Directory.contains, hbans address rfl]
  | latency id ms =>
    simp only [serve, Registry.recordLatency]
    cases checkSample id "latency_ms" ms <;> rfl
  | throughput id mbps =>
    simp only [serve, Registry.recordThroughput]
    cases checkSample id "throughput_mbps" mbps <;> rfl
  | link id ms mbps =>
    simp only [serve, Registry.recordLink]
    cases checkSample id "latency_ms" ms with
    | error fault => rfl
    | ok => cases checkSample id "throughput_mbps" mbps <;> rfl
  | outcome | success | failure | banAddress => rfl

/-! ## Requests that are apart -/

section Apart

variable (h : r.Apart q)

include h

/-- After a request that is apart, whatever a request names is as it was. -/
theorem reply_serve : ((s.serve q).1.serve r).2 = (s.serve r).2 := by
  apply reply_congr
  · intro id hid
    exact congrArg Option.isSome (s.get?_serve_of_ne (h.1 id hid))
  · intro address haddress
    exact s.get?_bans_serve_of_ne (h.2 address haddress)

theorem isBanned_serve {source : String} {now : Instant} (hattempt : r.attempt? = some (source, now)) :
    (s.serve q).1.isBanned source now = s.isBanned source now :=
  congrArg (·.any (·.inForceAt now)) (s.get?_bans_serve_of_ne (h.2 source (Request.address?_of_attempt hattempt)))

/-- What a request makes of a peer that the other one does not name, it also makes of it after the other one. -/
theorem get?_serve_after {id : String} (hid : q.peer? ≠ some id) :
    ((s.serve q).1.serve r).1.registry.get? id = (s.serve r).1.registry.get? id := by
  have hbanned (source : String) (now : Instant) (hattempt : r.attempt? = some (source, now)) :
      (s.serve q).1.isBanned source now = s.isBanned source now := s.isBanned_serve h hattempt
  rw [get?_serve _ _ r, get?_serve _ _ r, s.get?_serve_of_ne hid, funext (servedPeer_congr hbanned), newcomer?_congr hbanned]

theorem peers_comm (id : String) :
    ((s.serve r).1.serve q).1.registry.get? id = ((s.serve q).1.serve r).1.registry.get? id := by
  -- At most one of the two requests names the peer.
  by_cases hr : r.peer? = some id
  · have hq : q.peer? ≠ some id := h.1 id hr
    rw [s.get?_serve_after h hq, get?_serve_of_ne _ hq]
  · rw [s.get?_serve_after h.symm hr, get?_serve_of_ne _ hr]

theorem bans_comm (address : String) :
    ((s.serve r).1.serve q).1.bans.get? address = ((s.serve q).1.serve r).1.bans.get? address := by
  by_cases hr : r.address? = some address
  · have hq : q.address? ≠ some address := h.2 address hr
    rw [s.get?_bans_serve_after hq, get?_bans_serve_of_ne _ hq]
  · rw [s.get?_bans_serve_after hr, get?_bans_serve_of_ne _ hr]

theorem attempts_comm (address : String) :
    ((s.serve r).1.serve q).1.attempts.get? address = ((s.serve q).1.serve r).1.attempts.get? address := by
  by_cases hr : r.address? = some address
  · have hq : q.address? ≠ some address := h.2 address hr
    rw [s.get?_attempts_serve_after hq, get?_attempts_serve_of_ne _ hq]
  · rw [s.get?_attempts_serve_after hr, get?_attempts_serve_of_ne _ hr]

/-- **Requests that are apart commute.** -/
theorem serve_comm : ((s.serve r).1.serve q).1 = ((s.serve q).1.serve r).1 := by
  have hregistry : ((s.serve r).1.serve q).1.registry = ((s.serve q).1.serve r).1.registry := by
    apply Registry.ext_get? (s.peers_comm h)
    · rw [(connections_serve _ q).1, (connections_serve _ r).1, (connections_serve _ r).1, (connections_serve _ q).1]
      omega
    · rw [(connections_serve _ q).2, (connections_serve _ r).2, (connections_serve _ r).2, (connections_serve _ q).2]
      omega
  have hattempts : ((s.serve r).1.serve q).1.attempts = ((s.serve q).1.serve r).1.attempts :=
    Directory.ext_get? (s.attempts_comm h)
  have hbans : ((s.serve r).1.serve q).1.bans = ((s.serve q).1.serve r).1.bans :=
    Directory.ext_get? (s.bans_comm h)
  -- The rest of the state is what it was before both.
  have hframe (r q : Request) : ((s.serve r).1.serve q).1 =
      { s with
        registry := ((s.serve r).1.serve q).1.registry
        attempts := ((s.serve r).1.serve q).1.attempts
        bans := ((s.serve r).1.serve q).1.bans } := by
    rw [serve_frame (s.serve r).1 q, s.serve_frame r]
  rw [hframe r q, hframe q r, hregistry, hattempts, hbans]

end Apart

end State

end PeerWarden
