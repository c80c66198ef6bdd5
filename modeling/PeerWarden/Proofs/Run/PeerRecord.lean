import PeerWarden.Run.Session

/-!
# Requests and Health Cycles, Peer by Peer

A request concerns at most one peer, and a health cycle only takes peers out of the connected set. Here both
are read as changes of the record of one peer. The security cycle, which touches all peers, is read in the
same way elsewhere.

## Main statements

- `get?_serve`: the record of a peer once a request is served
- `get?_healthCycle`: the record of a peer after a health cycle
- `get?_step_request`, `get?_step_healthCycle`: what becomes of a known peer in such a step
-/

namespace PeerWarden

/-! ## Requests -/

namespace State

variable (s : State) (id : String)

/-- What a request makes of the record of a known peer. -/
def servedPeer (r : Request) (p : Peer) : Peer :=
  match r with
  | .peerAttempt name source now =>
    if name = id ∧ (s.peerAttempt name source now).2 = .accepted then { p with active := true } else p
  | .success name now => if name = id then p.creditBlock now else p
  | .failure name now => if name = id then p.debitBlock now else p
  | .latency name ms => if name = id ∧ (s.registry.recordLatency name ms).isOk then p.withLatency ms else p
  | .throughput name mbps =>
    if name = id ∧ (s.registry.recordThroughput name mbps).isOk then p.withThroughput mbps else p
  | .link name ms mbps =>
    if name = id ∧ (s.registry.recordLink name ms mbps).isOk then (p.withLatency ms).withThroughput mbps else p
  | .blockPeer name reason duration now =>
    if name = id then p.block reason (deadlineAfter? now duration) else p
  | _ => p

/-- The record with which a request makes a peer known. -/
def newcomer? : Request → Option Peer
  | .register name address now => if name = id then some (.new address now) else none
  | .peerAttempt name source now =>
    if name = id ∧ (s.peerAttempt name source now).2 = .accepted then some (.new source now) else none
  | _ => none

theorem get?_adjust_eq (r : Registry) (name : String) (f : Peer → Peer) :
    (r.adjust name f).get? id = (r.get? id).map fun p => if name = id then f p else p := by
  rw [Registry.get?_adjust]
  by_cases h : name = id
  · simp [h]
  · simp [h, Ne.symm h]

/-- A measurement that is not refused is taken over for the peer that it concerns. -/
theorem get?_measured {result : Except Fault Registry} {name : String} {f : Peer → Peer}
    (h : ∀ r, result = .ok r → r = s.registry.adjust name f) :
    (s.measured result).1.registry.get? id =
      (s.registry.get? id).map fun p => if name = id ∧ result.isOk then f p else p := by
  cases result with
  | error fault => simp [measured, Except.isOk, Except.toBool]
  | ok r =>
    rw [h r rfl]
    simpa [measured, Except.isOk, Except.toBool] using get?_adjust_eq id s.registry name f

/-- A known peer that is welcomed is connected, and an unknown one becomes known. -/
theorem get?_welcome (name source : String) (now : Instant) : (s.welcome name source now).registry.get? id =
    ((s.registry.get? id).map fun p => if name = id then { p with active := true } else p).or
      (if name = id then some (.new source now) else none) := by
  unfold welcome
  by_cases hknown : s.registry.contains name = true
  · simp only [hknown, ↓reduceIte]
    rw [Registry.reactivate, get?_adjust_eq]
    by_cases h : name = id
    · obtain ⟨p, hp⟩ := Option.isSome_iff_exists.mp (h ▸ hknown : (s.registry.get? id).isSome = true)
      simp [hp]
    · simp [h]
  · simp only [hknown, Bool.false_eq_true, ↓reduceIte]
    rw [Registry.get?_register]
    have hnone : s.registry.get? name = none := by
      show s.registry.peers.get? name = none
      simpa [Registry.contains, Directory.contains] using hknown
    by_cases h : name = id
    · subst h
      simp [hnone]
    · simp [h, Ne.symm h]

theorem registry_attempt (source : String) (now : Instant) : (s.attempt source now).1.registry = s.registry := by
  unfold attempt
  split <;> rfl

/-- An attempt that names a peer welcomes it, unless it is rejected. -/
theorem registry_peerAttempt (name source : String) (now : Instant) :
    (s.peerAttempt name source now).1.registry =
      if (s.peerAttempt name source now).2 = .accepted then (s.welcome name source now).registry
      else s.registry := by
  unfold peerAttempt
  by_cases hbanned : s.isBanned source now = true
  · simp [hbanned]
  · -- Welcoming a peer does not ban its address, so the attempt that follows is logged.
    have hwelcome : (s.welcome name source now).isBanned source now = s.isBanned source now := rfl
    simp [hbanned, hwelcome, attempt]

/-- What a check lets pass does not depend on the check. -/
theorem eq_of_checked {α : Type} {check : Except Fault Unit} {a b : α}
    (h : (do check; return a : Except Fault α) = .ok b) : b = a := by
  cases check with
  | error fault => cases h
  | ok => exact (Except.ok.inj h).symm

/-- The record of a peer once a request is served. -/
theorem get?_serve (r : Request) : (s.serve r).1.registry.get? id =
    ((s.registry.get? id).map (s.servedPeer id r)).or (s.newcomer? id r) := by
  -- Requests about attempts, bans and outcomes leave every record alone.
  have hunchanged : s.registry.get? id = ((s.registry.get? id).map fun p => p).or none := by simp
  cases r with
  | attempt source now =>
    show (s.attempt source now).1.registry.get? id = _
    rw [registry_attempt]
    exact hunchanged
  | register name address now =>
    show (s.registry.register name address now).get? id =
      ((s.registry.get? id).map fun p => p).or (if name = id then some (.new address now) else none)
    rw [Registry.get?_register]
    by_cases h : name = id
    · subst h
      cases s.registry.get? name <;> simp
    · simp [h, Ne.symm h]
  | peerAttempt name source now =>
    show (s.peerAttempt name source now).1.registry.get? id = _
    rw [registry_peerAttempt]
    unfold servedPeer newcomer?
    by_cases haccepted : (s.peerAttempt name source now).2 = .accepted
    · simpa only [haccepted, ↓reduceIte, and_true] using s.get?_welcome id name source now
    · simpa only [haccepted, ↓reduceIte, and_false] using hunchanged
  | success name now =>
    exact (get?_adjust_eq id s.registry name (·.creditBlock now)).trans Option.or_none.symm
  | failure name now =>
    exact (get?_adjust_eq id s.registry name (·.debitBlock now)).trans Option.or_none.symm
  | blockPeer name reason duration now =>
    exact (get?_adjust_eq id s.registry name (·.block reason (deadlineAfter? now duration))).trans Option.or_none.symm
  | latency name ms =>
    exact (s.get?_measured id fun r hr => eq_of_checked hr).trans Option.or_none.symm
  | throughput name mbps =>
    exact (s.get?_measured id fun r hr => eq_of_checked hr).trans Option.or_none.symm
  | link name ms mbps =>
    refine (s.get?_measured id fun r hr => ?_).trans Option.or_none.symm
    -- Both samples are checked before either is taken over.
    unfold Registry.recordLink at hr
    cases hfirst : checkSample name "latency_ms" ms with
    | error fault =>
      rw [hfirst] at hr
      cases hr
    | ok =>
      rw [hfirst] at hr
      exact eq_of_checked hr
  | outcome succeeded =>
    cases succeeded <;> exact hunchanged
  | banAddress | liftBan => exact hunchanged

end State

/-! ## Health cycles -/

namespace Warden

variable (w : Warden) (s : Session) (now : Instant)

/-- The peers that a health cycle takes out of the connected set. -/
def evictedBy : List String :=
  match (w.healthCycle s now).2 with
  | .ok report => report.pool.evicted
  | .error _ => []

theorem get?_healthCycle (id : String) : (w.healthCycle s now).1.state.registry.get? id =
    (s.state.registry.get? id).map fun p => if id ∈ w.evictedBy s now then { p with active := false } else p := by
  cases hsample : (w.sample s).2 with
  | error fault =>
    -- Without figures of the host nobody is evicted.
    have hcycle : w.healthCycle s now = ((w.sample s).1, .error fault) := by simp only [healthCycle, hsample]
    have hnobody : w.evictedBy s now = [] := by rw [evictedBy, hcycle]
    have hstate : (w.sample s).1.state = s.state := rfl
    rw [hnobody, hcycle, hstate]
    simp
  | ok usage =>
    have hregistry : (w.healthCycle s now).1.state.registry =
        s.state.registry.evictAll (s.state.healthCycle w.config usage now).2.pool.evicted := by
      simp only [healthCycle, hsample]
      rfl
    have hevicted : w.evictedBy s now = (s.state.healthCycle w.config usage now).2.pool.evicted := by
      simp only [evictedBy, healthCycle, hsample]
    rw [hregistry, hevicted]
    exact Registry.get?_map ..

/-! ## Single steps -/

variable {w s} {id : String} {p : Peer}

/-- A request leaves every known peer known. -/
theorem get?_step_request (hp : s.state.registry.get? id = some p) (r : Request) :
    (w.step s (.request r)).state.registry.get? id = some (s.state.servedPeer id r p) := by
  show (s.state.serve r).1.registry.get? id = _
  rw [State.get?_serve, hp]
  rfl

/-- So does a health cycle. -/
theorem get?_step_healthCycle (hp : s.state.registry.get? id = some p) (now : Instant) :
    (w.step s (.healthCycle now)).state.registry.get? id =
      some (if id ∈ w.evictedBy s now then { p with active := false } else p) := by
  show (w.healthCycle s now).1.state.registry.get? id = _
  rw [get?_healthCycle, hp]
  rfl

end Warden

end PeerWarden
