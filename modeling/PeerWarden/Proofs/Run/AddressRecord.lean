import PeerWarden.Run.Session

/-!
# Requests and Health Cycles, Address by Address

Bans and logged attempts are kept by address. Here a request is read as a change of what is kept under one
address, and a health cycle as no change at all. The security cycle is read in the same way elsewhere.

## Main definitions

- `Request.attempt?`: the attempt to connect that a request reports, with or without a peer
- `Request.banAfter`, `State.queueAfter`: what a request makes of a ban and of the attempts of an address

## Main statements

- `serve_of_free`, `serve_of_banned`: an attempt is accepted or leaves no trace, as its source is free or banned
- `get?_bans_serve`, `get?_attempts_serve`: bans and attempts once a request is served
-/

namespace PeerWarden

/-- The attempt to connect that a request reports: where it comes from, and when. -/
def Request.attempt? : Request → Option (String × Instant)
  | .attempt source now | .peerAttempt _ source now => some (source, now)
  | _ => none

/-- What a request makes of the ban on an address. -/
def Request.banAfter (address : String) (ban? : Option Ban) : Request → Option Ban
  | .banAddress target reason duration now =>
    if target = address then some { reason, expires := deadlineAfter? now duration } else ban?
  | .liftBan target => if target = address then none else ban?
  | _ => ban?

namespace State

variable (s : State) (address : String)

/-- What a request makes of the logged attempts of an address. -/
def queueAfter : Request → Option (List Instant)
  | .attempt source now | .peerAttempt _ source now =>
    if source = address ∧ s.isBanned source now = false then some (now :: s.attempts.of address)
    else s.attempts.get? address
  | .banAddress target _ _ _ => if target = address then none else s.attempts.get? address
  | _ => s.attempts.get? address

/-! ## Attempts -/

section Attempts

variable {s} {source : String} {now : Instant} {r : Request}

theorem attempt_accepted_iff : (s.attempt source now).2 = .accepted ↔ s.isBanned source now = false := by
  unfold attempt
  by_cases hbanned : s.isBanned source now = true <;> simp [hbanned]

/-- Whether an attempt names a peer makes no difference to the verdict. -/
theorem peerAttempt_accepted_iff {id : String} :
    (s.peerAttempt id source now).2 = .accepted ↔ s.isBanned source now = false := by
  -- To be welcomed changes no ban, so the second look at the bans agrees with the first.
  have hwelcome : (s.welcome id source now).isBanned source now = s.isBanned source now := rfl
  unfold peerAttempt
  by_cases hbanned : s.isBanned source now = true
  · simp [hbanned]
  · rw [if_neg hbanned, attempt_accepted_iff, hwelcome]

theorem serve_of_free (h : r.attempt? = some (source, now)) (hfree : s.isBanned source now = false) :
    (s.serve r).2 = .admission .accepted := by
  cases r with
  | attempt source' now' =>
    obtain ⟨rfl, rfl⟩ := Prod.mk.inj (Option.some.inj h)
    exact congrArg Reply.admission (attempt_accepted_iff.mpr hfree)
  | peerAttempt id source' now' =>
    obtain ⟨rfl, rfl⟩ := Prod.mk.inj (Option.some.inj h)
    exact congrArg Reply.admission (peerAttempt_accepted_iff.mpr hfree)
  | _ => cases h

/-- A rejected attempt leaves no trace. -/
theorem serve_of_banned (h : r.attempt? = some (source, now)) (hbanned : s.isBanned source now = true) :
    s.serve r = (s, .admission .rejected) := by
  cases r with
  | attempt source' now' =>
    obtain ⟨rfl, rfl⟩ := Prod.mk.inj (Option.some.inj h)
    simp [serve, judged, attempt, hbanned]
  | peerAttempt id source' now' =>
    obtain ⟨rfl, rfl⟩ := Prod.mk.inj (Option.some.inj h)
    simp [serve, judged, peerAttempt, hbanned]
  | _ => cases h

end Attempts

/-! ## Bans -/

theorem bans_attempt (source : String) (now : Instant) : (s.attempt source now).1.bans = s.bans := by
  unfold attempt
  split <;> rfl

theorem bans_measured (result : Except Fault Registry) : (s.measured result).1.bans = s.bans := by
  cases result <;> rfl

/-- The ban on an address once a request is served. -/
theorem get?_bans_serve (r : Request) :
    (s.serve r).1.bans.get? address = r.banAfter address (s.bans.get? address) := by
  cases r with
  | attempt source now => exact congrArg (·.get? address) (s.bans_attempt source now)
  | peerAttempt id source now =>
    simp only [serve, judged, peerAttempt, Request.banAfter]
    split
    · rfl
    · exact congrArg (·.get? address) ((s.welcome id source now).bans_attempt source now)
  | latency id ms => exact congrArg (·.get? address) (s.bans_measured _)
  | throughput id mbps => exact congrArg (·.get? address) (s.bans_measured _)
  | link id ms mbps => exact congrArg (·.get? address) (s.bans_measured _)
  | banAddress target reason duration now =>
    simp only [serve, banAddress, Directory.get?_insert, Request.banAfter, eq_comm]
  | liftBan target =>
    simp only [serve, liftBan, Directory.get?_erase, Request.banAfter, eq_comm]
  | register | outcome | success | failure | blockPeer => rfl

/-! ## Logged attempts -/

theorem get?_attempts_attempt (source : String) (now : Instant) :
    (s.attempt source now).1.attempts.get? address =
      if source = address ∧ s.isBanned source now = false then some (now :: s.attempts.of address)
      else s.attempts.get? address := by
  unfold attempt
  by_cases hbanned : s.isBanned source now = true
  · simp [hbanned]
  · by_cases h : source = address
    · subst h
      simp [hbanned, AttemptLog.record]
    · simp [hbanned, h, Ne.symm h, AttemptLog.record]

theorem attempts_measured (result : Except Fault Registry) : (s.measured result).1.attempts = s.attempts := by
  cases result <;> rfl

/-- The logged attempts of an address once a request is served. -/
theorem get?_attempts_serve (r : Request) : (s.serve r).1.attempts.get? address = s.queueAfter address r := by
  cases r with
  | attempt source now => exact s.get?_attempts_attempt address source now
  | peerAttempt id source now =>
    -- A banned source is turned away before the peer is welcomed; after the welcome it is an attempt like any other.
    have hwelcome : (s.welcome id source now).isBanned source now = s.isBanned source now := rfl
    have hlogs : (s.welcome id source now).attempts = s.attempts := rfl
    have hattempt := (s.welcome id source now).get?_attempts_attempt address source now
    rw [hwelcome, hlogs] at hattempt
    simp only [serve, judged, peerAttempt, queueAfter]
    by_cases hbanned : s.isBanned source now = true
    · simp [hbanned]
    · rw [if_neg hbanned, hattempt]
  | latency id ms => exact congrArg (·.get? address) (s.attempts_measured _)
  | throughput id mbps => exact congrArg (·.get? address) (s.attempts_measured _)
  | link id ms mbps => exact congrArg (·.get? address) (s.attempts_measured _)
  | banAddress target reason duration now =>
    simp only [serve, banAddress, Directory.get?_erase, queueAfter, eq_comm]
  | register | outcome | success | failure | blockPeer | liftBan => rfl

end State

/-! ## Health cycles -/

namespace Warden

variable (w : Warden) (s : Session) (now : Instant)

theorem bans_healthCycle : (w.healthCycle s now).1.state.bans = s.state.bans := by
  simp only [healthCycle]
  split <;> rfl

theorem attempts_healthCycle : (w.healthCycle s now).1.state.attempts = s.state.attempts := by
  simp only [healthCycle]
  split <;> rfl

end Warden

end PeerWarden
