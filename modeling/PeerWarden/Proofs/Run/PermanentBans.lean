import PeerWarden.Proofs.Admission.BanTerm
import PeerWarden.Proofs.Peer.BlockTerm

/-!
# Permanent Bans

A block or a ban without an end outlasts everything but a new decision: every operation, at whatever time the
clock may show, every cycle that breaks off, and the forgetting of the peer. For addresses this rests on an
invariant that no single operation shows, `Session.Sealed`: an address under a permanent ban has no logged
attempts. If it had any, the search for floods could set a ban with a deadline over the permanent one.

## Main definitions

- `Session.Sealed`: no attempts are logged from an address under a permanent ban
- `Warden.ShutOut`: what a permanent ban means for an address in one state

## Main statements

- `step_sealed`, `run_sealed`: every operation and every run keep the invariant
- `run_permanentBlock`, `run_permanentBan`: a run keeps a permanent block and a permanent ban
- `permanent_bans_last`: what permanent blocks and bans mean, from any state that a run can reach
-/

namespace PeerWarden

/-- From an address under a permanent ban, no attempts are logged. -/
def Session.Sealed (s : Session) : Prop :=
  ∀ address ban, s.state.bans.get? address = some ban → ban.expires = none → s.state.attempts.get? address = none

namespace Ban

variable {ban : Ban} (now : Instant)

theorem inForceAt_of_permanent (h : ban.expires = none) : ban.inForceAt now = true := by
  simp [inForceAt, h]

theorem overdueAt_of_permanent (h : ban.expires = none) : ban.overdueAt now = false := by
  simp [overdueAt, h]

end Ban

namespace Warden

variable (w : Warden) {s : Session} {address id : String} {ban : Ban} {p : Peer}

/-! ## Blocks on peers -/

/-- Nobody is forgotten whose block is permanent. -/
theorem step_permanentBlock {op : Operation} (hp : s.state.registry.get? id = some p) (hban : p.ban = some ban)
    (hperm : ban.expires = none) (hfree : ∀ reason duration now, op ≠ .request (.blockPeer id reason duration now)) :
    ∃ p', (w.step s op).state.registry.get? id = some p' ∧ p'.ban = some ban := by
  refine ban_of_step_of_remembered hp hban hfree fun now _ => ⟨Ban.overdueAt_of_permanent now hperm, ?_⟩
  simp [Peer.isForgottenAt, Peer.isPermanentlyBlocked, Ban.isPermanent, hban, hperm]

theorem run_permanentBlock {ops : List Operation} (hp : s.state.registry.get? id = some p) (hban : p.ban = some ban)
    (hperm : ban.expires = none) (hfree : ∀ reason duration now, .request (.blockPeer id reason duration now) ∉ ops) :
    ∃ p', (w.run s ops).state.registry.get? id = some p' ∧ p'.ban = some ban := by
  -- The record changes along the run; only its block is carried through.
  refine run_preserves (fun s => ∃ p, s.state.registry.get? id = some p ∧ p.ban = some ban) ?_ ⟨p, hp, hban⟩
  rintro s ⟨p', hp', hban'⟩ op hop
  exact w.step_permanentBlock hp' hban' hperm fun reason duration now h => hfree reason duration now (h ▸ hop)

/-! ## Bans on addresses -/

/-- A permanent ban with nothing logged is held at any time, so no order of the clock is needed. -/
theorem step_permanentBan (op : Operation) (hban : s.state.bans.get? address = some ban)
    (hsilent : s.state.attempts.get? address = none) (hperm : ban.expires = none)
    (hfree : op.overrides address = false) :
    (w.step s op).state.bans.get? address = some ban ∧ (w.step s op).state.attempts.get? address = none := by
  have hheld : s.state.Held address ban (op.time?.getD 0) := ⟨.inl hban, hsilent⟩
  have hkept := w.step_held op hheld (fun t ht => by simp [ht]) hfree
    fun _ t _ _ => Ban.inForceAt_of_permanent t hperm
  exact ⟨hkept.get?_bans (Ban.inForceAt_of_permanent _ hperm), hkept.silent⟩

theorem run_permanentBan {ops : List Operation} (hban : s.state.bans.get? address = some ban)
    (hsilent : s.state.attempts.get? address = none) (hperm : ban.expires = none)
    (hfree : ∀ op ∈ ops, op.overrides address = false) :
    (w.run s ops).state.bans.get? address = some ban ∧ (w.run s ops).state.attempts.get? address = none := by
  refine run_preserves (fun s => s.state.bans.get? address = some ban ∧ s.state.attempts.get? address = none) ?_
    ⟨hban, hsilent⟩
  rintro s ⟨hban', hsilent'⟩ op hop
  exact w.step_permanentBan op hban' hsilent' hperm (hfree op hop)

/-! ## The invariant -/

/-- A ban that an operation does not set was there before, and the operation does not override it. -/
theorem get?_bans_of_not_banSet {op : Operation} (hset : w.banSet? s address op = none)
    (hban : (w.step s op).state.bans.get? address = some ban) :
    s.state.bans.get? address = some ban ∧ op.overrides address = false := by
  cases op with
  | request r =>
    have hafter : r.banAfter address (s.state.bans.get? address) = some ban :=
      (s.state.get?_bans_serve address r).symm.trans hban
    cases r with
    | banAddress target reason duration now =>
      have hother : target ≠ address := fun h => by simp [banSet?, h] at hset
      rw [Request.banAfter, if_neg hother] at hafter
      exact ⟨hafter, decide_eq_false hother⟩
    | liftBan target =>
      have hother : target ≠ address := fun h => by simp [Request.banAfter, h] at hafter
      rw [Request.banAfter, if_neg hother] at hafter
      exact ⟨hafter, decide_eq_false hother⟩
    | _ => exact ⟨hafter, rfl⟩
  | securityCycle now =>
    have hnot : w.bansAt s now address = false := by simpa [banSet?] using hset
    rw [get?_bans_step, w.get?_bans_floods_of_not_bansAt hnot] at hban
    exact ⟨(Option.filter_eq_some_iff.mp hban).1, rfl⟩
  | healthCycle now => exact ⟨(w.bans_healthCycle s now) ▸ hban, rfl⟩

/-- Whoever is banned for good loses the logged attempts with the ban and gets none while it lasts. -/
theorem step_sealed (h : s.Sealed) (op : Operation) : (w.step s op).Sealed := by
  intro address ban hban hperm
  cases hset : w.banSet? s address op with
  | some ban' =>
    obtain ⟨_, -, hheld⟩ := w.held_of_banSet hset
    exact hheld.silent
  | none =>
    obtain ⟨hbefore, hfree⟩ := w.get?_bans_of_not_banSet hset hban
    exact (w.step_permanentBan op hbefore (h address ban hbefore hperm) hperm hfree).2

theorem run_sealed (h : s.Sealed) (ops : List Operation) : (w.run s ops).Sealed :=
  run_preserves Session.Sealed (fun _ hs op _ => w.step_sealed hs op) h

theorem start_sealed : w.start.Sealed := nofun

/-! ## What it means -/

/-- An address is shut out by a permanent ban. -/
structure ShutOut (s : Session) (address : String) (ban : Ban) : Prop where
  banned : s.state.bans.get? address = some ban
  silent : s.state.attempts.get? address = none
  rejected : ∀ r now, r.attempt? = some (address, now) → s.state.serve r = (s.state, .admission .rejected)
  /-- A security cycle neither replaces the ban nor sweeps it, and has nothing to say about the address. -/
  cycle : ∀ now, (w.securityCycle s now).1.state.bans.get? address = some ban ∧
    w.bansAt s now address = false ∧ ∀ report, (w.securityCycle s now).2 = .ok report →
      address ∉ report.blockedAddresses ∧ address ∉ report.expiredBans ∧
        ∀ e ∈ report.events, e.attack = .dos → e.subject ≠ address

theorem shutOut_of_permanent (hban : s.state.bans.get? address = some ban)
    (hsilent : s.state.attempts.get? address = none) (hperm : ban.expires = none) : w.ShutOut s address ban := by
  have hheld (now : Instant) : s.state.Held address ban now := ⟨.inl hban, hsilent⟩
  have hforce (now : Instant) : ban.inForceAt now = true := Ban.inForceAt_of_permanent now hperm
  refine ⟨hban, hsilent, fun r now hattempt => (hheld now).serve_of_inForce (hforce now) hattempt, fun now => ?_⟩
  exact ⟨(w.step_permanentBan (.securityCycle now) hban hsilent hperm rfl).1,
    w.not_mentioned_of_held (hheld now) (hforce now)⟩

/-- What permanent blocks and bans mean from some state on. -/
structure PermanentBansLast (s : Session) : Prop where
  /-- A peer that is blocked for good stays known, blocked and untrusted until it is blocked anew. -/
  peers : ∀ id p ban, s.state.registry.get? id = some p → p.ban = some ban → ban.expires = none →
    ∀ ops, (∀ reason duration now, .request (.blockPeer id reason duration now) ∉ ops) →
      (∃ p', (w.run s ops).state.registry.get? id = some p' ∧ p'.ban = some ban) ∧
        ∀ now, (w.run s ops).state.isTrusted w.config.security id now = false
  /-- An address that is banned for good stays shut out until its ban is set or lifted by hand. -/
  addresses : ∀ address ban, s.state.bans.get? address = some ban → ban.expires = none →
    ∀ ops, (∀ op ∈ ops, op.overrides address = false) → w.ShutOut (w.run s ops) address ban
  /-- A block is permanent if it is asked for without a duration or with one past the last instant. -/
  block_without_end : ∀ id reason (duration : Option Span) now,
    (s.state.serve (.blockPeer id reason duration now)).2 = .effect true →
    (∀ span, duration = some span → lastInstant < now + span) →
      ∃ p, (w.step s (.request (.blockPeer id reason duration now))).state.registry.get? id = some p ∧
        p.ban = some { reason, expires := none }
  ban_without_end : ∀ address reason (duration : Option Span) now,
    (∀ span, duration = some span → lastInstant < now + span) →
      (w.step s (.request (.banAddress address reason duration now))).state.bans.get? address =
        some { reason, expires := none }
  /-- So is a ban for a flood, if its configured end lies past the last instant. -/
  flood_without_end : ∀ address now, w.bansAt s now address = true →
    lastInstant < now + w.config.dosProtection.blacklistDuration →
      (w.step s (.securityCycle now)).state.bans.get? address = some { reason := "DoS attack", expires := none }

/-- **Permanent bans last**, from every state that a run can reach and through every run from there. -/
theorem permanent_bans_last (before : List Operation) : w.PermanentBansLast (w.run w.start before) := by
  have hsealed := w.run_sealed w.start_sealed before
  generalize w.run w.start before = s at hsealed
  constructor
  case peers =>
    intro id p ban hp hban hperm ops hfree
    obtain ⟨p', hp', hban'⟩ := w.run_permanentBlock hp hban hperm hfree
    exact ⟨⟨p', hp', hban'⟩, isTrusted_of_blocked hp' hban'⟩
  case addresses =>
    intro address ban hban hperm ops hfree
    obtain ⟨hban', hsilent'⟩ := w.run_permanentBan hban (hsealed address ban hban hperm) hperm hfree
    exact w.shutOut_of_permanent hban' hsilent' hperm
  case block_without_end =>
    intro id reason duration now hreply hend
    rw [← deadlineAfter?_eq_none_iff.mpr hend]
    exact ban_blockPeer hreply
  case ban_without_end =>
    intro address reason duration now hend
    rw [← deadlineAfter?_eq_none_iff.mpr hend]
    exact (s.state.get?_bans_serve address _).trans (if_pos rfl)
  case flood_without_end =>
    intro address now hbans hend
    have hexpires : (Flood.ban w.config.dosProtection now).expires = none := deadlineAfter_eq_none_iff.mpr hend
    have hset : w.banSet? s address (.securityCycle now) = some (Flood.ban w.config.dosProtection now) := by
      simp [banSet?, hbans]
    obtain ⟨_, -, hheld⟩ := w.held_of_banSet hset
    rw [← hexpires]
    exact hheld.get?_bans (Ban.inForceAt_of_permanent _ hexpires)

end Warden

end PeerWarden
