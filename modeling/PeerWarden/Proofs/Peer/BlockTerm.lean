import PeerWarden.Config.Rules
import PeerWarden.Proofs.Cycle.SecurityCycle
import PeerWarden.Proofs.Run.Chronology
import PeerWarden.Proofs.Run.PeerRecord

/-!
# The Term of a Peer Block

A block on a peer with a deadline stands until that deadline. Nothing lifts it earlier, neither a request nor
a cycle; but the record that carries it is not kept for its sake. Only a block without an end protects a peer
from being forgotten, so a completed security cycle that finds the peer idle for longer than the retention
drops the block with the record.

## Main definitions

- `Warden.findsIdle`: a security cycle that forgets a peer with a block on it
- `Warden.BlockIsKept`: what becomes of a block during a run

## Main statements

- `ban_of_step`: an operation before the deadline keeps the block
- `block_kept_until_deadline`: what becomes of a block before its deadline
- `idle_peer_forgotten_before_deadline`: a block may well be lost before its deadline
-/

namespace PeerWarden

/-! ## One operation -/

/-- Only a new block changes the block of a known peer. -/
theorem State.ban_servedPeer (s : State) {id : String} {r : Request}
    (hr : ∀ reason duration now, r ≠ .blockPeer id reason duration now) (p : Peer) :
    (s.servedPeer id r p).ban = p.ban := by
  cases r with
  | blockPeer name reason duration now =>
    have hne : name ≠ id := fun h => hr reason duration now (h ▸ rfl)
    simp [servedPeer, hne]
  | _ =>
    simp only [servedPeer]
    try split
    all_goals rfl

namespace Warden

variable (w : Warden)

/-- Whether a security cycle is completed and finds a peer idle for longer than the retention. -/
def findsIdle (s : Session) (id : String) (now : Instant) : Bool :=
  (w.securityCycle s now).2.isOk &&
    (s.state.registry.get? id).any fun p => decide (w.config.security.peerRetention < p.idleAt now)

/-- No security cycle of a run finds a peer idle for longer than the retention. -/
def NeverIdle (id : String) (s : Session) : List Operation → Prop
  | [] => True
  | op :: ops => (∀ now, op = .securityCycle now → w.findsIdle s id now = false) ∧ NeverIdle id (w.step s op) ops

variable {w} {s : Session} {id : String} {ban : Ban} {p : Peer}

/-- For a peer whose block has an end, to be found idle is to be forgotten by a completed cycle. -/
theorem findsIdle_eq {now : Instant} (hp : s.state.registry.get? id = some p) (hban : p.ban = some ban)
    (hterm : ban.isPermanent = false) : w.findsIdle s id now =
      ((s.state.securityCycle w.config w.classifier s.asked now).report.isOk &&
        p.isForgottenAt now w.config.security.peerRetention) := by
  have hforgotten : p.isForgottenAt now w.config.security.peerRetention =
      decide (w.config.security.peerRetention < p.idleAt now) := by
    simp [Peer.isForgottenAt, Peer.isPermanentlyBlocked, hban, hterm]
  rw [findsIdle, hp, securityCycle_report, hforgotten, Option.any_some]

theorem get?_securityCycle_of_term {now : Instant} (hp : s.state.registry.get? id = some p) (hban : p.ban = some ban)
    (hterm : ban.isPermanent = false) (hnow : ban.overdueAt now = false) :
    (w.securityCycle s now).1.state.registry.get? id =
      if w.findsIdle s id now then none
      else some (s.state.detectedPeer w.config w.classifier s.asked now id p) := by
  rw [findsIdle_eq hp hban hterm, ← State.get?_securityCycle_of_blocked _ _ _ _ _ hp hban hnow,
    securityCycle_state]

theorem ban_blockPeer {reason : String} {duration : Option Span} {now : Instant}
    (hreply : (s.state.serve (.blockPeer id reason duration now)).2 = .effect true) :
    ∃ p, (w.step s (.request (.blockPeer id reason duration now))).state.registry.get? id = some p ∧
      p.ban = some { reason, expires := deadlineAfter? now duration } := by
  have hknown : s.state.registry.contains id = true := Reply.effect.inj hreply
  obtain ⟨p, hp⟩ : ∃ p, s.state.registry.get? id = some p := Option.isSome_iff_exists.mp hknown
  refine ⟨_, get?_step_request hp _, ?_⟩
  simp [State.servedPeer, Peer.block]

theorem isTrusted_of_blocked (hp : s.state.registry.get? id = some p) (hban : p.ban = some ban) (now : Instant) :
    s.state.isTrusted w.config.security id now = false := by
  simp [State.isTrusted, State.trusts, Peer.passes, Peer.isBlocked, hp, hban]

/-- Unless it is overdue, a block stays for as long as its peer is known. -/
theorem ban_of_step_of_remembered {op : Operation} (hp : s.state.registry.get? id = some p) (hban : p.ban = some ban)
    (hfree : ∀ reason duration now, op ≠ .request (.blockPeer id reason duration now))
    (hcycle : ∀ now, op = .securityCycle now → ban.overdueAt now = false ∧
      ((s.state.securityCycle w.config w.classifier s.asked now).report.isOk &&
        p.isForgottenAt now w.config.security.peerRetention) = false) :
    ∃ p', (w.step s op).state.registry.get? id = some p' ∧ p'.ban = some ban := by
  cases op with
  | request r =>
    refine ⟨_, get?_step_request hp r, ?_⟩
    rw [State.ban_servedPeer s.state (fun reason duration now h => hfree reason duration now (h ▸ rfl)), hban]
  | securityCycle now =>
    -- The detectors may lower the trust of the peer, but they leave its block.
    obtain ⟨hnow, hremembered⟩ := hcycle now rfl
    refine ⟨s.state.detectedPeer w.config w.classifier s.asked now id p, ?_, ?_⟩
    · show (w.securityCycle s now).1.state.registry.get? id = _
      rw [securityCycle_state, State.get?_securityCycle_of_blocked _ _ _ _ _ hp hban hnow, hremembered]
      rfl
    · obtain ⟨trust, clusterFlags, hdetected⟩ := s.state.detectedPeer_eq w.config w.classifier s.asked now id p
      rw [hdetected]
      exact hban
  | healthCycle now =>
    refine ⟨_, get?_step_healthCycle hp now, ?_⟩
    split <;> exact hban

/-- An operation before the deadline of a block keeps it, if it does not forget the peer. -/
theorem ban_of_step {op : Operation} (hp : s.state.registry.get? id = some p) (hban : p.ban = some ban)
    (hterm : ban.isPermanent = false) (hnow : ∀ now, op.time? = some now → ban.overdueAt now = false)
    (hfree : ∀ reason duration now, op ≠ .request (.blockPeer id reason duration now))
    (hidle : ∀ now, op = .securityCycle now → w.findsIdle s id now = false) :
    ∃ p', (w.step s op).state.registry.get? id = some p' ∧ p'.ban = some ban := by
  refine ban_of_step_of_remembered hp hban hfree fun now hop => ⟨hnow now (hop ▸ rfl), ?_⟩
  rw [← findsIdle_eq hp hban hterm]
  exact hidle now hop

/-! ## Whole runs -/

/-- A run before the deadline of a block keeps it, if no security cycle finds the peer idle. -/
theorem ban_of_run {ops : List Operation} (hp : s.state.registry.get? id = some p) (hban : p.ban = some ban)
    (hterm : ban.isPermanent = false) (hnow : ∀ now ∈ instants ops, ban.overdueAt now = false)
    (hfree : ∀ reason duration now, .request (.blockPeer id reason duration now) ∉ ops)
    (hidle : w.NeverIdle id s ops) :
    ∃ p', (w.run s ops).state.registry.get? id = some p' ∧ p'.ban = some ban := by
  -- The record changes along the run; only its block is carried through.
  induction ops generalizing s p with
  | nil => exact ⟨p, hp, hban⟩
  | cons op ops ih =>
    obtain ⟨hfirst, hrest⟩ := hidle
    obtain ⟨p', hp', hban'⟩ := ban_of_step (w := w) hp hban hterm
      (fun now htime => hnow now (by simp [instants_cons, htime]))
      (fun reason duration now h => hfree reason duration now (h ▸ List.mem_cons_self)) hfirst
    exact ih hp' hban' (fun now hmem => hnow now (by simp [instants_cons, hmem]))
      (fun reason duration now h => hfree reason duration now (List.mem_cons_of_mem op h)) hrest

variable (w)

/-- What becomes of a block on a peer during a run. -/
structure BlockIsKept (s : Session) (id : String) (ban : Ban) (ops : List Operation) : Prop where
  /-- Until a security cycle finds the peer idle, it stays known and blocked for the same reason and term. -/
  kept : ∀ earlier later, ops = earlier ++ later → w.NeverIdle id s earlier →
    ∃ p, (w.run s earlier).state.registry.get? id = some p ∧ p.ban = some ban
  /-- As long as that holds, the peer is not admitted. -/
  untrusted : ∀ earlier later, ops = earlier ++ later → w.NeverIdle id s earlier →
    ∀ now, (w.run s earlier).state.isTrusted w.config.security id now = false
  /-- The first security cycle that finds the peer idle forgets it, and says so. -/
  forgotten : ∀ earlier now later, ops = earlier ++ .securityCycle now :: later → w.NeverIdle id s earlier →
    w.findsIdle (w.run s earlier) id now = true →
      (w.securityCycle (w.run s earlier) now).1.state.registry.get? id = none ∧
        ∃ report, (w.securityCycle (w.run s earlier) now).2 = .ok report ∧ id ∈ report.forgottenPeers

/-- **A block is kept until its deadline**, unless a completed security cycle finds the peer idle for longer
    than the retention. Nothing else ends a block, and such a cycle always does. -/
theorem block_kept_until_deadline (before after : List Operation) (id reason : String) (duration : Span)
    (now : Instant)
    (hreply : ((w.run w.start before).state.serve (.blockPeer id reason (some duration) now)).2 = .effect true)
    (hlast : now + duration ≤ lastInstant) (hto : NoLaterThan (now + duration) after)
    (hfree : ∀ reason' duration' now', .request (.blockPeer id reason' duration' now') ∉ after) :
    w.BlockIsKept (w.run w.start (before ++ [.request (.blockPeer id reason (some duration) now)])) id
      { reason, expires := some (now + duration) } after := by
  generalize hblock : w.run w.start (before ++ [.request (.blockPeer id reason (some duration) now)]) = s
  obtain ⟨p, hp, hban⟩ : ∃ p, s.state.registry.get? id = some p ∧
      p.ban = some { reason, expires := some (now + duration) } := by
    have hdeadline : deadlineAfter? now (some duration) = some (now + duration) := by
      simp [deadlineAfter?, deadlineAfter, hlast]
    rw [← hblock, run_append, ← hdeadline]
    exact ban_blockPeer (w := w) hreply
  have hnow (t : Instant) (ht : t ∈ instants after) :
      Ban.overdueAt { reason, expires := some (now + duration) } t = false := by
    simpa [Ban.overdueAt] using hto t ht
  -- The part of the run up to some point is again a run before the deadline.
  have hkept (earlier later : List Operation) (hsplit : after = earlier ++ later) (hidle : w.NeverIdle id s earlier) :
      ∃ p, (w.run s earlier).state.registry.get? id = some p ∧
        p.ban = some { reason, expires := some (now + duration) } := by
    refine ban_of_run hp hban rfl (fun t ht => hnow t ?_) (fun reason' duration' now' h => ?_) hidle
    · rw [hsplit, instants_append]
      exact List.mem_append_left _ ht
    · refine hfree reason' duration' now' ?_
      rw [hsplit]
      exact List.mem_append_left _ h
  refine ⟨hkept, fun earlier later hsplit hidle t => ?_, fun earlier t later hsplit hidle hfound => ?_⟩
  · obtain ⟨p', hp', hban'⟩ := hkept earlier later hsplit hidle
    exact isTrusted_of_blocked hp' hban' t
  · obtain ⟨p', hp', hban'⟩ := hkept earlier _ hsplit hidle
    have hbefore : t ∈ instants after := by
      rw [hsplit, instants_append, instants_cons]
      simp [Operation.time?]
    have hnone : (w.securityCycle (w.run s earlier) t).1.state.registry.get? id = none := by
      rw [get?_securityCycle_of_term hp' hban' rfl (hnow t hbefore), hfound, if_pos rfl]
    refine ⟨hnone, ?_⟩
    rw [securityCycle_state] at hnone
    rw [securityCycle_report]
    exact State.forgotten_of_get?_eq_none _ _ _ _ _ hp' hnone

/-- A peer that delivers a block in between keeps a block of ten days. -/
theorem block_kept_ten_days :
    let w := standalone {}
    let day := Span.ofSeconds 86400
    let before : List Operation := [.request (.register "p" "a" 0)]
    let block : Operation := .request (.blockPeer "p" "spam" (some (10 * day)) 0)
    let after : List Operation :=
      [.request (.success "p" (5 * day)), .securityCycle (8 * day), .healthCycle (9 * day)]
    ((w.run w.start before).state.serve (.blockPeer "p" "spam" (some (10 * day)) 0)).2 = .effect true ∧
      (0 : Instant) + (10 * day : Span) ≤ lastInstant ∧ NoLaterThan (0 + (10 * day : Span)) after ∧
      (∀ reason duration now, .request (.blockPeer "p" reason duration now) ∉ after) ∧
      w.NeverIdle "p" (w.run w.start (before ++ [block])) after ∧
      w.BlockIsKept (w.run w.start (before ++ [block])) "p"
        { reason := "spam", expires := some (0 + (10 * day : Span)) } after := by
  intro w day before block after
  have hreply : ((w.run w.start before).state.serve (.blockPeer "p" "spam" (some (10 * day)) 0)).2 = .effect true :=
    congrArg Reply.effect (by decide +kernel)
  have hfree : ∀ reason duration now, .request (.blockPeer "p" reason duration now) ∉ after := by
    intro reason duration now h
    simp [after] at h
  have hidle : w.NeverIdle "p" (w.run w.start (before ++ [block])) after := by
    refine ⟨fun _ h => (nomatch h), fun now h => ?_, fun _ h => (nomatch h), trivial⟩
    cases h
    decide +kernel
  exact ⟨hreply, by decide, by decide, hfree, hidle,
    block_kept_until_deadline w before after "p" "spam" (10 * day) 0 hreply (by decide) (by decide) hfree⟩

/-- A peer that is blocked for a month and silent for more than a week is forgotten, and its block with it. -/
theorem idle_peer_forgotten_before_deadline :
    let w := standalone {}
    let day := Span.ofSeconds 86400
    let before : List Operation := [.request (.register "p" "a" 0)]
    let block : Operation := .request (.blockPeer "p" "spam" (some (30 * day)) 0)
    let after : List Operation := [.securityCycle (8 * day)]
    w.config.isValid = true ∧ Chronological (before ++ block :: after) ∧
      ((w.run w.start before).state.serve (.blockPeer "p" "spam" (some (30 * day)) 0)).2 = .effect true ∧
      (0 : Instant) + (30 * day : Span) ≤ lastInstant ∧ NoLaterThan (0 + (30 * day : Span)) after ∧
      (∀ reason duration now, .request (.blockPeer "p" reason duration now) ∉ after) ∧
      (w.run w.start (before ++ block :: after)).state.registry.get? "p" = none := by
  intro w day before block after
  refine ⟨by decide +kernel, by decide, congrArg Reply.effect (by decide +kernel), by decide, by decide, ?_, ?_⟩
  · intro reason duration now h
    simp [after] at h
  · exact Option.isNone_iff_eq_none.mp (by decide +kernel)

end Warden

end PeerWarden
