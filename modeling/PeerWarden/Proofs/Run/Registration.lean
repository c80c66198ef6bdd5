import Mathlib.Data.List.Induction
import PeerWarden.Proofs.Cycle.SecurityCycle
import PeerWarden.Proofs.Run.RequestScope

/-!
# From Registration to Forgetting

A peer is known from the operation that registers it until a security cycle forgets it, and it may come and go more
than once in a run. A known peer therefore has a latest registration. What is told of the peer starts there: the
operations before it are about an earlier peer of that name, or about none.

## Main definitions

- `Warden.registration?`: from where and when an operation registers a peer
- `Warden.KnownSince`: a run with the latest registration of a peer singled out

## Main statements

- `exists_knownSince`: every known peer has a latest registration
- `get?_step_of_unknown`: a peer becomes known by a registration, and with a new record
- `get?_step_eq_none_iff`: a peer disappears in the security cycles that report it as forgotten
- `Peer.ban_reviewed`: which blocks the reputation pass lifts
- `mem_forgottenPeers_iff`: whom a security cycle forgets
-/

namespace PeerWarden

/-- Whether a peer is known in a session. -/
def Session.knows (s : Session) (id : String) : Bool := s.state.registry.contains id

theorem Session.knows_iff {s : Session} {id : String} : s.knows id = true ↔ ∃ p, s.state.registry.get? id = some p :=
  Option.isSome_iff_exists

theorem Session.not_knows_iff {s : Session} {id : String} :
    s.knows id = false ↔ s.state.registry.get? id = none :=
  Option.isSome_eq_false_iff.trans Option.isNone_iff_eq_none

namespace Warden

variable (w : Warden) {s : Session} {id : String} {p : Peer}

/-! ## Registration -/

/-- From where and when an operation registers a peer that is not known: by name, or by an attempt that is accepted. -/
def registration? (s : Session) (id : String) : Operation → Option (String × Instant)
  | .request (.register name address now) => if name = id then some (address, now) else none
  | .request (.peerAttempt name source now) =>
    if name = id ∧ (s.state.peerAttempt name source now).2 = .accepted then some (source, now) else none
  | _ => none

/-- A peer becomes known by a registration, and with a new record. -/
theorem get?_step_of_unknown (hp : s.state.registry.get? id = none) (op : Operation) :
    (w.step s op).state.registry.get? id = (registration? s id op).map fun e => .new e.1 e.2 := by
  cases op with
  | request r =>
    show (s.state.serve r).1.registry.get? id = _
    rw [State.get?_serve, hp, Option.map_none, Option.none_or]
    cases r with
    | register | peerAttempt =>
      simp only [State.newcomer?, registration?]
      split <;> rfl
    | _ => rfl
  | securityCycle now =>
    show (w.securityCycle s now).1.state.registry.get? id = none
    rw [securityCycle_state, State.get?_securityCycle, hp]
    cases (s.state.detect w.config w.classifier s.asked now).crash <;> rfl
  | healthCycle now =>
    show (w.healthCycle s now).1.state.registry.get? id = none
    rw [get?_healthCycle, hp]
    rfl

/-- A run with the latest registration of a peer singled out: it is not known before, and known from then on. -/
structure KnownSince (id : String) (ops earlier : List Operation) (op : Operation) (later : List Operation) : Prop where
  split : ops = earlier ++ op :: later
  unknown : (w.run w.start earlier).knows id = false
  known : ∀ since, since <+: later → (w.run w.start (earlier ++ op :: since)).knows id = true

/-- Every known peer has a latest registration. -/
theorem exists_knownSince {ops : List Operation} (h : (w.run w.start ops).knows id = true) :
    ∃ earlier op later, w.KnownSince id ops earlier op later := by
  -- The run is taken apart from its end, where the peer is known.
  induction ops using List.reverseRecOn with
  | nil => cases h
  | append_singleton ops last ih =>
    cases hbefore : (w.run w.start ops).knows id with
    | false =>
      refine ⟨ops, last, [], rfl, hbefore, fun since hsince => ?_⟩
      rw [List.prefix_nil.mp hsince]
      exact h
    | true =>
      obtain ⟨earlier, op, later, hsplit, hunknown, hknown⟩ := ih hbefore
      refine ⟨earlier, op, later ++ [last], by simp [hsplit], hunknown, fun since hsince => ?_⟩
      rcases List.prefix_concat_iff.mp hsince with rfl | hsince
      · have hall : earlier ++ op :: (later ++ [last]) = ops ++ [last] := by simp [hsplit]
        rw [hall]
        exact h
      · exact hknown since hsince

namespace KnownSince

variable {w} {ops earlier later : List Operation} {op : Operation} (h : w.KnownSince id ops earlier op later)

include h

/-- The registration leaves a new record. -/
theorem exists_registration : ∃ address now, registration? (w.run w.start earlier) id op = some (address, now) ∧
    (w.step (w.run w.start earlier) op).state.registry.get? id = some (.new address now) := by
  have hstep := w.get?_step_of_unknown (Session.not_knows_iff.mp h.unknown) op
  have hknown := h.known [] List.nil_prefix
  rw [run_append] at hknown
  obtain ⟨p, hp⟩ := Session.knows_iff.mp hknown
  have hregistered := hstep.symm.trans hp
  obtain ⟨⟨address, now⟩, hregistration, -⟩ := Option.map_eq_some_iff.mp hregistered
  rw [hregistration] at hstep
  exact ⟨address, now, hregistration, hstep⟩

theorem run_later : w.run (w.step (w.run w.start earlier) op) later = w.run w.start ops := by
  rw [h.split, run_append, run_cons]

theorem knows_later : ∀ since, since <+: later → (w.run (w.step (w.run w.start earlier) op) since).knows id = true := by
  intro since hsince
  have hknown := h.known since hsince
  rwa [run_append, run_cons] at hknown

end KnownSince

end Warden

/-! ## Forgetting -/

/-- What a security cycle leaves of the record of a peer that is still known. -/
theorem State.exists_of_get?_securityCycle (s : State) (cfg : Config) (model : Option Classifier)
    (asked : List Features) (now : Instant) {id : String} {p p' : Peer} (hp : s.registry.get? id = some p)
    (h : (s.securityCycle cfg model asked now).state.registry.get? id = some p') :
    ∃ trust ban, p' = { s.detectedPeer cfg model asked now id p with trust, ban } := by
  rw [State.get?_securityCycle, hp] at h
  split at h
  · obtain rfl := Option.some.inj h
    exact ⟨_, _, rfl⟩
  · obtain ⟨hmap, -⟩ := Option.filter_eq_some_iff.mp h
    obtain rfl := Option.some.inj hmap
    exact Peer.reviewed_eq ..

namespace Peer

variable (p : Peer) (now : Instant)

/-- The reputation pass lifts the blocks that are overdue, and no others. -/
theorem ban_reviewed (idleDecayAfter : Span) :
    (p.reviewed now idleDecayAfter).ban = if p.isOverdueAt now then none else p.ban := by
  unfold reviewed
  cases hban : p.ban with
  | none =>
    have hfree : p.isBlocked = false := by simp [isBlocked, hban]
    rw [hfree]
    simp only [Bool.false_eq_true, ↓reduceIte, decay, reassess]
    split <;> split <;> simp [scaleTrust, withTrust, hban]
  | some ban =>
    have hblocked : p.isBlocked = true := by simp [isBlocked, hban]
    rw [if_pos hblocked]
    split
    · rfl
    · exact hban

/-- It lifts no block that has no end. -/
theorem isPermanentlyBlocked_reviewed (idleDecayAfter : Span) :
    (p.reviewed now idleDecayAfter).isPermanentlyBlocked = p.isPermanentlyBlocked := by
  rw [isPermanentlyBlocked, ban_reviewed]
  split
  · next hoverdue =>
    cases hban : p.ban with
    | none => simp [isPermanentlyBlocked, hban]
    | some ban =>
      -- Only what has a deadline can be overdue.
      obtain ⟨deadline, hexpires, -⟩ := Ban.overdueAt_iff.mp (by simpa [isOverdueAt, hban] using hoverdue)
      simp [isPermanentlyBlocked, hban, Ban.isPermanent, hexpires]
  · rfl

end Peer

/-- A security cycle that completes forgets a peer by the record that it found. -/
theorem State.isForgottenAt_reviewedPeer (s : State) (cfg : Config) (model : Option Classifier)
    (asked : List Features) (now : Instant) (id : String) (p : Peer) (retention : Span) :
    (s.reviewedPeer cfg model asked now id p).isForgottenAt now retention = p.isForgottenAt now retention := by
  obtain ⟨trust, clusterFlags, hdetected⟩ := s.detectedPeer_eq cfg model asked now id p
  obtain ⟨trust', ban, hreviewed⟩ := Peer.reviewed_eq now cfg.security.idleDecayAfter
    (s.detectedPeer cfg model asked now id p)
  unfold Peer.isForgottenAt reviewedPeer
  rw [Peer.isPermanentlyBlocked_reviewed, hreviewed, hdetected]
  rfl

namespace Warden

variable {w : Warden} {s : Session} {id : String} {p : Peer} (hp : s.state.registry.get? id = some p)

include hp

/-- Whom a security cycle forgets: who was idle for longer than the retention and is not blocked for good. -/
theorem mem_forgottenPeers_iff {now : Instant} {report : ThreatReport} (h : (w.securityCycle s now).2 = .ok report) :
    id ∈ report.forgottenPeers ↔
      w.config.security.peerRetention < p.idleAt now ∧ p.isPermanentlyBlocked = false := by
  rw [securityCycle_report] at h
  obtain ⟨-, -, -, hforgotten⟩ := State.securityCycle_eq_ok _ _ _ _ _ h
  rw [hforgotten, Registry.mem_forgotten_iff, State.get?_reviewed, hp]
  simp only [Option.map_some, Option.some.injEq, exists_eq_left', State.isForgottenAt_reviewedPeer]
  simp [Peer.isForgottenAt]

/-- A known peer disappears in the security cycles that report it as forgotten, and in nothing else. -/
theorem get?_step_eq_none_iff (op : Operation) : (w.step s op).state.registry.get? id = none ↔
    ∃ now report, op = .securityCycle now ∧ (w.securityCycle s now).2 = .ok report ∧ id ∈ report.forgottenPeers := by
  cases op with
  | request r =>
    rw [get?_step_request hp]
    simp
  | healthCycle now =>
    rw [get?_step_healthCycle hp]
    simp
  | securityCycle now =>
    have hstep : (w.step s (.securityCycle now)).state = _ := w.securityCycle_state s now
    rw [hstep]
    constructor
    · intro hnone
      obtain ⟨report, hreport, hmem⟩ := State.forgotten_of_get?_eq_none _ _ _ _ _ hp hnone
      exact ⟨now, report, rfl, (w.securityCycle_report s now).trans hreport, hmem⟩
    · rintro ⟨now', report, hnow, hreport, hmem⟩
      obtain rfl := Operation.securityCycle.inj hnow
      -- What the report names is what the record shows, and by that the record is dropped.
      obtain ⟨hidle, hfree⟩ := (mem_forgottenPeers_iff hp hreport).mp hmem
      rw [securityCycle_report] at hreport
      obtain ⟨hcrash, -⟩ := State.securityCycle_eq_ok _ _ _ _ _ hreport
      rw [State.get?_securityCycle, hcrash, hp]
      have hold : p.isForgottenAt now w.config.security.peerRetention = true := by
        simp [Peer.isForgottenAt, hidle, hfree]
      rw [← s.state.isForgottenAt_reviewedPeer w.config w.classifier s.asked now id p] at hold
      simp only [Option.map_some, Option.filter_eq_none_iff, Option.some.injEq]
      rintro q rfl
      rw [Bool.not_eq_true', Bool.not_eq_false]
      exact hold

end Warden

end PeerWarden
