import PeerWarden.Cycle.Security
import PeerWarden.Proofs.Threat.Flood

/-!
# Sweeps

Four things are dropped when they are too old: attempts, events, bans and peers. Each of them has a test of its own for
being too old, strict for one and not for the other, but every test is of the same kind: what fails it once fails it
ever after. So it makes no difference whether a sweep was preceded by others, and nobody who asks later can tell whether
there was a sweep.

## Main definitions

- `LeavesNoTrace`: what becomes of a sweep at one time, seen from another

## Main statements

- `prune_prune`, `sweep_sweep`, `forget_forget`: what a sweep drops, a later one would have dropped as well
- `sweep_leaves_no_trace`: all sweeps, and the questions that follow them
-/

namespace PeerWarden

variable {earlier later : Instant}

/-! ## Attempts -/

namespace AttemptLog

/-- A cut from the front goes at least as far as one for a stricter reason. -/
private theorem dropWhile_dropWhile_of_imp {α : Type} {p q : α → Bool} (h : ∀ a, p a = true → q a = true) (l : List α) :
    (l.dropWhile p).dropWhile q = l.dropWhile q := by
  induction l with
  | nil => rfl
  | cons a rest ih =>
    cases hp : p a with
    | true => rw [List.dropWhile_cons_of_pos hp, ih, List.dropWhile_cons_of_pos (h a hp)]
    | false => rw [List.dropWhile_cons_of_neg (by simp [hp])]

/-- Whatever the order of a queue is, cutting it twice is cutting it once. -/
theorem trailing_trailing (h : earlier ≤ later) (window : Span) (queue : List Instant) :
    trailing later window (trailing earlier window queue) = trailing later window queue := by
  unfold trailing
  rw [List.reverse_reverse, dropWhile_dropWhile_of_imp]
  intro t hold
  exact decide_eq_true (Nat.le_trans (of_decide_eq_true hold) (elapsed_mono h))

theorem prune_prune (log : AttemptLog) (h : earlier ≤ later) (window : Span) :
    AttemptLog.prune (log.prune earlier window) later window = log.prune later window := by
  refine Directory.ext_get? fun address => ?_
  rw [get?_prune, get?_prune, of_prune, trailing_trailing h]

end AttemptLog

/-! ## Bans and peers -/

theorem BanList.sweep_sweep (bans : BanList) (h : earlier ≤ later) :
    (BanList.sweep (bans.sweep earlier).1 later).1 = (bans.sweep later).1 :=
  bans.filter_filter_of_imp fun _ ban (hforce : ban.inForceAt later = true) => Ban.inForceAt_of_le h hforce

/-- A peer that is idle for too long stays so until it is seen again. -/
theorem Peer.isForgottenAt_of_le {p : Peer} {retention : Span} (h : earlier ≤ later)
    (hforgotten : p.isForgottenAt earlier retention = true) : p.isForgottenAt later retention = true := by
  unfold isForgottenAt at hforgotten ⊢
  rw [Bool.and_eq_true, decide_eq_true_eq] at hforgotten ⊢
  exact ⟨Nat.lt_of_lt_of_le hforgotten.1 (elapsed_mono h), hforgotten.2⟩

theorem Registry.forget_forget (r : Registry) (h : earlier ≤ later) (retention : Span) :
    (r.forget earlier retention).forget later retention = r.forget later retention := by
  have hpeers := r.peers.filter_filter_of_imp (p := fun _ p => !p.isForgottenAt earlier retention)
    (q := fun _ p => !p.isForgottenAt later retention) fun _ p hkept => by
      cases hforgotten : p.isForgottenAt earlier retention with
      | false => rfl
      | true => simp [Peer.isForgottenAt_of_le h hforgotten] at hkept
  unfold forget
  rw [hpeers]

/-! ## All sweeps -/

/-- A sweep at one time leaves no trace at another, neither in what a sweep leaves then, nor in what is answered
    then. -/
structure LeavesNoTrace (earlier later : Instant) : Prop where
  /-- Attempts may be logged in any order. -/
  attempts : ∀ (log : AttemptLog) window,
    AttemptLog.prune (log.prune earlier window) later window = log.prune later window
  /-- Pruning counts the same attempts of the same addresses. -/
  counts : ∀ (log : AttemptLog) window,
    (AttemptLog.prune (log.prune earlier window) later window).counts = (log.prune later window).counts
  events : ∀ (log : EventLog) retention,
    EventLog.purge (log.purge earlier retention) later retention = log.purge later retention
  bans : ∀ bans : BanList, (BanList.sweep (bans.sweep earlier).1 later).1 = (bans.sweep later).1
  peers : ∀ (r : Registry) retention,
    (r.forget earlier retention).forget later retention = r.forget later retention
  /-- Who asks whether an address is banned gets the same answer. -/
  isBanned : ∀ (bans : BanList) address,
    BanList.isBanned (bans.sweep earlier).1 address later = bans.isBanned address later
  /-- So does who asks for the events of a time no longer than they are kept. -/
  recent : ∀ (log : EventLog) retention window, window ≤ retention →
    EventLog.recent (log.purge earlier retention) later window = log.recent later window

/-- **A sweep leaves no trace** at that time or later: sweeping more often changes nothing. -/
theorem sweep_leaves_no_trace (h : earlier ≤ later) : LeavesNoTrace earlier later where
  attempts log window := log.prune_prune h window
  counts log window := by rw [log.prune_prune h window]
  events log retention := EventLog.purge_purge h
  bans bans := bans.sweep_sweep h
  peers r retention := r.forget_forget h retention
  isBanned bans address := bans.isBanned_sweep address h
  recent log retention window hwindow := EventLog.recent_purge h hwindow

/-- A queue out of order: a younger attempt holds an old one back from the first sweep, and takes it along in the
    second. -/
theorem sweep_leaves_no_trace_outOfOrder :
    let second (n : Nat) : Instant := Span.ofSeconds n
    let window := Span.ofSeconds 60
    let log := ((AttemptLog.record ∅ "a" (second 0)).record "a" (second 90)).record "a" (second 20)
    second 100 ≤ second 150 ∧ (log.prune (second 100) window).of "a" = [second 20, second 90] ∧
      (AttemptLog.prune (log.prune (second 100) window) (second 150) window).of "a" = [] ∧
      LeavesNoTrace (second 100) (second 150) := by
  intro second window log
  have hle : second 100 ≤ second 150 := by decide
  exact ⟨hle, by decide, by decide, sweep_leaves_no_trace hle⟩

end PeerWarden
