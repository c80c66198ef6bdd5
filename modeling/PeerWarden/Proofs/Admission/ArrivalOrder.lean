import Mathlib.Data.List.TakeWhile
import PeerWarden.Proofs.Admission.FloodWindow

/-!
# Attempts out of Order

The times of attempts are those of the callers, and a clock may be set back, so attempts need not arrive in the order
of their times. Pruning cuts a queue from its old end and stops at the first attempt in the window. Whatever arrived
behind that attempt is kept and counted, however old it is. So pruning never loses an attempt in the window and forgets
an address exactly if there is none, but it counts exactly the attempts in the window only where none that is too old
arrived behind one that is not. Otherwise an address may be banned for attempts outside the window.

## Main definitions

- `AttemptLog.recorded`, `AttemptLog.arrivals`: the log after some attempts, and those of one address
- `AttemptLog.sinceFirstRecent`: what a cut from the old end leaves of some attempts
- `AttemptLog.CutsFromTheFront`: what pruning makes of a log

## Main statements

- `of_recorded`: the queues of a log hold what arrived
- `prune_cuts_from_the_front`: what pruning keeps, counts and forgets, whatever the order of arrival
- `stale_attempt_counted`: an address that is banned for an attempt outside the window
-/

namespace PeerWarden

namespace AttemptLog

/-! ## Logs and arrivals -/

/-- The log after some attempts, the earliest arrival first. -/
def recorded (calls : List (String × Instant)) : AttemptLog :=
  calls.foldl (fun log call => log.record call.1 call.2) ∅

/-- The times of the attempts from an address, in the order of arrival. -/
def arrivals (address : String) (calls : List (String × Instant)) : List Instant :=
  (calls.filter fun call => call.1 = address).map Prod.snd

/-- The attempts from the first one on that is in the window, in the order of arrival. -/
def sinceFirstRecent (now : Instant) (window : Span) (attempts : List Instant) : List Instant :=
  attempts.dropWhile fun t => decide (window ≤ elapsed t now)

/-- A queue holds the attempts from its address, the latest arrival first. -/
theorem of_recorded (address : String) (calls : List (String × Instant)) :
    (recorded calls).of address = (arrivals address calls).reverse := by
  -- The log may hold attempts already, so the induction is over all logs to start with.
  have hfold (log : AttemptLog) : (calls.foldl (fun log call => log.record call.1 call.2) log).of address =
      (arrivals address calls).reverse ++ log.of address := by
    induction calls generalizing log with
    | nil => rfl
    | cons call rest ih =>
      obtain ⟨source, time⟩ := call
      rw [List.foldl_cons, ih, of_record]
      by_cases h : source = address
      · simp [arrivals, h]
      · simp [arrivals, h, Ne.symm h]
  have hempty : AttemptLog.of ∅ address = [] := rfl
  rw [recorded, hfold ∅, hempty, List.append_nil]

/-! ## The cut -/

variable {now : Instant} {window : Span} {attempts : List Instant}

theorem trailing_reverse (now : Instant) (window : Span) (attempts : List Instant) :
    trailing now window attempts.reverse = (sinceFirstRecent now window attempts).reverse := by
  rw [trailing, List.reverse_reverse, sinceFirstRecent]

/-- The cut takes away attempts outside the window only. -/
theorem inWindow_sinceFirstRecent (now : Instant) (window : Span) (attempts : List Instant) :
    inWindow now window (sinceFirstRecent now window attempts) = inWindow now window attempts := by
  unfold sinceFirstRecent inWindow
  induction attempts with
  | nil => rfl
  | cons t rest ih =>
    by_cases hold : window ≤ elapsed t now
    · rw [List.dropWhile_cons_of_pos (by simpa using hold), ih, List.filter_cons_of_neg (by simpa using hold)]
    · rw [List.dropWhile_cons_of_neg (by simpa using hold)]

/-- Nothing is left exactly if there is no attempt in the window. -/
theorem sinceFirstRecent_eq_nil_iff : sinceFirstRecent now window attempts = [] ↔
    ∀ t ∈ attempts, window ≤ elapsed t now := by
  simp [sinceFirstRecent, List.dropWhile_eq_nil_iff]

/-! ## Pruning -/

/-- What pruning makes of the log of some attempts. -/
structure CutsFromTheFront (calls : List (String × Instant)) (now : Instant) (window : Span) : Prop where
  /-- The counts are listed in ascending order of the addresses, each of them once. -/
  ascending : ((recorded calls).prune now window).counts.keys.Pairwise (· < ·)
  /-- Every address with an attempt in the window is listed with the number of its attempts since the first such. -/
  counted : ∀ address n, (address, n) ∈ ((recorded calls).prune now window).counts.entries ↔
    (∃ t ∈ arrivals address calls, elapsed t now < window) ∧
      n = (sinceFirstRecent now window (arrivals address calls)).length
  /-- These attempts are kept, and no others. -/
  kept : ∀ address, ((recorded calls).prune now window).of address =
    (sinceFirstRecent now window (arrivals address calls)).reverse
  /-- An address is forgotten exactly if it has no attempt in the window. -/
  forgotten_iff : ∀ address, ((recorded calls).prune now window).contains address = false ↔
    ∀ t ∈ arrivals address calls, window ≤ elapsed t now
  /-- No attempt in the window is lost. -/
  complete : ∀ address, inWindow now window (sinceFirstRecent now window (arrivals address calls)) =
    inWindow now window (arrivals address calls)
  /-- Exactly the attempts in the window are kept if and only if none outside it arrived behind one inside. -/
  exact_iff : ∀ address, sinceFirstRecent now window (arrivals address calls) =
      inWindow now window (arrivals address calls) ↔
    (arrivals address calls).Pairwise fun t t' => elapsed t now < window → elapsed t' now < window
  /-- An address is banned for the attempts that are kept, in the window or not. -/
  banned_iff : ∀ (cfg : Config.DosProtection) registry bans address, cfg.window = window →
    ((Flood.detect cfg now registry (recorded calls) bans).offenders.contains address = true ↔
      cfg.rateLimit < (sinceFirstRecent now window (arrivals address calls)).length)

/-- **Pruning cuts from the front**: whatever the order in which attempts arrive, it keeps the attempts since the first
    one in the window. -/
theorem prune_cuts_from_the_front (calls : List (String × Instant)) (now : Instant) (window : Span) :
    CutsFromTheFront calls now window := by
  have htrailing (address : String) : trailing now window ((recorded calls).of address) =
      (sinceFirstRecent now window (arrivals address calls)).reverse := by
    rw [of_recorded, trailing_reverse]
  constructor
  case ascending => exact List.pairwise_map.mpr (Directory.ordered _)
  case counted =>
    intro address n
    rw [Directory.mem_entries_iff, get?_counts_prune, htrailing]
    -- An address with nothing left is not listed, and then there was nothing in the window.
    cases h : sinceFirstRecent now window (arrivals address calls) with
    | nil =>
      have hold := sinceFirstRecent_eq_nil_iff.mp h
      simpa [Option.filter] using fun t ht hyoung => absurd hyoung (Nat.not_lt.mpr (hold t ht))
    | cons t rest =>
      have hsome : ∃ t ∈ arrivals address calls, elapsed t now < window := by
        refine Classical.byContradiction fun hnone => ?_
        have hold := sinceFirstRecent_eq_nil_iff.mpr fun t ht => Nat.not_lt.mp fun hyoung => hnone ⟨t, ht, hyoung⟩
        rw [h] at hold
        cases hold
      rw [and_iff_right hsome, eq_comm (a := n)]
      simp [Option.filter]
  case kept => exact fun address => by rw [of_prune, htrailing]
  case forgotten_iff =>
    intro address
    rw [← sinceFirstRecent_eq_nil_iff, Directory.contains, get?_prune, htrailing]
    cases sinceFirstRecent now window (arrivals address calls) <;> simp [Option.filter]
  case complete => exact fun address => inWindow_sinceFirstRecent now window (arrivals address calls)
  case exact_iff => exact fun address => dropWhile_old_eq_iff now window (arrivals address calls)
  case banned_iff =>
    rintro cfg registry bans address rfl
    rw [Flood.contains_offenders, htrailing, List.length_reverse, decide_eq_true_eq]

end AttemptLog

/-! ## An attempt outside the window -/

namespace Warden

open AttemptLog

/-- An attempt at 100 s, and then one at 0 s by the clock of its caller. -/
def setBack : List (String × Instant) := [("a", Span.ofSeconds 100), ("a", 0)]

/-- With a limit of one attempt in a window of a minute, the address of these two is banned at 100 s, though only one
    of them is in the window. -/
theorem stale_attempt_counted :
    let w := standalone { dosProtection := { rateLimit := 1, windowSecs := 60 } }
    let s := w.run w.start (setBack.map fun call => .request (.attempt call.1 call.2))
    let now : Instant := Span.ofSeconds 100
    s.state.attempts = recorded setBack ∧
      inWindow now (Span.ofSeconds 60) (arrivals "a" setBack) = [now] ∧
      (s.state.attempts.prune now (Span.ofSeconds 60)).counts.entries = [("a", 2)] ∧
      w.bansAt s now "a" = true := by
  decide +kernel

end Warden

end PeerWarden
