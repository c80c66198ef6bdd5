import PeerWarden.Run.Session

/-!
# The Timetable

Both cycles run in loops of their own. A loop starts at once; after each cycle it waits for its period, or
for a shorter pause if the cycle failed. When the signal to stop arrives, a waiting loop ends.

Time is virtual here: a cycle takes none, and only waiting lets time pass. So all cycles of both loops stand
in one line, ordered by the instant at which they are due; of two that are due at once the health cycle goes
first.
-/

namespace PeerWarden

/-- The two kinds of cycle. -/
inductive Cycle where
  | health
  | security
  deriving DecidableEq, Repr

/-- The name of a cycle in reports of failures. -/
def Cycle.name : Cycle → String
  | health => "health"
  | security => "security"

/-- How long a loop waits. -/
structure Cadence where
  /-- After a cycle that succeeded. -/
  period : Span
  /-- After a cycle that failed. -/
  pause : Span

namespace Cadence

/-- The cadence of each cycle in a schedule. -/
def ofSchedule (cfg : Config.Schedule) : Cycle → Cadence
  | .health =>
    { period := Span.ofSeconds cfg.healthIntervalSecs, pause := Span.ofSeconds cfg.healthErrorBackoffSecs }
  | .security =>
    { period := Span.ofSeconds cfg.securityIntervalSecs, pause := Span.ofSeconds cfg.securityErrorBackoffSecs }

/-- The shortest span that reaches from every instant past the last one. -/
def endless : Span := Span.ofSeconds 9223372036854775807

/-- How long a loop waits that has no end to wait for: thirty years. -/
def farFuture : Span := Span.ofSeconds (30 * 365 * 86400)

/-- How long a loop waits that is told to wait for a span. A loop does not run twice at the same instant, so
    without a span it waits for a nanosecond. -/
def wait (d : Span) : Span := if endless ≤ d then farFuture else max 1 d

/-- How long a loop waits after a cycle. -/
def delay (c : Cadence) (succeeded : Bool) : Span := wait (if succeeded then c.period else c.pause)

theorem wait_pos (d : Span) : 0 < wait d := by
  unfold wait
  split
  · decide
  · exact Nat.lt_of_lt_of_le (by decide) (Nat.le_max_left _ _)

theorem delay_pos (c : Cadence) (succeeded : Bool) : 0 < c.delay succeeded := wait_pos _

end Cadence

/-- When the next cycle of each loop is due, counted from the start. A loop that does not run is never due. -/
structure Timetable where
  health : Option Span
  security : Option Span
  deriving DecidableEq, Repr

/-- A cycle that ran. -/
structure Iteration where
  cycle : Cycle
  time : Span
  succeeded : Bool
  deriving DecidableEq, Repr

namespace Timetable

/-- Both loops are due at the start. -/
def both : Timetable := { health := some 0, security := some 0 }

/-- When a loop is due. -/
def due (t : Timetable) : Cycle → Option Span
  | .health => t.health
  | .security => t.security

/-- Sets when a loop is due. -/
def defer (t : Timetable) (time : Span) : Cycle → Timetable
  | .health => { t with health := some time }
  | .security => { t with security := some time }

/-- Whether a loop runs a cycle that is due, when the signal comes at `stop`. The first one always runs,
    because a loop looks for the signal only while it waits. -/
def reaches (stop due : Span) : Bool := due = 0 || due < stop

/-- The next cycle and when it is due. -/
def next? (stop : Span) (t : Timetable) : Option (Cycle × Span) :=
  match t.health.filter (reaches stop), t.security.filter (reaches stop) with
  | some h, some s => if h ≤ s then some (.health, h) else some (.security, s)
  | some h, none => some (.health, h)
  | none, some s => some (.security, s)
  | none, none => none

/-- The time left for one loop; it bounds the number of its cycles. -/
def timeLeft (stop : Span) : Option Span → Nat
  | none => 0
  | some due => stop + 1 - due

/-- The time left for both loops. -/
def remaining (stop : Span) (t : Timetable) : Nat := timeLeft stop t.health + timeLeft stop t.security

/-- The next cycle is due where its loop says so, and the signal has not stopped it. -/
theorem due_of_next? {stop : Span} {t : Timetable} {c : Cycle} {time : Span}
    (h : t.next? stop = some (c, time)) : t.due c = some time ∧ reaches stop time = true := by
  unfold next? at h
  split at h
  · next hh hs =>
    split at h
    · obtain ⟨rfl, rfl⟩ := by simpa using h
      exact Option.filter_eq_some_iff.mp hh
    · obtain ⟨rfl, rfl⟩ := by simpa using h
      exact Option.filter_eq_some_iff.mp hs
  · next hh hs =>
    obtain ⟨rfl, rfl⟩ := by simpa using h
    exact Option.filter_eq_some_iff.mp hh
  · next hh hs =>
    obtain ⟨rfl, rfl⟩ := by simpa using h
    exact Option.filter_eq_some_iff.mp hs
  · simp at h

/-- Waiting uses up time. -/
theorem remaining_defer_lt {stop : Span} {t : Timetable} {c : Cycle} {time delay : Span}
    (h : t.next? stop = some (c, time)) (hd : 0 < delay) :
    (t.defer (time + delay) c).remaining stop < t.remaining stop := by
  obtain ⟨hdue, hreach⟩ := due_of_next? h
  have hle : time ≤ stop := by
    have := by simpa [reaches] using hreach
    rcases this with h0 | hlt
    · exact h0 ▸ Nat.zero_le stop
    · exact Nat.le_of_lt hlt
  have hlt : timeLeft stop (some (time + delay)) < timeLeft stop (some time) := by
    unfold timeLeft
    exact Nat.sub_lt_sub_left (Nat.lt_succ_of_le hle) (Nat.lt_add_of_pos_right hd)
  cases c with
  | health =>
    have : t.health = some time := hdue
    simpa [remaining, defer, this] using hlt
  | security =>
    have : t.security = some time := hdue
    simpa [remaining, defer, this] using hlt

/-- Runs all cycles until the signal to stop. What a cycle does, and whether it succeeds, is given by `body`;
    the cycles that ran are listed in their order. -/
def run {σ : Type} (cadence : Cycle → Cadence) (body : Cycle → Span → σ → σ × Bool) (stop : Span)
    (t : Timetable) (s : σ) : σ × List Iteration :=
  match _h : t.next? stop with
  | none => (s, [])
  | some (cycle, time) =>
    let outcome := body cycle time s
    let later :=
      run cadence body stop (t.defer (time + (cadence cycle).delay outcome.2) cycle) outcome.1
    (later.1, { cycle, time, succeeded := outcome.2 } :: later.2)
termination_by t.remaining stop
decreasing_by exact remaining_defer_lt (by assumption) (Cadence.delay_pos _ _)

end Timetable

namespace Warden

/-- Notes whether a cycle failed. -/
def settle {α : Type} (cycle : Cycle) (result : Session × Except Fault α) : Session × Bool :=
  match result.2 with
  | .ok _ => (result.1, true)
  | .error _ => ({ result.1 with meters := result.1.meters.observeFailure cycle.name }, false)

/-- Runs one cycle of a loop. A failure is counted and does not end the loop. -/
def iterate (w : Warden) (clock : Span → Instant) (cycle : Cycle) (time : Span) (s : Session) :
    Session × Bool :=
  match cycle with
  | .health => settle .health (w.healthCycle s (clock time))
  | .security => settle .security (w.securityCycle s (clock time))

/-- Runs the loops of a timetable until the signal to stop. -/
def runUntil (w : Warden) (clock : Span → Instant) (stop : Span) (t : Timetable) (s : Session) :
    Session × List Iteration :=
  t.run (Cadence.ofSchedule w.config.schedule) (w.iterate clock) stop s

end Warden

end PeerWarden
