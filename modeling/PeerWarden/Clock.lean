/-!
# Instants and Spans of Time

Time is counted in whole nanoseconds. Instants may lie before the epoch and have a last representable value;
spans are unbounded, so a deadline past the end of time is told apart from every instant.
-/

namespace PeerWarden

/-- A point in time: nanoseconds since the epoch, negative before it. -/
abbrev Instant := Int

/-- A length of time in nanoseconds. -/
abbrev Span := Nat

/-- When something ends. No instant at all means that it never does. -/
abbrev Deadline := Option Instant

/-! ## Spans -/

namespace Span

/-- One second. -/
def second : Span := 1000000000

/-- One millisecond. -/
def millisecond : Span := 1000000

/-- A span of whole seconds. -/
def ofSeconds (n : Nat) : Span := n * second

/-- The whole seconds in a span. -/
def wholeSeconds (d : Span) : Nat := d / second

/-- A span as a number of seconds: the whole ones and the fraction are converted separately. -/
def toFloat (d : Span) : Float := Float.ofNat (d / second) + Float.ofNat (d % second) / 1e9

@[simp] theorem wholeSeconds_ofSeconds (n : Nat) : wholeSeconds (ofSeconds n) = n :=
  Nat.mul_div_cancel n (by decide)

end Span

/-! ## Instants -/

/-- The time that has passed since `earlier`. An instant that still lies ahead is zero seconds old. -/
def elapsed (earlier now : Instant) : Span := (now - earlier).toNat

/-- Age never shrinks while the clock does not go back. -/
theorem elapsed_mono {t now later : Instant} (h : now ≤ later) : elapsed t now ≤ elapsed t later := by
  unfold elapsed
  exact Int.toNat_le_toNat (Int.sub_le_sub_right h t)

/-- The last representable instant: seconds are signed 64-bit numbers. -/
def lastInstant : Instant := 9223372036854775808 * 1000000000 - 1

/-- The end of a span that starts now. One past the last instant never comes. -/
def deadlineAfter (now : Instant) (d : Span) : Deadline :=
  if now + d ≤ lastInstant then some (now + d) else none

/-- The end of an optional span: no span means no end. -/
def deadlineAfter? (now : Instant) (d : Option Span) : Deadline := d.bind (deadlineAfter now)

theorem deadlineAfter_eq_none_iff {now : Instant} {d : Span} :
    deadlineAfter now d = none ↔ lastInstant < now + d := by
  unfold deadlineAfter
  split
  · next h => exact iff_of_false nofun (Int.not_lt.mpr h)
  · next h => exact iff_of_true rfl (Int.not_le.mp h)

theorem deadlineAfter_eq_some_iff {now deadline : Instant} {d : Span} :
    deadlineAfter now d = some deadline ↔ deadline = now + d ∧ now + d ≤ lastInstant := by
  unfold deadlineAfter
  split
  · next h => simp [h, eq_comm]
  · next h => exact iff_of_false nofun fun hlast => h hlast.2

/-- Without a span, or with one past the last instant, there is no end. -/
theorem deadlineAfter?_eq_none_iff {now : Instant} {d : Option Span} :
    deadlineAfter? now d = none ↔ ∀ span, d = some span → lastInstant < now + span := by
  cases d with
  | none => exact iff_of_true rfl nofun
  | some span =>
    constructor
    · intro h other hother
      exact Option.some.inj hother ▸ deadlineAfter_eq_none_iff.mp h
    · exact fun h => deadlineAfter_eq_none_iff.mpr (h span rfl)

/-- An end is where the span puts it. -/
theorem deadlineAfter?_eq_some_iff {now deadline : Instant} {d : Option Span} :
    deadlineAfter? now d = some deadline ↔ ∃ span ∈ d, deadline = now + span ∧ now + span ≤ lastInstant := by
  unfold deadlineAfter?
  simp only [Option.bind_eq_some_iff, Option.mem_def, deadlineAfter_eq_some_iff]

end PeerWarden
