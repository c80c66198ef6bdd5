import PeerWarden.Audit.Event

/-!
# The Event Log

Events in the order in which they were reported. They leave the log by age alone.

## Main statements

- `mem_recent`: the recent events are the logged ones younger than the window
- `recent_purge`: nobody who asks within the retention notices an earlier purge
-/

namespace PeerWarden

/-- The logged events, oldest report first. -/
abbrev EventLog := List Event

namespace EventLog

/-- Whether an event is younger than a span. -/
def younger (now : Instant) (span : Span) (e : Event) : Bool := elapsed e.time now < span

/-- The events younger than a window. -/
def recent (log : EventLog) (now : Instant) (window : Span) : List Event := log.filter (younger now window)

/-- The log without the events that are as old as the retention, or older. -/
def purge (log : EventLog) (now : Instant) (retention : Span) : EventLog := log.filter (younger now retention)

/-- The recent events are found in the log as they were reported. -/
theorem mem_recent {log : EventLog} {now : Instant} {window : Span} {e : Event} :
    e ∈ log.recent now window ↔ e ∈ log ∧ elapsed e.time now < window := by
  simp [recent, younger]

/-- A purge is not noticed later by those who ask for no more than the retention. -/
theorem recent_purge {log : EventLog} {earlier now : Instant} {window retention : Span} (ht : earlier ≤ now)
    (hw : window ≤ retention) : EventLog.recent (log.purge earlier retention) now window = log.recent now window := by
  unfold recent purge
  rw [List.filter_filter]
  refine List.filter_congr fun e _ => ?_
  have hage : elapsed e.time earlier ≤ elapsed e.time now := elapsed_mono ht
  simp only [younger, Bool.and_eq_left_iff_imp, decide_eq_true_eq]
  exact fun hy => Nat.lt_of_lt_of_le (Nat.lt_of_le_of_lt hage hy) hw

/-- What a purge drops, a later one would have dropped as well. -/
theorem purge_purge {log : EventLog} {earlier now : Instant} {retention : Span} (h : earlier ≤ now) :
    EventLog.purge (log.purge earlier retention) now retention = log.purge now retention :=
  recent_purge h (Nat.le_refl retention)

end EventLog

end PeerWarden
