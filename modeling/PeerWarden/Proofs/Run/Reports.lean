import PeerWarden.Run.Session

/-!
# What a Run Reports

A cycle that completes leaves a report, and so a run leaves a sequence of reports of either kind, in the order of
its operations. Laws about what a run leaves behind are stated in terms of these sequences.

## Main definitions

- `Warden.healthReport?`, `Warden.threatReport?`: the report of one operation, if it leaves one
- `Warden.collect`: what is noted along a run
- `Warden.healthReports`, `Warden.threatReports`: the reports of a whole run
-/

namespace PeerWarden.Warden

variable (w : Warden)

/-- The report of a health cycle that succeeds. No other operation leaves one. -/
def healthReport? (s : Session) : Operation → Option HealthReport
  | .healthCycle now => (w.healthCycle s now).2.toOption
  | _ => none

/-- The report of a security cycle that completes. No other operation leaves one. -/
def threatReport? (s : Session) : Operation → Option ThreatReport
  | .securityCycle now => (w.securityCycle s now).2.toOption
  | _ => none

/-- What is noted of the operations of a run, in their order. -/
def collect {α : Type} (note? : Session → Operation → Option α) (s : Session) : List Operation → List α
  | [] => []
  | op :: ops => (note? s op).toList ++ collect note? (w.step s op) ops

/-- The reports of the health cycles that succeed. -/
def healthReports (ops : List Operation) : List HealthReport := w.collect w.healthReport? w.start ops

/-- The reports of the security cycles that complete. -/
def threatReports (ops : List Operation) : List ThreatReport := w.collect w.threatReport? w.start ops

variable {w} {s : Session} {op : Operation}

theorem eq_ok_of_toOption {α : Type} {outcome : Except Fault α} {report : α} (h : outcome.toOption = some report) :
    outcome = .ok report := by
  cases outcome with
  | error fault => cases h
  | ok found => exact congrArg Except.ok (Option.some.inj h)

theorem healthReport?_eq_some {report : HealthReport} (h : w.healthReport? s op = some report) :
    ∃ now, op = .healthCycle now ∧ (w.healthCycle s now).2 = .ok report := by
  cases op with
  | request r => cases h
  | securityCycle now => cases h
  | healthCycle now => exact ⟨now, rfl, eq_ok_of_toOption h⟩

theorem threatReport?_eq_some {report : ThreatReport} (h : w.threatReport? s op = some report) :
    ∃ now, op = .securityCycle now ∧ (w.securityCycle s now).2 = .ok report := by
  cases op with
  | request r => cases h
  | healthCycle now => cases h
  | securityCycle now => exact ⟨now, rfl, eq_ok_of_toOption h⟩

theorem run_concat (w : Warden) (s : Session) (ops : List Operation) (op : Operation) :
    w.run s (ops ++ [op]) = w.step (w.run s ops) op :=
  run_append ..

/-- What is noted grows at its end: an operation sees the session that those before it left. -/
theorem collect_concat {α : Type} (note? : Session → Operation → Option α) (s : Session) (ops : List Operation)
    (op : Operation) : w.collect note? s (ops ++ [op]) = w.collect note? s ops ++ (note? (w.run s ops) op).toList := by
  induction ops generalizing s with
  | nil => simp [collect]
  | cons first ops ih => simp [collect, ih]

theorem healthReports_concat (ops : List Operation) (op : Operation) :
    w.healthReports (ops ++ [op]) = w.healthReports ops ++ (w.healthReport? (w.run w.start ops) op).toList :=
  collect_concat ..

theorem threatReports_concat (ops : List Operation) (op : Operation) :
    w.threatReports (ops ++ [op]) = w.threatReports ops ++ (w.threatReport? (w.run w.start ops) op).toList :=
  collect_concat ..

end PeerWarden.Warden
