import PeerWarden.Proofs.Audit.EventHistory
import PeerWarden.Proofs.Cycle.Commutation
import PeerWarden.Proofs.Run.Contacts
import PeerWarden.Proofs.Telemetry.Readings

/-!
# Meters over a Run

The meters are told about a cycle after it is through: of its findings or its evictions, and of the status that it
left. So a cycle that fails does not show, and what a collector reads can be said in terms of the run alone: the
counters stand at the numbers of all findings and of all peers that were dropped, and the gauges show the status at
the end of the latest cycle that completed.

## Main definitions

- `Warden.completedAt?`: the instant of a cycle that completes
- `Warden.MetersAgree`: how the meters depend on the run

## Main statements

- `meters_step`: all that an operation does to the meters
- `get?_ofKind_run`, `evictions_run`: the counters over a run
- `meters_agree`: all of it, after every run
-/

namespace PeerWarden.Warden

variable (w : Warden)

/-- The instant of a cycle that completes. Requests and cycles that fail have none. -/
def completedAt? (s : Session) : Operation → Option Instant
  | .request _ => none
  | .securityCycle now => if (w.securityCycle s now).2.isOk then some now else none
  | .healthCycle now => if (w.healthCycle s now).2.isOk then some now else none

/-- What an operation that completes a cycle found. -/
def foundBy (s : Session) (op : Operation) : List Event := (w.threatReport? s op).toList.flatMap (·.events)

/-! ## One operation -/

/-- The meters hear of the cycles that complete, and of nothing else. -/
theorem meters_step (s : Session) (op : Operation) : (w.step s op).meters =
    match w.completedAt? s op with
    | none => s.meters
    | some now =>
      ((s.meters.observeEvents (w.foundBy s op)).observeEvictions (w.issued s op).length).observeStatus
        (w.status (w.step s op) now) := by
  cases op with
  | request r => rfl
  | securityCycle now =>
    have hstep : w.step s (.securityCycle now) = (w.securityCycle s now).1 := rfl
    cases hreport : (w.securityCycle s now).2 with
    | ok report =>
      have hcompleted : w.completedAt? s (.securityCycle now) = some now := by
        simp [completedAt?, hreport, Except.isOk, Except.toBool]
      have hfound : w.foundBy s (.securityCycle now) = report.events := by
        simp [foundBy, threatReport?, hreport, Except.toOption]
      simp only [hcompleted, hfound, issued_securityCycle, hstep, securityCycle_of_ok hreport]
      rfl
    | error fault =>
      have hfailed : w.completedAt? s (.securityCycle now) = none := by
        simp [completedAt?, hreport, Except.isOk, Except.toBool]
      rw [securityCycle_report] at hreport
      simp [hfailed, hstep, securityCycle, hreport]
  | healthCycle now =>
    have hstep : w.step s (.healthCycle now) = (w.healthCycle s now).1 := rfl
    cases hsample : (w.sample s).2 with
    | ok usage =>
      have hcycle := healthCycle_of_ok hsample now
      have hcompleted : w.completedAt? s (.healthCycle now) = some now := by
        simp [completedAt?, hcycle, Except.isOk, Except.toBool]
      simp only [hcompleted, issued_healthCycle, hstep, evictedBy, hcycle, List.length_map]
      rfl
    | error fault =>
      have hcycle := healthCycle_of_error hsample now
      have hfailed : w.completedAt? s (.healthCycle now) = none := by
        simp [completedAt?, hcycle, Except.isOk, Except.toBool]
      simp only [hfailed, hstep, hcycle]

theorem issued_of_failed {s : Session} {op : Operation} (h : w.completedAt? s op = none) :
    w.issued s op = [] := by
  cases op with
  | request r => exact w.issued_request s r
  | securityCycle now => exact w.issued_securityCycle s now
  | healthCycle now =>
    cases hreport : (w.healthCycle s now).2 with
    | ok report => simp [completedAt?, hreport, Except.isOk, Except.toBool] at h
    | error fault => simp [issued_healthCycle, evictedBy, hreport]

theorem foundBy_of_failed {s : Session} {op : Operation} (h : w.completedAt? s op = none) : w.foundBy s op = [] := by
  cases op with
  | request r => rfl
  | healthCycle now => rfl
  | securityCycle now =>
    cases hreport : (w.securityCycle s now).2 with
    | ok report => simp [completedAt?, hreport, Except.isOk, Except.toBool] at h
    | error fault => simp [foundBy, threatReport?, hreport, Except.toOption]

/-! ## Whole runs -/

theorem get?_ofKind_run (ops : List Operation) (attack : AttackType) (severity : Severity) :
    ((w.run w.start ops).meters.ofKind attack).get? severity.name =
      Meters.count? ((w.emitted ops).countP (Meters.isOf attack severity)) := by
  induction ops using List.reverseRecOn with
  | nil => rfl
  | append_singleton ops op ih =>
    have hemitted : w.emitted (ops ++ [op]) = w.emitted ops ++ w.foundBy (w.run w.start ops) op :=
      w.emitted_concat ops op
    rw [run_concat, hemitted, List.countP_append, meters_step]
    cases hcompleted : w.completedAt? (w.run w.start ops) op with
    | none => rw [w.foundBy_of_failed hcompleted, List.countP_nil, Nat.add_zero, ih]
    | some now => simpa using Meters.get?_ofKind_observeEvents ih _

theorem evictions_run (ops : List Operation) :
    (w.run w.start ops).meters.evictions = (w.run w.start ops).disconnects.length := by
  induction ops using List.reverseRecOn with
  | nil => rfl
  | append_singleton ops op ih =>
    rw [run_concat, meters_step, disconnects_step, List.length_append, ← ih]
    cases hcompleted : w.completedAt? (w.run w.start ops) op with
    | none => rw [w.issued_of_failed hcompleted, List.length_nil, Nat.add_zero]
    | some now => simp

/-- While no cycle completes, the meters stand still. -/
theorem meters_run_of_failed (s : Session) (ops : List Operation)
    (h : ∀ earlier op later, ops = earlier ++ op :: later → w.completedAt? (w.run s earlier) op = none) :
    (w.run s ops).meters = s.meters := by
  induction ops generalizing s with
  | nil => rfl
  | cons op ops ih =>
    have hfirst : w.completedAt? s op = none := h [] op ops rfl
    rw [run_cons, ih (w.step s op) fun earlier op' later hsplit => h (op :: earlier) op' later (by rw [hsplit]; rfl),
      meters_step, hfirst]

/-! ## The meters -/

/-- How the meters after a run depend on it. -/
structure MetersAgree (w : Warden) (ops : List Operation) : Prop where
  /-- The counter of a kind and a grade stands at the number of such events that the completed security cycles
      reported, those included that the log has lost since. -/
  findings : ∀ attack severity, (w.emitted ops).countP (Meters.isOf attack severity) ≤ Meters.maxReading →
    (w.run w.start ops).meters.readings "security_events_total" (Meters.eventLabels attack severity) =
      Meters.counted ((w.emitted ops).countP (Meters.isOf attack severity))
  /-- The counter of evictions stands at the number of peers that the connection layer was told to drop. -/
  drops : (w.run w.start ops).disconnects.length ≤ Meters.maxReading →
    (w.run w.start ops).meters.readings "pool_evictions_total" [] =
      [Float.ofNat (w.run w.start ops).disconnects.length]
  /-- The gauges show the status at the end of the latest cycle that completed. -/
  gauges : ∀ earlier op later now, ops = earlier ++ op :: later →
    w.completedAt? (w.run w.start earlier) op = some now →
      (∀ between op' rest, later = between ++ op' :: rest →
        w.completedAt? (w.run w.start (earlier ++ op :: between)) op' = none) →
      (w.run w.start ops).meters.Shows (w.status (w.run w.start (earlier ++ [op])) now)
  /-- Requests, and cycles that fail, change nothing. -/
  unmoved : ∀ earlier op later, ops = earlier ++ op :: later → w.completedAt? (w.run w.start earlier) op = none →
    (w.run w.start (earlier ++ [op])).meters = (w.run w.start earlier).meters

/-- **The exported metrics agree with what happened.** -/
theorem meters_agree (ops : List Operation) : w.MetersAgree ops := by
  constructor
  case findings =>
    intro attack severity hcount
    rw [Meters.readings_events, get?_ofKind_run, Meters.toList_count? hcount]
  case drops =>
    intro hcount
    rw [Meters.readings_evictions, evictions_run, Meters.counterReading_of_le hcount]
  case gauges =>
    intro earlier op later now hsplit hcompleted hlast
    have hrun : w.run w.start ops = w.run (w.run w.start (earlier ++ [op])) later := by
      rw [hsplit, ← run_append, List.append_assoc]
      rfl
    have hstill : (w.run w.start ops).meters = (w.run w.start (earlier ++ [op])).meters := by
      rw [hrun]
      apply meters_run_of_failed
      intro between op' rest hlater
      rw [← run_append, List.append_assoc]
      exact hlast between op' rest hlater
    rw [hstill, run_concat, meters_step, hcompleted]
    exact Meters.shows_observeStatus _ _
  case unmoved =>
    intro earlier op later _ hfailed
    rw [run_concat, meters_step, hfailed]

end PeerWarden.Warden
