import Mathlib.Algebra.GroupWithZero.Nat
import Mathlib.Data.List.Induction
import PeerWarden.Proofs.Cycle.AuditTrail
import PeerWarden.Proofs.Cycle.HealthView
import PeerWarden.Proofs.Run.Chronology
import PeerWarden.Proofs.Run.Independence
import PeerWarden.Proofs.Run.Reports

/-!
# The Event Log over a Run

Every security cycle that completes adds its findings to the log and then drops what is too old. The log is rewritten
again and again, but it always shows one thing: everything that was found so far, in the order in which it was
reported, as far as it is young enough. For what an earlier cycle dropped is not younger for a later one.

## Main definitions

- `Warden.emitted`: what the security cycles of a run found
- `Warden.LogExact`: how the log depends on it

## Main statements

- `log_of_silent`, `log_of_report`: what an operation does to the log
- `purge_log_run`: seen from later on, the log and all that was found are the same
- `purged_add_logged`: what was found is either logged or counted as purged
- `log_exact`: all of it, after every chronological run
-/

namespace PeerWarden

namespace EventLog

theorem purge_append (log found : EventLog) (now : Instant) (retention : Span) :
    EventLog.purge (log ++ found) now retention = log.purge now retention ++ found.purge now retention :=
  List.filter_append ..

end EventLog

/-- A security cycle that completes counts the events that it drops, those that it has just logged included. -/
theorem State.purgedEvents_of_ok {s : State} {cfg : Config} {model : Option Classifier} {asked : List Features}
    {now : Instant} {report : ThreatReport} (h : (s.securityCycle cfg model asked now).report = .ok report) :
    report.purgedEvents = (s.log ++ report.events).length -
      (EventLog.purge (s.log ++ report.events) now cfg.security.eventRetention).length := by
  cases hcrash : (s.detect cfg model asked now).crash with
  | some message => simp [(securityCycle_of_crash s cfg model asked now hcrash).2] at h
  | none =>
    simp only [securityCycle, hcrash, Except.ok.injEq] at h
    subst h
    rfl

namespace Warden

variable {w : Warden} {s : Session} {op : Operation}

/-! ## One operation -/

/-- Only security cycles that complete have a part in the log. -/
theorem log_of_silent (h : w.threatReport? s op = none) : (w.step s op).state.log = s.state.log := by
  cases op with
  | request r =>
    show (s.state.serve r).1.log = _
    rw [State.serve_frame]
  | healthCycle now =>
    show (w.healthCycle s now).1.state.log = _
    cases hsample : (w.sample s).2 with
    | error fault => rw [healthCycle_of_error hsample]
    | ok usage =>
      rw [healthCycle_of_ok hsample]
      rfl
  | securityCycle now =>
    show (w.securityCycle s now).1.state.log = _
    rw [securityCycle_state]
    cases hcrash : (s.state.detect w.config w.classifier s.asked now).crash with
    | some message => exact State.log_of_crash _ _ _ _ _ hcrash
    | none =>
      obtain ⟨report, hreport⟩ := State.securityCycle_report_of_complete _ _ _ _ _ hcrash
      simp [threatReport?, securityCycle_report, hreport, Except.toOption] at h

/-- A security cycle that completes logs what it found, drops what is too old, and counts what it dropped. -/
theorem log_of_report {report : ThreatReport} (h : w.threatReport? s op = some report) :
    ∃ now, op = .securityCycle now ∧
      (w.step s op).state.log =
        EventLog.purge (s.state.log ++ report.events) now w.config.security.eventRetention ∧
      report.purgedEvents = (s.state.log ++ report.events).length - (w.step s op).state.log.length := by
  obtain ⟨now, rfl, hok⟩ := threatReport?_eq_some h
  rw [securityCycle_report] at hok
  obtain ⟨hcrash, hevents, -, -⟩ := State.securityCycle_eq_ok _ _ _ _ _ hok
  have hlog : (w.step s (.securityCycle now)).state.log =
      EventLog.purge (s.state.log ++ report.events) now w.config.security.eventRetention := by
    show (w.securityCycle s now).1.state.log = _
    rw [securityCycle_state, State.log_of_complete _ _ _ _ _ hcrash, hevents]
  refine ⟨now, rfl, hlog, ?_⟩
  rw [hlog]
  exact State.purgedEvents_of_ok hok

/-! ## Whole runs -/

variable (w)

/-- What the security cycles of a run found, in the order in which they reported it. -/
def emitted (ops : List Operation) : List Event := (w.threatReports ops).flatMap (·.events)

variable (ops : List Operation)

theorem emitted_concat (op : Operation) : w.emitted (ops ++ [op]) =
    w.emitted ops ++ (w.threatReport? (w.run w.start ops) op).toList.flatMap (·.events) := by
  rw [emitted, threatReports_concat, List.flatMap_append]
  rfl

/-- Whoever purges the log, as late as everything in the run, is left with what was found and is young enough. -/
theorem purge_log_run {now : Instant} (h : NoLaterThan now ops) :
    (w.run w.start ops).state.log.purge now w.config.security.eventRetention =
      EventLog.purge (w.emitted ops) now w.config.security.eventRetention := by
  induction ops using List.reverseRecOn with
  | nil => rfl
  | append_singleton ops op ih =>
    have hbefore : NoLaterThan now ops := fun t ht => h t (by simp [instants_append, ht])
    rw [run_concat, emitted_concat]
    cases hreport : w.threatReport? (w.run w.start ops) op with
    | none => rw [log_of_silent hreport, ih hbefore, Option.toList_none, List.flatMap_nil, List.append_nil]
    | some report =>
      obtain ⟨earlier, rfl, hlog, -⟩ := log_of_report hreport
      have hearlier : earlier ≤ now := h earlier (mem_instants List.mem_concat_self rfl)
      rw [hlog, EventLog.purge_purge hearlier, EventLog.purge_append, ih hbefore, Option.toList_some,
        List.flatMap_singleton, EventLog.purge_append]

/-- Everything that was found is either still logged, or was counted when it was dropped. -/
theorem purged_add_logged : ((w.threatReports ops).map (·.purgedEvents)).sum + (w.run w.start ops).state.log.length =
    (w.emitted ops).length := by
  induction ops using List.reverseRecOn with
  | nil => rfl
  | append_singleton ops op ih =>
    rw [run_concat, threatReports_concat, emitted_concat, List.map_append, List.sum_append]
    cases hreport : w.threatReport? (w.run w.start ops) op with
    | none => simpa [log_of_silent hreport] using ih
    | some report =>
      obtain ⟨now, -, hlog, hpurged⟩ := log_of_report hreport
      have hkept : (w.step (w.run w.start ops) op).state.log.length ≤
          ((w.run w.start ops).state.log ++ report.events).length := by
        rw [hlog]
        exact List.length_filter_le ..
      simp only [Option.toList_some, List.map_cons, List.map_nil, List.sum_cons, List.sum_nil, List.flatMap_singleton,
        List.length_append, hpurged] at hkept ih ⊢
      omega

/-! ## The log -/

/-- How the log during and after a run depends on what was found. -/
structure LogExact (w : Warden) (ops : List Operation) : Prop where
  /-- After a security cycle that completes, the log is what these cycles have found so far, as far as it is younger
      than the retention. -/
  kept : ∀ earlier now later report, ops = earlier ++ .securityCycle now :: later →
    (w.securityCycle (w.run w.start earlier) now).2 = .ok report →
      (w.run w.start (earlier ++ [.securityCycle now])).state.log =
        (w.emitted earlier ++ report.events).filter fun e => elapsed e.time now < w.config.security.eventRetention
  /-- Nothing else changes the log. -/
  unchanged : ∀ earlier op later, ops = earlier ++ op :: later → w.threatReport? (w.run w.start earlier) op = none →
    (w.run w.start (earlier ++ [op])).state.log = (w.run w.start earlier).state.log
  /-- What was found is either logged or was counted as purged. -/
  accounted : ((w.threatReports ops).map (·.purgedEvents)).sum + (w.run w.start ops).state.log.length =
    (w.emitted ops).length
  /-- The recent events are the logged ones that are younger than the window, in the order of the log. -/
  recent : ∀ now window, (w.run w.start ops).state.log.recent now window =
    (w.run w.start ops).state.log.filter fun e => elapsed e.time now < window
  /-- Nobody who asks for no more than the retention misses anything that was found. -/
  complete : ∀ now window, NoLaterThan now ops → window ≤ w.config.security.eventRetention →
    (w.run w.start ops).state.log.recent now window = (w.emitted ops).filter fun e => elapsed e.time now < window

/-- **The log is exactly what was found and is not yet too old.** -/
theorem log_exact (ops : List Operation) (h : Chronological ops) : w.LogExact ops := by
  constructor
  case kept =>
    intro earlier now later report hsplit hok
    have hbefore : NoLaterThan now earlier := (hsplit ▸ h).noLaterThan_of_split rfl
    have hreport : w.threatReport? (w.run w.start earlier) (.securityCycle now) = some report := by
      simp [threatReport?, hok, Except.toOption]
    obtain ⟨now', hnow, hlog, -⟩ := log_of_report hreport
    obtain rfl := Operation.securityCycle.inj hnow
    rw [run_concat, hlog, EventLog.purge_append, w.purge_log_run earlier hbefore, ← EventLog.purge_append]
    rfl
  case unchanged =>
    intro earlier op later _ hsilent
    rw [run_concat, log_of_silent hsilent]
  case accounted => exact w.purged_add_logged ops
  case recent => exact fun now window => rfl
  case complete =>
    intro now window hend hwindow
    rw [← EventLog.recent_purge (Int.le_refl now) hwindow, w.purge_log_run ops hend,
      EventLog.recent_purge (Int.le_refl now) hwindow]
    rfl

/-- Two floods, the second of which is found just before the first one is a day old and dropped. -/
theorem log_exact_floods :
    let w := standalone { dosProtection := { rateLimit := 1 }, security := { eventRetentionDays := 1 } }
    let day : Instant := Span.ofSeconds 86400
    let ops : List Operation :=
      [.request (.attempt "a" 0), .request (.attempt "a" 0), .securityCycle 1, .request (.attempt "b" day),
        .request (.attempt "b" day), .securityCycle day, .securityCycle (day + 1)]
    Chronological ops ∧ (w.emitted ops).map (·.subject) = ["a", "b"] ∧
      (w.threatReports ops).map (·.purgedEvents) = [0, 0, 1] ∧ w.LogExact ops := by
  intro w day ops
  have h : Chronological ops := by decide +kernel
  exact ⟨h, by decide +kernel, by decide +kernel, log_exact w ops h⟩

end Warden

end PeerWarden
