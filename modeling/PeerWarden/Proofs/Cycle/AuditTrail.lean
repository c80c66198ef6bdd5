import PeerWarden.Proofs.Admission.BanTerm

/-!
# The Audit Trail of Bans

The search for floods bans addresses and counts the floods against their peers at once, but its findings wait
until all stages are through and reach the log with the others. A cycle that completes therefore logs every ban
that it sets. A cycle that the classifier breaks off keeps the bans and the counts and loses the findings, and
since the queues of the banned addresses are empty by then, no later cycle finds the same floods again.

## Main definitions

- `Warden.LogsItsBans`: what a security cycle leaves in the log about the bans that it sets

## Main statements

- `log_of_complete`, `log_of_crash`: the log after a cycle that completes, and after one that is broken off
- `bans_logged_by_completed_cycles`: every ban is logged by a cycle that completes, and by no other
- `ban_without_finding`: a ban that no log shows
-/

namespace PeerWarden

/-! ## The log after a cycle -/

namespace State

variable (s : State) (cfg : Config) (model : Option Classifier) (asked : List Features) (now : Instant)

theorem log_of_complete (h : (s.detect cfg model asked now).crash = none) :
    (s.securityCycle cfg model asked now).state.log =
      EventLog.purge (s.log ++ (s.detect cfg model asked now).events) now cfg.security.eventRetention := by
  rw [securityCycle_of_complete s cfg model asked now h]
  rfl

theorem log_of_crash {message : String} (h : (s.detect cfg model asked now).crash = some message) :
    (s.securityCycle cfg model asked now).state.log = s.log := by
  rw [(securityCycle_of_crash s cfg model asked now h).1]
  rfl

end State

/-- There is a critical finding about each address that the search for floods bans. -/
theorem Flood.exists_finding {cfg : Config.DosProtection} {now : Instant} {registry : Registry}
    {attempts : AttemptLog} {bans : BanList} {address : String}
    (h : (detect cfg now registry attempts bans).offenders.contains address = true) :
    ∃ e ∈ (detect cfg now registry attempts bans).events,
      e.time = now ∧ e.attack = .dos ∧ e.severity = .critical ∧ e.subject = address := by
  obtain ⟨n, hn⟩ := Option.isSome_iff_exists.mp h
  exact ⟨finding cfg now address n, List.mem_map.mpr ⟨(address, n), Directory.mem_entries_iff.mpr hn, rfl⟩,
    rfl, rfl, rfl, rfl⟩

/-- An event is not purged at the time of which it tells. -/
theorem EventLog.mem_purge_of_now {log : EventLog} {retention : Span} {e : Event} (h : e ∈ log)
    (hretention : 0 < retention) : e ∈ EventLog.purge log e.time retention := by
  apply List.mem_filter.mpr
  refine ⟨h, ?_⟩
  simpa [younger, elapsed] using hretention

/-! ## Bans in the log -/

namespace Warden

variable (w : Warden)

/-- What a security cycle leaves in the log about the bans that it sets. -/
structure LogsItsBans (s : Session) (now : Instant) : Prop where
  /-- A cycle that completes leaves a critical event of its own time for every address that it bans. -/
  completed : (w.securityCycle s now).2.isOk = true → 0 < w.config.security.eventRetention →
    ∀ address, w.bansAt s now address = true →
      ∃ e ∈ (w.securityCycle s now).1.state.log,
        e.time = now ∧ e.attack = .dos ∧ e.severity = .critical ∧ e.subject = address
  /-- A cycle that is broken off adds nothing to the log. -/
  broken_off : (w.securityCycle s now).2.isOk = false → (w.securityCycle s now).1.state.log = s.state.log
  /-- Its bans stay all the same, the attempts that they were for are gone, and so do the floods that it counted
      against the peers. -/
  left_behind : (w.securityCycle s now).2.isOk = false → ∀ address, w.bansAt s now address = true →
    (w.securityCycle s now).1.state.bans.get? address = some (Flood.ban w.config.dosProtection now) ∧
      (w.securityCycle s now).1.state.attempts.get? address = none ∧
      ∀ id p, s.state.registry.get? id = some p → p.address = address →
        ∃ p', (w.securityCycle s now).1.state.registry.get? id = some p' ∧ p'.floods = p.floods + 1

/-- **Bans are logged by the cycles that complete**, and only by these. -/
theorem bans_logged_by_completed_cycles (ops : List Operation) (now : Instant) :
    w.LogsItsBans (w.run w.start ops) now := by
  generalize w.run w.start ops = s
  have hok : (w.securityCycle s now).2.isOk = (s.state.detect w.config w.classifier s.asked now).crash.isNone := by
    rw [securityCycle_report, State.isOk_report]
  constructor
  case completed =>
    intro hcompleted hretention address hbans
    rw [hok, Option.isNone_iff_eq_none] at hcompleted
    obtain ⟨e, hfound, htime, hattack, hseverity, hsubject⟩ := Flood.exists_finding hbans
    refine ⟨e, ?_, htime, hattack, hseverity, hsubject⟩
    rw [securityCycle_state, State.log_of_complete _ _ _ _ _ hcompleted, ← htime]
    apply EventLog.mem_purge_of_now ?_ hretention
    -- The findings of the search for floods are the first ones.
    rw [htime, State.detect_events]
    simp only [List.mem_append]
    exact .inr (.inl (.inl (.inl (.inl hfound))))
  case broken_off =>
    intro hbroken
    rw [hok, Option.isNone_eq_false_iff] at hbroken
    obtain ⟨message, hcrash⟩ := Option.isSome_iff_exists.mp hbroken
    rw [securityCycle_state, State.log_of_crash _ _ _ _ _ hcrash]
  case left_behind =>
    intro hbroken address hbans
    have hset : w.banSet? s address (.securityCycle now) = some (Flood.ban w.config.dosProtection now) := by
      simp [banSet?, hbans]
    obtain ⟨_, -, hheld⟩ := w.held_of_banSet hset
    refine ⟨?_, hheld.silent, fun id p hp haddress => ?_⟩
    · -- Only a cycle that completes comes to sweep the bans.
      have hstep := w.get?_bans_step s now address
      rw [w.get?_bans_floods_of_bansAt hbans, hbroken] at hstep
      exact hstep
    · rw [hok, Option.isNone_eq_false_iff] at hbroken
      obtain ⟨message, hcrash⟩ := Option.isSome_iff_exists.mp hbroken
      obtain ⟨trust, clusterFlags, hdetected⟩ := s.state.detectedPeer_eq w.config w.classifier s.asked now id p
      refine ⟨s.state.detectedPeer w.config w.classifier s.asked now id p, ?_, ?_⟩
      · rw [securityCycle_state, State.get?_securityCycle, hcrash, hp]
        rfl
      · have hoffender : (s.state.floods w.config now).offenders.contains p.address = true := haddress ▸ hbans
        rw [hdetected, State.blamed_eq, if_pos hoffender]

/-- A ban that no log shows: the classifier breaks off when it is asked about the peer behind the flood. -/
theorem ban_without_finding :
    let w : Warden :=
      { standalone { dosProtection := { rateLimit := 1 } } with
        classifier := some (Classifier.scripted [.crash "model lost"]) }
    let s := w.run w.start
      [.request (.register "p" "a" 0), .request (.attempt "a" 0), .request (.attempt "a" 1)]
    let after := (w.securityCycle s 2).1.state
    0 < w.config.security.eventRetention ∧ w.bansAt s 2 "a" = true ∧ after.isBanned "a" 2 = true ∧
      (after.registry.get? "p").map (·.floods) = some 1 ∧
      ¬∃ e ∈ after.log, e.time = 2 ∧ e.attack = .dos ∧ e.severity = .critical ∧ e.subject = "a" := by
  decide +kernel

end Warden

end PeerWarden
