import PeerWarden.Proofs.Cycle.SecurityCycle
import PeerWarden.Proofs.Run.AddressRecord
import PeerWarden.Proofs.Run.Chronology

/-!
# Floods over Whole Runs

An address is banned for the attempts that count against it: those that were accepted since its last ban and
are still in the sliding window. The logs do not keep that history. They are pruned by every security cycle
and cut by every ban, so what a cycle finds in a queue is the outcome of everything that happened before.

The invariant `Tracks` ties a queue to the history: the queue is in order, and whoever asks from now on for
the attempts in the window gets the same answer from both.

## Main statements

- `trailing_eq_inWindow`: on a queue in order, pruning keeps exactly the attempts in the window
- `step_tracks`, `run_tracks`: every operation and every chronological run keeps the invariant
- `floods_banned_exactly`: what a security cycle does about floods after any chronological run
-/

namespace PeerWarden

/-! ## The attempts that count -/

namespace AttemptLog

/-- The attempts that are younger than a window. -/
def inWindow (now : Instant) (window : Span) (attempts : List Instant) : List Instant :=
  attempts.filter fun t => decide (elapsed t now < window)

/-- Cutting the old attempts from the front leaves exactly the young ones if and only if no old attempt stands behind
    a young one. -/
theorem dropWhile_old_eq_iff (now : Instant) (window : Span) (attempts : List Instant) :
    attempts.dropWhile (fun t => decide (window ≤ elapsed t now)) = inWindow now window attempts ↔
      attempts.Pairwise fun t t' => elapsed t now < window → elapsed t' now < window := by
  unfold inWindow
  induction attempts with
  | nil => simp
  | cons t rest ih =>
    rw [List.pairwise_cons]
    by_cases hold : window ≤ elapsed t now
    · -- An old attempt in front is cut, and asks nothing of those behind it.
      rw [List.dropWhile_cons_of_pos (by simpa using hold), List.filter_cons_of_neg (by simpa using hold), ih]
      simp [Nat.not_lt.mpr hold]
    · -- The first young attempt ends the cut, so everything behind it has to be young.
      have hyoung : elapsed t now < window := Nat.not_le.mp hold
      rw [List.dropWhile_cons_of_neg (by simpa using hold), List.filter_cons_of_pos (by simpa using hyoung),
        List.cons.injEq, eq_comm (a := rest), List.filter_eq_self]
      simp only [true_and, hyoung, true_implies, decide_eq_true_eq]
      refine ⟨fun hall => ⟨hall, ?_⟩, And.left⟩
      exact List.pairwise_of_forall_mem_list fun _ _ t' ht' _ => hall t' ht'

/-- In ascending order, everything behind a young attempt is younger still. -/
private theorem dropWhile_old_eq (now : Instant) (window : Span) {attempts : List Instant}
    (h : attempts.Pairwise (· ≤ ·)) :
    attempts.dropWhile (fun t => decide (window ≤ elapsed t now)) = inWindow now window attempts := by
  refine (dropWhile_old_eq_iff now window attempts).mpr (h.imp fun {t t'} hle hyoung => ?_)
  exact Nat.lt_of_le_of_lt (Int.toNat_le_toNat (Int.sub_le_sub_left hle now)) hyoung

/-- On a queue in order, pruning keeps exactly the attempts in the window. -/
theorem trailing_eq_inWindow (now : Instant) (window : Span) {queue : List Instant}
    (h : queue.Pairwise fun later earlier => earlier ≤ later) :
    trailing now window queue = inWindow now window queue := by
  unfold trailing
  rw [dropWhile_old_eq now window (List.pairwise_reverse.mpr h), inWindow, inWindow, ← List.filter_reverse,
    List.reverse_reverse]

/-- Who asks later for the attempts in the window does not notice that the others were dropped earlier. -/
theorem inWindow_inWindow {earlier now : Instant} (h : earlier ≤ now) (window : Span) (attempts : List Instant) :
    inWindow now window (inWindow earlier window attempts) = inWindow now window attempts := by
  unfold inWindow
  rw [List.filter_filter]
  refine List.filter_congr fun t _ => ?_
  have hage : elapsed t earlier ≤ elapsed t now := elapsed_mono h
  simp only [Bool.and_eq_left_iff_imp, decide_eq_true_eq]
  exact fun hyoung => Nat.lt_of_le_of_lt hage hyoung

/-- A queue tracks a history of attempts if it is in order, holds nothing that lies ahead, and holds the same
    attempts in the window from now on. -/
structure Tracks (window : Span) (clock : Instant) (queue history : List Instant) : Prop where
  ordered : queue.Pairwise fun later earlier => earlier ≤ later
  past : ∀ t ∈ queue, t ≤ clock
  agrees : ∀ now, clock ≤ now → inWindow now window queue = inWindow now window history

namespace Tracks

variable {window : Span} {clock now : Instant} {queue history : List Instant}

theorem empty : Tracks window clock [] [] := ⟨.nil, by simp, fun _ _ => rfl⟩

theorem later (h : Tracks window clock queue history) (hnow : clock ≤ now) : Tracks window now queue history where
  ordered := h.ordered
  past t ht := Int.le_trans (h.past t ht) hnow
  agrees now' hnow' := h.agrees now' (Int.le_trans hnow hnow')

theorem accept (h : Tracks window clock queue history) (hnow : clock ≤ now) :
    Tracks window now (now :: queue) (now :: history) where
  ordered := List.pairwise_cons.mpr ⟨fun t ht => Int.le_trans (h.past t ht) hnow, h.ordered⟩
  past t ht := by
    rcases List.mem_cons.mp ht with rfl | ht
    · exact Int.le_refl _
    · exact Int.le_trans (h.past t ht) hnow
  agrees now' hnow' := by
    have := h.agrees now' (Int.le_trans hnow hnow')
    unfold inWindow at this ⊢
    rw [List.filter_cons, List.filter_cons, this]

theorem trailing_eq (h : Tracks window clock queue history) (hnow : clock ≤ now) :
    trailing now window queue = inWindow now window history := by
  rw [trailing_eq_inWindow now window h.ordered, h.agrees now hnow]

theorem prune (h : Tracks window clock queue history) (hnow : clock ≤ now) :
    Tracks window now (trailing now window queue) history where
  ordered := by
    rw [trailing_eq_inWindow now window h.ordered]
    exact h.ordered.sublist List.filter_sublist
  past t ht := by
    rw [trailing_eq_inWindow now window h.ordered] at ht
    exact Int.le_trans (h.past t (List.mem_filter.mp ht).1) hnow
  agrees now' hnow' := by
    rw [trailing_eq_inWindow now window h.ordered, inWindow_inWindow hnow',
      h.agrees now' (Int.le_trans hnow hnow')]

end Tracks

end AttemptLog

/-! ## Histories of runs -/

namespace Warden

variable (w : Warden)

/-- Whether the search for floods in a security cycle at `now` bans an address. -/
def bansAt (s : Session) (now : Instant) (address : String) : Bool :=
  (s.state.floods w.config now).offenders.contains address

/-- What an operation does to the list of attempts from an address that were accepted since its last ban. -/
def noted (address : String) (s : Session) (accepted : List Instant) : Operation → List Instant
  | .request (.attempt source now) =>
    if source = address ∧ (s.state.attempt source now).2 = .accepted then now :: accepted else accepted
  | .request (.peerAttempt id source now) =>
    if source = address ∧ (s.state.peerAttempt id source now).2 = .accepted then now :: accepted else accepted
  | .request (.banAddress target _ _ _) => if target = address then [] else accepted
  | .securityCycle now => if w.bansAt s now address then [] else accepted
  | _ => accepted

/-- The attempts from an address that were accepted in a run since the last ban on it, the latest first. -/
def acceptedSinceBan (address : String) (s : Session) (accepted : List Instant) : List Operation → List Instant
  | [] => accepted
  | op :: ops => acceptedSinceBan address (w.step s op) (w.noted address s accepted op) ops

/-- The attempts that count against an address after a run: accepted since its last ban, and in the window. -/
def counted (ops : List Operation) (now : Instant) (address : String) : List Instant :=
  AttemptLog.inWindow now w.config.dosProtection.window (w.acceptedSinceBan address w.start [] ops)

end Warden

/-! ## The invariant over runs -/

namespace Warden

open AttemptLog

variable (w : Warden) {s : Session} {clock now : Instant} {address : String} {accepted : List Instant}

/-- Every operation keeps track of the history. -/
theorem step_tracks (op : Operation)
    (h : Tracks w.config.dosProtection.window clock (s.state.attempts.of address) accepted)
    (hop : ∀ t, op.time? = some t → clock ≤ t) :
    Tracks w.config.dosProtection.window (op.time?.getD clock) ((w.step s op).state.attempts.of address)
      (w.noted address s accepted op) := by
  -- Most operations touch neither the queue nor the history; for them only the clock moves on.
  have hunchanged : Tracks w.config.dosProtection.window (op.time?.getD clock) (s.state.attempts.of address)
      accepted := by
    cases ht : op.time? with
    | none => exact h
    | some t => exact h.later (hop t ht)
  cases op with
  | request r =>
    have hlogs : (w.step s (.request r)).state.attempts.of address = (s.state.queueAfter address r).getD [] :=
      congrArg (·.getD []) (s.state.get?_attempts_serve address r)
    rw [hlogs]
    cases r with
    | attempt source t =>
      simp only [State.queueAfter, noted, State.attempt_accepted_iff]
      split
      · exact h.accept (hop t rfl)
      · exact hunchanged
    | peerAttempt id source t =>
      simp only [State.queueAfter, noted, State.peerAttempt_accepted_iff]
      split
      · exact h.accept (hop t rfl)
      · exact hunchanged
    | banAddress target reason duration t =>
      simp only [State.queueAfter, noted]
      split
      · exact Tracks.empty
      · exact hunchanged
    | register | outcome | success | failure | latency | throughput | link | blockPeer | liftBan => exact hunchanged
  | securityCycle t =>
    -- The cycle prunes every queue and drops those of the addresses that it bans.
    have hlogs : (w.step s (.securityCycle t)).state.attempts.of address =
        if w.bansAt s t address then []
        else trailing t w.config.dosProtection.window (s.state.attempts.of address) := by
      rw [AttemptLog.of, step, securityCycle_state, State.get?_attempts_securityCycle]
      unfold bansAt
      split
      · rfl
      · cases trailing t w.config.dosProtection.window (s.state.attempts.of address) <;> rfl
    rw [hlogs, noted]
    split
    · exact Tracks.empty
    · exact h.prune (hop t rfl)
  | healthCycle t =>
    have hlogs : (w.step s (.healthCycle t)).state.attempts = s.state.attempts := w.attempts_healthCycle s t
    rw [hlogs]
    exact hunchanged

/-- A run in which the clock never goes back keeps track of the history. -/
theorem run_tracks {ops : List Operation} (hops : Chronological ops) (hfrom : NoEarlierThan clock ops)
    (hto : NoLaterThan now ops) (hnow : clock ≤ now)
    (h : Tracks w.config.dosProtection.window clock (s.state.attempts.of address) accepted) :
    Tracks w.config.dosProtection.window now ((w.run s ops).state.attempts.of address)
      (w.acceptedSinceBan address s accepted ops) := by
  -- The clock of the invariant follows the run: each operation may assume that none after it is earlier.
  induction ops generalizing s clock accepted with
  | nil => exact h.later hnow
  | cons op ops ih =>
    obtain ⟨hrest, hbetween⟩ := hops.cons
    have hlater : ∀ t ∈ instants ops, clock ≤ t := fun t ht => hfrom t (by simp [instants_cons, ht])
    have hstep := w.step_tracks op h fun t ht => hfrom t (by simp [instants_cons, ht])
    rw [run_cons, acceptedSinceBan]
    refine ih hrest ?_ (fun t ht => hto t (by simp [instants_cons, ht])) ?_ hstep
    · cases ht : op.time? with
      | none => exact hlater
      | some t => exact hbetween t ht
    · cases ht : op.time? with
      | none => exact hnow
      | some t => exact hto t (by simp [instants_cons, ht])

/-- After a chronological run, pruning leaves of every queue what counts against its address. -/
theorem trailing_run_eq_counted {ops : List Operation} (h : Chronological (ops ++ [.securityCycle now]))
    (address : String) : trailing now w.config.dosProtection.window
      ((w.run w.start ops).state.attempts.of address) = w.counted ops now address := by
  obtain ⟨hops, hto⟩ := h.noLaterThan rfl
  -- Before the run no attempt is logged, so any clock that is early enough will do.
  obtain ⟨clock, hnow, hfrom⟩ := exists_noEarlierThan now ops
  have hstart : Tracks w.config.dosProtection.window clock (w.start.state.attempts.of address) [] := Tracks.empty
  exact (w.run_tracks hops hfrom hto hnow hstart).trailing_eq (Int.le_refl now)

/-! ## What a security cycle does about floods -/

/-- What a security cycle at `now` does about floods when `counted` says which attempts count against each
    address: it bans exactly the addresses above the limit, and all else follows from that. -/
structure BansExactlyFloods (s : Session) (now : Instant) (counted : String → List Instant) : Prop where
  /-- The search for floods bans an address exactly if more attempts count than the limit allows. -/
  bans_iff : ∀ address, w.bansAt s now address = true ↔
    w.config.dosProtection.rateLimit < (counted address).length
  /-- The ban ends when the configured term is over, or never if that is past the last instant. The bans on
      other addresses stay what they were. -/
  ban : ∀ address, (s.state.floods w.config now).bans.get? address =
    if w.bansAt s now address then
      some {
        reason := "DoS attack"
        expires :=
          if now + w.config.dosProtection.blacklistDuration ≤ lastInstant then
            some (now + w.config.dosProtection.blacklistDuration)
          else none }
    else s.state.bans.get? address
  /-- At its end the cycle keeps these bans, but for those that have lapsed if it is not broken off. -/
  ban_kept : ∀ address, (w.securityCycle s now).1.state.bans.get? address =
    ((s.state.floods w.config now).bans.get? address).filter fun ban =>
      !(w.securityCycle s now).2.isOk || ban.inForceAt now
  /-- A banned address ends without attempts; the others keep exactly those that count, if there are any. -/
  attempts : ∀ address, (w.securityCycle s now).1.state.attempts.get? address =
    if w.bansAt s now address ∨ counted address = [] then none else some (counted address)
  /-- The flood is counted once against each peer behind a banned address, and against no other. -/
  peers : ∀ id, (s.state.floods w.config now).registry.get? id =
    (s.state.registry.get? id).map fun p =>
      { p with floods := p.floods + if w.bansAt s now p.address then 1 else 0 }
  /-- No other stage of the cycle touches that count. -/
  peers_kept : ∀ id p', (w.securityCycle s now).1.state.registry.get? id = some p' →
    ∃ p, s.state.registry.get? id = some p ∧ p'.address = p.address ∧
      p'.floods = p.floods + if w.bansAt s now p.address then 1 else 0
  /-- Only a peer that the report names as forgotten is no longer known. -/
  peers_known : ∀ id p, s.state.registry.get? id = some p →
    (w.securityCycle s now).1.state.registry.get? id = none →
      ∃ report, (w.securityCycle s now).2 = .ok report ∧ id ∈ report.forgottenPeers
  /-- The report names a banned address once, with one critical finding, and no other address. -/
  reported : ∀ report, (w.securityCycle s now).2 = .ok report → ∀ address,
    report.blockedAddresses.count address = (if w.bansAt s now address then 1 else 0) ∧
      (report.events.filter fun e => e.attack = .dos ∧ e.subject = address).map (·.severity) =
        if w.bansAt s now address then [.critical] else []

/-- **Floods are banned exactly.** After any run in which the clock never goes back, a security cycle bans
    exactly the addresses of which more attempts were accepted since their last ban, and are still in the
    window, than the limit allows. -/
theorem floods_banned_exactly (ops : List Operation) (now : Instant)
    (h : Chronological (ops ++ [.securityCycle now])) :
    w.BansExactlyFloods (w.run w.start ops) now (w.counted ops now) := by
  have hcounted := w.trailing_run_eq_counted h
  -- From here on the history only matters through what it leaves in each queue.
  generalize w.run w.start ops = s at hcounted
  constructor
  case bans_iff =>
    intro address
    rw [bansAt, State.floods, Flood.contains_offenders, hcounted, decide_eq_true_eq]
  case ban =>
    intro address
    exact Flood.get?_bans ..
  case ban_kept =>
    intro address
    rw [securityCycle_state, securityCycle_report]
    exact State.get?_bans_securityCycle ..
  case attempts =>
    intro address
    rw [securityCycle_state, State.get?_attempts_securityCycle, hcounted, bansAt]
    cases (s.state.floods w.config now).offenders.contains address with
    | true => simp
    | false => cases w.counted ops now address <;> simp [Option.filter]
  case peers =>
    intro id
    rw [State.floods, Flood.get?_registry]
    refine congrArg (Option.map · _) (funext fun p => ?_)
    exact s.state.blamed_eq w.config now p
  case peers_kept =>
    intro id p' hp'
    rw [securityCycle_state] at hp'
    obtain ⟨p, hp, haddress, hfloods⟩ := State.floods_securityCycle _ _ _ _ _ hp'
    refine ⟨p, hp, haddress, ?_⟩
    rw [hfloods, State.blamed_eq]
    rfl
  case peers_known =>
    intro id p hp hnone
    rw [securityCycle_state] at hnone
    rw [securityCycle_report]
    exact State.forgotten_of_get?_eq_none _ _ _ _ _ hp hnone
  case reported =>
    intro report hreport address
    rw [securityCycle_report] at hreport
    obtain ⟨-, hevents, hblocked, -⟩ := State.securityCycle_eq_ok _ _ _ _ _ hreport
    refine ⟨?_, ?_⟩
    · rw [hblocked]
      exact Directory.count_keys ..
    · have habout := Flood.findings_about w.config.dosProtection now s.state.registry s.state.attempts
        s.state.bans address
      rw [hevents]
      -- Findings of other stages are of other kinds.
      have hsplit : (s.state.detect w.config w.classifier s.asked now).events.filter
          (fun e => e.attack = .dos ∧ e.subject = address) =
          (s.state.floods w.config now).events.filter fun e => e.subject = address := by
        rw [← State.filter_dos_events s.state w.config w.classifier s.asked now, List.filter_filter]
        simp only [Bool.decide_and, Bool.and_comm]
      rw [hsplit]
      have hseverity := congrArg (List.map Prod.snd) habout
      rw [List.map_map] at hseverity
      refine hseverity.trans ?_
      unfold bansAt State.floods
      split <;> rfl

/-- With a limit of one attempt, two of them are a flood. -/
theorem floods_banned_exactly_burst :
    let w := standalone { dosProtection := { rateLimit := 1 } }
    let burst : List Operation := [.request (.attempt "a" 0), .request (.attempt "a" 1)]
    Chronological (burst ++ [.securityCycle 2]) ∧
      w.BansExactlyFloods (w.run w.start burst) 2 (w.counted burst 2) ∧
      w.bansAt (w.run w.start burst) 2 "a" = true ∧ w.bansAt (w.run w.start burst) 2 "b" = false := by
  intro w burst
  exact ⟨by decide, floods_banned_exactly w burst 2 (by decide), by decide, by decide⟩

end Warden

end PeerWarden
