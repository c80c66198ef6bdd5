import PeerWarden.Proofs.Admission.FloodWindow

/-!
# The Term of a Ban

A ban on an address is in force until its deadline and not at it. While it is in force every attempt from the
address is rejected, so that nothing is logged, so that the address cannot flood, so that no cycle sets another
ban over the one in force. That circle is the invariant `State.Held`, with the clock as a parameter: a ban that
has lapsed may have been swept or not, and nobody notices which.

## Main definitions

- `Operation.overrides`: an operation that sets or lifts the ban on an address by hand
- `Warden.banSet?`: the ban that an operation sets on an address
- `State.Held`: what is kept under a banned address at some time

## Main statements

- `step_held`, `run_held`: an operation and a chronological run keep the invariant
- `ban_holds_for_its_term`: a ban holds until its deadline, and no longer
-/

namespace PeerWarden

/-- Whether an operation sets or lifts the ban on an address by hand. -/
def Operation.overrides (address : String) : Operation → Bool
  | .request (.banAddress target _ _ _) | .request (.liftBan target) => decide (target = address)
  | _ => false

theorem Request.banAfter_of_not_overrides {address : String} {r : Request}
    (h : (Operation.request r).overrides address = false) (ban? : Option Ban) :
    r.banAfter address ban? = ban? := by
  cases r with
  | banAddress target reason duration now => exact if_neg (of_decide_eq_false h)
  | liftBan target => exact if_neg (of_decide_eq_false h)
  | _ => rfl

theorem Request.time?_of_attempt {r : Request} {source : String} {now : Instant}
    (h : r.attempt? = some (source, now)) : r.time? = some now := by
  cases r <;> cases h <;> rfl

/-! ## A banned address -/

/-- An address is held by a ban if none of its attempts is logged and the ban is there, unless the ban has
    lapsed and was swept. -/
structure State.Held (s : State) (address : String) (ban : Ban) (clock : Instant) : Prop where
  ban : s.bans.get? address = some ban ∨ s.bans.get? address = none ∧ ban.inForceAt clock = false
  silent : s.attempts.get? address = none

namespace State.Held

variable {s : State} {address : String} {ban : Ban} {clock now : Instant}

theorem later (h : s.Held address ban clock) (hnow : clock ≤ now) : s.Held address ban now where
  ban := by
    refine h.ban.imp_right fun ⟨hswept, hlapsed⟩ => ⟨hswept, Bool.eq_false_iff.mpr fun hforce => ?_⟩
    rw [Ban.inForceAt_of_le hnow hforce] at hlapsed
    cases hlapsed
  silent := h.silent

/-- Whether a lapsed ban was swept makes no difference. -/
theorem isBanned_eq (h : s.Held address ban clock) (hnow : clock ≤ now) :
    s.isBanned address now = ban.inForceAt now := by
  rcases (h.later hnow).ban with hban | ⟨hswept, hlapsed⟩
  · simp [isBanned, BanList.isBanned, hban]
  · simp [isBanned, BanList.isBanned, hswept, hlapsed]

theorem get?_bans (h : s.Held address ban clock) (hforce : ban.inForceAt clock = true) :
    s.bans.get? address = some ban := by
  rcases h.ban with hban | ⟨-, hlapsed⟩
  · exact hban
  · rw [hforce] at hlapsed
    cases hlapsed

/-- As long as the ban is in force, an attempt is rejected and leaves no trace. -/
theorem serve_of_inForce (h : s.Held address ban now) (hforce : ban.inForceAt now = true) {r : Request}
    (hattempt : r.attempt? = some (address, now)) : s.serve r = (s, .admission .rejected) := by
  apply serve_of_banned hattempt
  rw [h.isBanned_eq (Int.le_refl now)]
  exact hforce

/-- An address without logged attempts does not flood. -/
theorem not_floods (h : s.Held address ban clock) (cfg : Config) (now : Instant) :
    (s.floods cfg now).offenders.contains address = false := by
  have hqueue : s.attempts.of address = [] := by simp [AttemptLog.of, h.silent]
  rw [State.floods, Flood.contains_offenders, hqueue]
  rfl

end State.Held

/-! ## What a cycle says about an address that does not flood -/

namespace Warden

variable (w : Warden) {s : Session} {op : Operation} {address : String} {ban : Ban} {clock now : Instant}

theorem not_reported_of_not_bansAt {report : ThreatReport} (hban : w.bansAt s now address = false)
    (hreport : (w.securityCycle s now).2 = .ok report) :
    address ∉ report.blockedAddresses ∧ ∀ e ∈ report.events, e.attack = .dos → e.subject ≠ address := by
  rw [securityCycle_report] at hreport
  obtain ⟨-, hevents, hblocked, -⟩ := State.securityCycle_eq_ok _ _ _ _ _ hreport
  constructor
  · rw [hblocked, Directory.mem_keys_iff]
    exact Bool.eq_false_iff.mp hban
  · rintro e he hattack rfl
    -- Findings of floods come from the search for floods alone.
    have hflood : e ∈ (s.state.floods w.config now).events := by
      rw [← State.filter_dos_events s.state w.config w.classifier s.asked now]
      exact List.mem_filter.mpr ⟨hevents ▸ he, by simpa using hattack⟩
    exact Bool.eq_false_iff.mp hban (Flood.contains_of_mem_events _ _ _ _ _ hflood)

/-- A cycle that completes names exactly the bans that it finds lapsed. -/
theorem mem_expiredBans_iff {report : ThreatReport} (hreport : (w.securityCycle s now).2 = .ok report) :
    address ∈ report.expiredBans ↔
      ∃ ban, (s.state.floods w.config now).bans.get? address = some ban ∧ ban.inForceAt now = false := by
  rw [securityCycle_report] at hreport
  rw [State.expiredBans_of_ok _ _ _ _ _ hreport, BanList.sweep, Directory.mem_keys_iff, Directory.contains,
    Directory.get?_filter, Option.isSome_iff_exists]
  simp only [Option.filter_eq_some_iff, Bool.not_eq_true']

/-- The bans for flooding leave an address alone that does not flood. -/
theorem get?_bans_floods_of_not_bansAt (hban : w.bansAt s now address = false) :
    (s.state.floods w.config now).bans.get? address = s.state.bans.get? address := by
  have hget := Flood.get?_bans w.config.dosProtection now s.state.registry s.state.attempts s.state.bans address
  exact hget.trans (if_neg (Bool.eq_false_iff.mp hban))

theorem get?_bans_floods_of_bansAt (hban : w.bansAt s now address = true) :
    (s.state.floods w.config now).bans.get? address = some (Flood.ban w.config.dosProtection now) := by
  have hget := Flood.get?_bans w.config.dosProtection now s.state.registry s.state.attempts s.state.bans address
  exact hget.trans (if_pos hban)

/-- As long as its ban is in force, no cycle has anything to say about an address that is held by it. -/
theorem not_mentioned_of_held (h : s.state.Held address ban now) (hforce : ban.inForceAt now = true) :
    w.bansAt s now address = false ∧ ∀ report, (w.securityCycle s now).2 = .ok report →
      address ∉ report.blockedAddresses ∧ address ∉ report.expiredBans ∧
        ∀ e ∈ report.events, e.attack = .dos → e.subject ≠ address := by
  have hnot : w.bansAt s now address = false := h.not_floods w.config now
  refine ⟨hnot, fun report hreport => ?_⟩
  obtain ⟨hblocked, hevents⟩ := w.not_reported_of_not_bansAt hnot hreport
  refine ⟨hblocked, ?_, hevents⟩
  -- The sweep finds the ban that is in force.
  rw [w.mem_expiredBans_iff hreport, w.get?_bans_floods_of_not_bansAt hnot, h.get?_bans hforce]
  rintro ⟨ban', hban', hlapsed⟩
  obtain rfl := Option.some.inj hban'
  rw [hforce] at hlapsed
  cases hlapsed

/-! ## The invariant over runs -/

/-- An operation keeps an address held by a ban, if it does not override the ban and reports no attempt after
    its end. -/
theorem step_held (op : Operation) (h : s.state.Held address ban clock)
    (hclock : ∀ t, op.time? = some t → clock ≤ t) (hfree : op.overrides address = false)
    (hforce : ∀ r t, op = .request r → r.attempt? = some (address, t) → ban.inForceAt t = true) :
    (w.step s op).state.Held address ban (op.time?.getD clock) := by
  cases op with
  | request r =>
    have hbans : (w.step s (.request r)).state.bans.get? address = s.state.bans.get? address :=
      (s.state.get?_bans_serve address r).trans (Request.banAfter_of_not_overrides hfree _)
    have hsilent : s.state.queueAfter address r = none := by
      -- Only an attempt that is not rejected could be logged.
      have hrejected (source : String) (t : Instant) (hattempt : r.attempt? = some (source, t))
          (ht : clock ≤ t) : ¬(source = address ∧ s.state.isBanned source t = false) := by
        rintro ⟨rfl, hallowed⟩
        rw [h.isBanned_eq ht, hforce r t rfl hattempt] at hallowed
        cases hallowed
      cases r with
      | attempt source t =>
        rw [State.queueAfter, if_neg (hrejected source t rfl (hclock t rfl))]
        exact h.silent
      | peerAttempt id source t =>
        rw [State.queueAfter, if_neg (hrejected source t rfl (hclock t rfl))]
        exact h.silent
      | banAddress target reason duration t =>
        rw [State.queueAfter, if_neg (of_decide_eq_false hfree)]
        exact h.silent
      | _ => exact h.silent
    have hserved : (w.step s (.request r)).state.Held address ban clock :=
      ⟨hbans ▸ h.ban, (s.state.get?_attempts_serve address r).trans hsilent⟩
    cases ht : (Operation.request r).time? with
    | none => exact hserved
    | some t => exact hserved.later (hclock t ht)
  | securityCycle t =>
    have hnot := h.not_floods w.config t
    have hlater := h.later (hclock t rfl)
    constructor
    · rw [get?_bans_step, w.get?_bans_floods_of_not_bansAt hnot]
      rcases hlater.ban with hban | ⟨hswept, hlapsed⟩
      · -- The cycle sweeps the ban only if it has lapsed.
        rw [hban]
        cases hkept : ban.inForceAt t <;> cases (w.securityCycle s t).2.isOk <;>
          simp [Option.filter, hkept, Operation.time?]
      · exact .inr ⟨by rw [hswept]; rfl, hlapsed⟩
    · rw [get?_attempts_step, hnot]
      simp [AttemptLog.of, h.silent, AttemptLog.trailing, Option.filter]
  | healthCycle t =>
    have hlater := h.later (hclock t rfl)
    exact ⟨(w.bans_healthCycle s t).symm ▸ hlater.ban, (w.attempts_healthCycle s t).symm ▸ hlater.silent⟩

/-- A chronological run keeps an address held by a ban until the first attempt after the end of the ban. -/
theorem run_held {ops : List Operation} (hops : Chronological ops) (hfrom : NoEarlierThan clock ops)
    (hto : NoLaterThan now ops) (hnow : clock ≤ now) (h : s.state.Held address ban clock)
    (hfree : ∀ op ∈ ops, op.overrides address = false)
    (hforce : ∀ r t, .request r ∈ ops → r.attempt? = some (address, t) → ban.inForceAt t = true) :
    (w.run s ops).state.Held address ban now := by
  refine run_chronological (P := fun s clock => s.state.Held address ban clock) (fun h hnow => h.later hnow)
    (fun op hop hclock h => ?_) hops hfrom hto hnow h
  refine w.step_held op h hclock (hfree op hop) fun r t hr => hforce r t (hr ▸ hop)

/-! ## How a ban begins -/

variable (s address) in
/-- The ban that an operation sets on an address, if it sets one. -/
def banSet? : Operation → Option Ban
  | .request (.banAddress target reason duration now) =>
    if target = address then some { reason, expires := deadlineAfter? now duration } else none
  | .securityCycle now => if w.bansAt s now address then some (Flood.ban w.config.dosProtection now) else none
  | _ => none

/-- Whoever bans an address also forgets its attempts. -/
theorem held_of_banSet (h : w.banSet? s address op = some ban) :
    ∃ now, op.time? = some now ∧ (w.step s op).state.Held address ban now := by
  cases op with
  | request r =>
    cases r with
    | banAddress target reason duration now =>
      obtain ⟨rfl, rfl⟩ : target = address ∧ { reason, expires := deadlineAfter? now duration } = ban := by
        simpa [banSet?] using h
      refine ⟨now, rfl, .inl ?_, ?_⟩
      · exact (s.state.get?_bans_serve target _).trans (if_pos rfl)
      · exact (s.state.get?_attempts_serve target _).trans (if_pos rfl)
    | _ => cases h
  | securityCycle now =>
    obtain ⟨hbans, rfl⟩ : w.bansAt s now address = true ∧ Flood.ban w.config.dosProtection now = ban := by
      simpa [banSet?] using h
    have hbans' : (s.state.floods w.config now).offenders.contains address = true := hbans
    refine ⟨now, rfl, ?_, ?_⟩
    · -- A ban of no length has lapsed when the same cycle comes to sweep.
      rw [get?_bans_step, w.get?_bans_floods_of_bansAt hbans]
      cases hforce : (Flood.ban w.config.dosProtection now).inForceAt now <;>
        cases (w.securityCycle s now).2.isOk <;> simp [Option.filter, hforce]
    · rw [get?_attempts_step, hbans']
      rfl
  | healthCycle now => cases h

theorem expires_flood_ban {deadline : Instant} (h : (Flood.ban w.config.dosProtection now).expires = some deadline) :
    deadline = now + w.config.dosProtection.blacklistDuration :=
  (deadlineAfter_eq_some_iff.mp h).1

/-! ## The term -/

/-- From the operation that sets a ban, a chronological run holds the address until the first attempt after the
    end of the ban. -/
theorem run_held_of_banSet {ops : List Operation} (hset : w.banSet? s address op = some ban)
    (hclock : Chronological (op :: ops)) (hto : NoLaterThan now (op :: ops))
    (hfree : ∀ op' ∈ ops, op'.overrides address = false)
    (hforce : ∀ r t, .request r ∈ ops → r.attempt? = some (address, t) → ban.inForceAt t = true) :
    (w.run (w.step s op) ops).state.Held address ban now := by
  obtain ⟨since, hsince, hheld⟩ := w.held_of_banSet hset
  obtain ⟨hops, hfrom⟩ := hclock.cons
  apply w.run_held hops (hfrom since hsince) ?_ ?_ hheld hfree hforce
  · exact fun t ht => hto t (by rw [instants_cons]; exact List.mem_append_right _ ht)
  · exact hto since (by simp [instants_cons, hsince])

/-- What a ban with a deadline means for the run that follows the operation that sets it. -/
structure HoldsForItsTerm (s : Session) (op : Operation) (address : String) (ban : Ban) (deadline : Instant)
    (ops : List Operation) : Prop where
  /-- As long as the deadline lies ahead, no operation shortens, extends, replaces or removes the ban, and no
      attempt is logged. -/
  stays : ∀ earlier later, ops = earlier ++ later → (∀ t ∈ instants (op :: earlier), t < deadline) →
    (w.run (w.step s op) earlier).state.bans.get? address = some ban ∧
      (w.run (w.step s op) earlier).state.attempts.get? address = none
  /-- An attempt before the deadline is rejected, whether it names a peer or not, and leaves no trace. -/
  rejected : ∀ earlier r now later, ops = earlier ++ .request r :: later → r.attempt? = some (address, now) →
    now < deadline → (w.run (w.step s op) earlier).state.serve r =
      ((w.run (w.step s op) earlier).state, .admission .rejected)
  /-- A security cycle before the deadline finds no flood from the address and has nothing to say about it. -/
  quiet : ∀ earlier now later, ops = earlier ++ .securityCycle now :: later → now < deadline →
    w.bansAt (w.run (w.step s op) earlier) now address = false ∧
      ∀ report, (w.securityCycle (w.run (w.step s op) earlier) now).2 = .ok report →
        address ∉ report.blockedAddresses ∧ address ∉ report.expiredBans ∧
          ∀ e ∈ report.events, e.attack = .dos → e.subject ≠ address
  /-- Between two automatic bans the configured term passes. -/
  apart : ∀ first, op = .securityCycle first → ∀ earlier second later,
    ops = earlier ++ .securityCycle second :: later →
      w.bansAt (w.run (w.step s op) earlier) second address = true →
        first + w.config.dosProtection.blacklistDuration ≤ second
  /-- The first attempt at the deadline or after it is accepted, whether the ban has been swept or not. -/
  accepted : ∀ earlier r now later, ops = earlier ++ .request r :: later → r.attempt? = some (address, now) →
    deadline ≤ now → (∀ r' now', .request r' ∈ earlier → r'.attempt? = some (address, now') → now' < deadline) →
      ((w.run (w.step s op) earlier).state.serve r).2 = .admission .accepted

/-- **A ban holds for exactly its term.** From the operation that sets it, by hand or for a flood, a ban with a
    deadline shuts its address out until that deadline, and the next attempt is accepted. -/
theorem ban_holds_for_its_term (before : List Operation) (op : Operation) (after : List Operation)
    (address : String) (ban : Ban) (deadline : Instant)
    (hset : w.banSet? (w.run w.start before) address op = some ban) (hterm : ban.expires = some deadline)
    (hclock : Chronological (op :: after)) (hfree : ∀ op' ∈ after, op'.overrides address = false) :
    w.HoldsForItsTerm (w.run w.start before) op address ban deadline after := by
  generalize w.run w.start before = s at hset
  have hforce (t : Instant) : ban.inForceAt t = true ↔ t < deadline := by simp [Ban.inForceAt, hterm]
  -- Whatever takes place at some time finds the address held, if all attempts before it were early enough.
  have hheld (earlier later : List Operation) (op' : Operation) (now : Instant)
      (hsplit : after = earlier ++ op' :: later) (hop' : op'.time? = some now)
      (hearly : ∀ r t, .request r ∈ earlier → r.attempt? = some (address, t) → t < deadline) :
      (w.run (w.step s op) earlier).state.Held address ban now := by
    subst hsplit
    have hrun : Chronological ((op :: earlier) ++ op' :: later) := hclock
    refine w.run_held_of_banSet hset hrun.of_append.1 (hrun.noLaterThan_of_split hop')
      (fun op' hop' => hfree op' (List.mem_append_left _ hop')) fun r t hr hattempt => ?_
    exact (hforce t).mpr (hearly r t hr hattempt)
  -- Before the deadline that is no condition.
  have hbefore (earlier later : List Operation) (op' : Operation) (now : Instant)
      (hsplit : after = earlier ++ op' :: later) (hop' : op'.time? = some now) (hnow : now < deadline) :
      (w.run (w.step s op) earlier).state.Held address ban now := by
    refine hheld earlier later op' now hsplit hop' fun r t hr hattempt => ?_
    have hto : NoLaterThan now earlier := by
      rw [hsplit] at hclock
      exact hclock.cons.1.noLaterThan_of_split hop'
    exact Int.lt_of_le_of_lt (hto t (mem_instants hr (Request.time?_of_attempt hattempt))) hnow
  constructor
  case stays =>
    intro earlier later hsplit hearly
    subst hsplit
    have hrun : Chronological ((op :: earlier) ++ later) := hclock
    have hto : NoLaterThan (deadline - 1) (op :: earlier) := fun t ht => Int.le_sub_one_of_lt (hearly t ht)
    have hkept := w.run_held_of_banSet hset hrun.of_append.1 hto
      (fun op' hop' => hfree op' (List.mem_append_left _ hop')) fun r t hr hattempt =>
        (hforce t).mpr (hearly t (mem_instants (List.mem_cons_of_mem op hr) (Request.time?_of_attempt hattempt)))
    exact ⟨hkept.get?_bans ((hforce _).mpr (Int.sub_one_lt_of_le (Int.le_refl deadline))), hkept.silent⟩
  case rejected =>
    intro earlier r now later hsplit hattempt hnow
    have hkept := hbefore earlier later _ now hsplit (Request.time?_of_attempt hattempt) hnow
    exact hkept.serve_of_inForce ((hforce now).mpr hnow) hattempt
  case quiet =>
    intro earlier now later hsplit hnow
    exact w.not_mentioned_of_held (hbefore earlier later _ now hsplit rfl hnow) ((hforce now).mpr hnow)
  case apart =>
    intro first hfirst earlier second later hsplit hbans
    subst hfirst
    obtain ⟨-, rfl⟩ : w.bansAt s first address = true ∧ Flood.ban w.config.dosProtection first = ban := by
      simpa [banSet?] using hset
    rw [← w.expires_flood_ban hterm]
    refine Int.not_lt.mp fun hsecond => ?_
    -- The address is held until its deadline, so before that it cannot flood again.
    have hnot := (hbefore earlier later _ second hsplit rfl hsecond).not_floods w.config second
    rw [bansAt, hnot] at hbans
    cases hbans
  case accepted =>
    intro earlier r now later hsplit hattempt hnow hearly
    apply State.serve_of_free hattempt
    rw [(hheld earlier later _ now hsplit (Request.time?_of_attempt hattempt) hearly).isBanned_eq (Int.le_refl now)]
    exact Bool.eq_false_iff.mpr fun h => Int.not_lt.mpr hnow ((hforce now).mp h)

/-- A flood of two attempts shuts its address out for an hour, to the instant. -/
theorem ban_holds_for_an_hour :
    let w := standalone { dosProtection := { rateLimit := 1 } }
    let hour : Span := Span.ofSeconds 3600
    let burst : List Operation := [.request (.attempt "a" 0), .request (.attempt "a" 1)]
    let ban : Ban := { reason := "DoS attack", expires := some (2 + hour : Int) }
    let after : List Operation :=
      [.request (.peerAttempt "p" "a" 3), .securityCycle (1 + hour), .request (.attempt "a" (1 + hour)),
        .request (.attempt "a" (2 + hour))]
    w.banSet? (w.run w.start burst) "a" (.securityCycle 2) = some ban ∧ ban.expires = some (2 + hour : Int) ∧
      Chronological (.securityCycle 2 :: after) ∧ (∀ op ∈ after, op.overrides "a" = false) ∧
      w.HoldsForItsTerm (w.run w.start burst) (.securityCycle 2) "a" ban (2 + hour : Int) after := by
  intro w hour burst ban after
  have hset : w.banSet? (w.run w.start burst) "a" (.securityCycle 2) = some ban := by decide
  have hclock : Chronological (.securityCycle 2 :: after) := by decide
  have hfree : ∀ op ∈ after, op.overrides "a" = false := by decide
  exact ⟨hset, rfl, hclock, hfree,
    ban_holds_for_its_term w burst (.securityCycle 2) after "a" ban (2 + hour : Int) hset rfl hclock hfree⟩

end Warden

end PeerWarden
