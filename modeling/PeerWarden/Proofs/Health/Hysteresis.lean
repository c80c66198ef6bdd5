import Mathlib.Data.List.Chain
import Mathlib.Data.List.Induction
import PeerWarden.Config.Rules
import PeerWarden.Proofs.Cycle.Commutation
import PeerWarden.Proofs.Number.UnitInterval
import PeerWarden.Proofs.Run.Independence
import PeerWarden.Proofs.Run.Reports

/-!
# Congestion Follows the Measurements

Each health cycle that succeeds measures the network once. The history is a window on the measurements of the whole
run, the congestion state is judged by a smaller window on them, and between the two marks it stays what it was. So
entering and clearing congestion take turns, and nothing but a health cycle that succeeds has a part in it.

## Main definitions

- `Congestion.Follows`: what an evaluation has to make of the latencies measured so far
- `InTurn`: a congestion state that was entered and cleared in turn
- `Warden.measurements`, `Warden.latencies`, `Warden.turns`: what was measured in a run, and what came of it
- `Warden.FollowsMeasurements`: how the history and the congestion state depend on the measurements

## Main statements

- `Congestion.follows_evaluate`: the evaluation does so, if it sees the newest latencies
- `step_of_silent`, `step_of_report`: what an operation does to the history and the congestion state
- `snapshots_run`, `windowMean?_run`: the history after a run, and the mean of its newest latencies
- `congestion_follows_measurements`: all of it, after every run
-/

namespace PeerWarden

/-! ## The newest entries -/

namespace History

variable {α β : Type}

theorem newest_newest {m n : Nat} (h : m ≤ n) (xs : List α) : newest m (newest n xs) = newest m xs := by
  simp only [newest, List.drop_drop, List.length_drop]
  congr 1
  omega

theorem newest_succ_concat (n : Nat) (xs : List α) (x : α) : newest (n + 1) (xs ++ [x]) = newest n xs ++ [x] := by
  simp only [newest, List.length_append, List.length_singleton, Nat.add_sub_add_right]
  exact List.drop_append_of_le_length (Nat.sub_le ..)

/-- Whoever keeps the newest entries at every step has the newest entries of all. -/
theorem newest_newest_concat (n : Nat) (xs : List α) (x : α) :
    newest n (newest n xs ++ [x]) = newest n (xs ++ [x]) := by
  rw [← newest_succ_concat, newest_newest (Nat.le_succ n)]

theorem newest_map (f : α → β) (n : Nat) (xs : List α) : newest n (xs.map f) = (newest n xs).map f := by
  simp only [newest, List.length_map, List.map_drop]

end History

/-! ## One evaluation -/

namespace Congestion

/-- The mean of the newest latencies. -/
def meanOfNewest (n : Nat) (latencies : List Float) : Float :=
  Number.total (History.newest n latencies) / Float.ofNat n

/-- What a mean latency has to make of the congestion state. -/
structure JudgedBy (cfg : Config.Congestion) (mean : Float) (before after : Congestion) (transition : Transition) :
    Prop where
  meanLatency : after.meanLatency = some mean
  high : cfg.highWaterMs < mean → after.congested = true
  low : mean < cfg.lowWaterMs → after.congested = false
  /-- Between the marks the state stays what it was. -/
  between : ¬cfg.highWaterMs < mean → ¬mean < cfg.lowWaterMs → after.congested = before.congested
  entered : transition = .entered ↔ before.congested = false ∧ after.congested = true
  cleared : transition = .cleared ↔ before.congested = true ∧ after.congested = false
  held : transition = .held ↔ after.congested = before.congested

/-- What an evaluation has to make of the latencies measured so far. -/
structure Follows (cfg : Config.Congestion) (latencies : List Float) (before after : Congestion)
    (transition : Transition) : Prop where
  /-- Too few latencies for the window change nothing. -/
  insufficient : latencies.length < cfg.window → transition = .insufficient ∧ after = before
  /-- Otherwise the state is judged by the mean of exactly the newest ones. -/
  judged : cfg.window ≤ latencies.length →
    JudgedBy cfg (meanOfNewest cfg.window latencies) before after transition

variable {cfg : Config.Congestion} {history : History} (c : Congestion)

theorem evaluate_of_none (h : windowMean? cfg history = none) : c.evaluate cfg history = (c, .insufficient) := by
  simp only [evaluate, h]

theorem evaluate_of_some {mean : Float} (h : windowMean? cfg history = some mean) :
    c.evaluate cfg history = c.judge cfg mean := by
  simp only [evaluate, h]

theorem transition_judge (cfg : Config.Congestion) (mean : Float) :
    ((c.judge cfg mean).2 = .entered ↔ c.congested = false ∧ (c.judge cfg mean).1.congested = true) ∧
      ((c.judge cfg mean).2 = .cleared ↔ c.congested = true ∧ (c.judge cfg mean).1.congested = false) ∧
      ((c.judge cfg mean).2 = .held ↔ (c.judge cfg mean).1.congested = c.congested) := by
  unfold judge
  split_ifs <;> simp_all

theorem judgedBy_judge (hmarks : cfg.lowWaterMs < cfg.highWaterMs) (mean : Float) :
    JudgedBy cfg mean c (c.judge cfg mean).1 (c.judge cfg mean).2 := by
  obtain ⟨hentered, hcleared, hheld⟩ := c.transition_judge cfg mean
  constructor
  case entered => exact hentered
  case cleared => exact hcleared
  case held => exact hheld
  case meanLatency =>
    unfold judge
    split_ifs <;> rfl
  case high =>
    intro h
    simp only [judge, if_pos h]
  case low =>
    intro h
    -- The marks are in order, so a mean below the low one is not above the high one as well.
    have hbelow : ¬cfg.highWaterMs < mean :=
      Number.not_lt_of_float_le (Number.float_le_trans (Number.le_of_float_lt h) (Number.le_of_float_lt hmarks))
    simp only [judge, if_neg hbelow, if_pos h]
  case between =>
    intro hhigh hlow
    simp only [judge, if_neg hhigh, if_neg hlow]

/-- An evaluation follows the latencies if it sees the newest ones. -/
theorem follows_evaluate {latencies : List Float} (hmarks : cfg.lowWaterMs < cfg.highWaterMs)
    (hwindow : windowMean? cfg history =
      if latencies.length < cfg.window then none else some (meanOfNewest cfg.window latencies)) :
    Follows cfg latencies c (c.evaluate cfg history).1 (c.evaluate cfg history).2 := by
  constructor
  case insufficient =>
    intro hshort
    rw [if_pos hshort] at hwindow
    rw [c.evaluate_of_none hwindow]
    exact ⟨rfl, rfl⟩
  case judged =>
    intro hfull
    rw [if_neg (Nat.not_lt.mpr hfull)] at hwindow
    rw [c.evaluate_of_some hwindow]
    exact c.judgedBy_judge hmarks _

theorem transition_evaluate (cfg : Config.Congestion) (history : History) :
    ((c.evaluate cfg history).2 = .entered ↔ c.congested = false ∧ (c.evaluate cfg history).1.congested = true) ∧
      ((c.evaluate cfg history).2 = .cleared ↔ c.congested = true ∧ (c.evaluate cfg history).1.congested = false) := by
  cases h : windowMean? cfg history with
  | none => simp [c.evaluate_of_none h]
  | some mean =>
    rw [c.evaluate_of_some h]
    obtain ⟨hentered, hcleared, -⟩ := c.transition_judge cfg mean
    exact ⟨hentered, hcleared⟩

theorem policy_iff : (c.policy = .congested ↔ c.congested = true) ∧ (c.policy = .normal ↔ c.congested = false) := by
  unfold policy
  cases c.congested <;> decide

end Congestion

/-! ## Entering and clearing in turn -/

/-- Whether a transition changes the congestion state. -/
def Transition.isTurn : Transition → Bool
  | entered | cleared => true
  | insufficient | held => false

/-- A congestion state that was entered and cleared in turn, beginning with entering. -/
structure InTurn (turns : List Transition) (congested : Bool) : Prop where
  alternate : turns.IsChain (· ≠ ·)
  first : ∀ t ∈ turns.head?, t = .entered
  latest : congested = true ↔ turns.getLast? = some .entered

namespace InTurn

variable {turns : List Transition}

theorem enter (h : InTurn turns false) : InTurn (turns ++ [.entered]) true where
  alternate := by
    refine h.alternate.append (.singleton _) fun t ht t' ht' hsame => ?_
    obtain rfl : t' = .entered := by simpa using ht'.symm
    exact Bool.false_ne_true (h.latest.mpr (hsame ▸ ht))
  first := by
    cases turns with
    | nil => simp
    | cons t rest => simpa using h.first t rfl
  latest := by simp

theorem clear (h : InTurn turns true) : InTurn (turns ++ [.cleared]) false where
  alternate := by
    refine h.alternate.append (.singleton _) fun t ht t' ht' hsame => ?_
    have hlast : turns.getLast? = some .entered := h.latest.mp rfl
    rw [hlast] at ht
    obtain rfl : t' = .cleared := by simpa using ht'.symm
    cases ht
    cases hsame
  first := by
    cases turns with
    | nil => cases h.latest.mp rfl
    | cons t rest => simpa using h.first t rfl
  latest := by simp

/-- A transition that tells of the changes, and of nothing else, goes on with the turns. -/
theorem concat {before after : Bool} {transition : Transition} (h : InTurn turns before)
    (hentered : transition = .entered ↔ before = false ∧ after = true)
    (hcleared : transition = .cleared ↔ before = true ∧ after = false) :
    InTurn (turns ++ [transition].filter (·.isTurn)) after := by
  have hsame (hneither : transition ≠ .entered ∧ transition ≠ .cleared) : after = before := by
    cases before <;> cases after <;> simp_all
  cases transition with
  | entered =>
    obtain ⟨rfl, rfl⟩ := hentered.mp rfl
    exact h.enter
  | cleared =>
    obtain ⟨rfl, rfl⟩ := hcleared.mp rfl
    exact h.clear
  | insufficient | held =>
    rw [hsame (by simp)]
    simpa [Transition.isTurn] using h

end InTurn

/-! ## One operation -/

namespace Warden

variable {w : Warden} {s : Session} {op : Operation}

/-- Only health cycles that succeed have a part in the history and the congestion state. -/
theorem step_of_silent (h : w.healthReport? s op = none) :
    (w.step s op).state.history = s.state.history ∧ (w.step s op).state.congestion = s.state.congestion := by
  cases op with
  | request r =>
    show (s.state.serve r).1.history = _ ∧ (s.state.serve r).1.congestion = _
    rw [State.serve_frame]
    exact ⟨rfl, rfl⟩
  | securityCycle now =>
    show (w.securityCycle s now).1.state.history = _ ∧ (w.securityCycle s now).1.state.congestion = _
    rw [securityCycle_state, State.securityCycle_frame]
    exact ⟨rfl, rfl⟩
  | healthCycle now =>
    show (w.healthCycle s now).1.state.history = _ ∧ (w.healthCycle s now).1.state.congestion = _
    cases hsample : (w.sample s).2 with
    | error fault =>
      rw [healthCycle_of_error hsample]
      exact ⟨rfl, rfl⟩
    | ok usage =>
      have hok := congrArg Prod.snd (healthCycle_of_ok hsample now)
      simp [healthReport?, hok, Except.toOption] at h

/-- A health cycle that succeeds measures the network, and judges the congestion state by the history that includes
    this measurement. -/
theorem step_of_report {report : HealthReport} (h : w.healthReport? s op = some report) :
    let history := s.state.history.push report.snapshot
    let judged := s.state.congestion.evaluate w.config.congestion history
    (w.step s op).state.history = history ∧ (w.step s op).state.congestion = judged.1 ∧
      report.transition = judged.2 ∧ report.congested = judged.1.congested ∧
      report.windowLatency = judged.1.meanLatency ∧ report.snapshot.latency = s.state.registry.averageLatency := by
  obtain ⟨now, rfl, hok⟩ := healthReport?_eq_some h
  obtain ⟨usage, -, rfl, hstate⟩ := healthCycle_eq_ok hok
  show (w.healthCycle s now).1.state.history = _ ∧ (w.healthCycle s now).1.state.congestion = _ ∧ _
  rw [hstate]
  exact ⟨rfl, rfl, rfl, rfl, rfl, rfl⟩

/-! ## Whole runs -/

variable (w)

/-- The snapshots of the health cycles that succeeded, oldest first. -/
def measurements (ops : List Operation) : List Snapshot := (w.healthReports ops).map (·.snapshot)

/-- The mean latencies that these found. -/
def latencies (ops : List Operation) : List Float := (w.measurements ops).map (·.latency)

/-- The reported changes of the congestion state. -/
def turns (ops : List Operation) : List Transition :=
  ((w.healthReports ops).map (·.transition)).filter (·.isTurn)

variable (ops : List Operation)

theorem measurements_concat (op : Operation) : w.measurements (ops ++ [op]) =
    w.measurements ops ++ (w.healthReport? (w.run w.start ops) op).toList.map (·.snapshot) := by
  rw [measurements, healthReports_concat, List.map_append]
  rfl

theorem turns_concat (op : Operation) : w.turns (ops ++ [op]) = w.turns ops ++
    ((w.healthReport? (w.run w.start ops) op).toList.map (·.transition)).filter (·.isTurn) := by
  rw [turns, healthReports_concat, List.map_append, List.filter_append]
  rfl

theorem capacity_run : (w.run w.start ops).state.history.capacity = w.config.congestion.historyCapacity := by
  induction ops using List.reverseRecOn with
  | nil => rfl
  | append_singleton ops op ih =>
    rw [run_concat, ← ih]
    cases h : w.healthReport? (w.run w.start ops) op with
    | none => rw [(step_of_silent h).1]
    | some report =>
      rw [(step_of_report h).1]
      rfl

/-- The history holds the newest measurements of the run. -/
theorem snapshots_run : (w.run w.start ops).state.history.snapshots =
    History.newest (max w.config.congestion.historyCapacity 1) (w.measurements ops) := by
  induction ops using List.reverseRecOn with
  | nil => exact List.drop_nil.symm
  | append_singleton ops op ih =>
    rw [run_concat, measurements_concat]
    cases h : w.healthReport? (w.run w.start ops) op with
    | none => rw [(step_of_silent h).1, ih, Option.toList_none, List.map_nil, List.append_nil]
    | some report =>
      have hpush : ((w.run w.start ops).state.history.push report.snapshot).snapshots =
          History.newest (max (w.run w.start ops).state.history.capacity 1)
            ((w.run w.start ops).state.history.snapshots ++ [report.snapshot]) := rfl
      rw [(step_of_report h).1, hpush, capacity_run, ih]
      exact History.newest_newest_concat ..

/-- What the congestion state is judged by: the mean of the newest latencies of the run, if there are enough. -/
theorem windowMean?_run (hwindow : 0 < w.config.congestion.window)
    (hroom : w.config.congestion.window ≤ w.config.congestion.historyCapacity) :
    Congestion.windowMean? w.config.congestion (w.run w.start ops).state.history =
      if (w.latencies ops).length < w.config.congestion.window then none
      else some (Congestion.meanOfNewest w.config.congestion.window (w.latencies ops)) := by
  have hlength : (w.latencies ops).length = (w.measurements ops).length := List.length_map ..
  have hsize : (w.run w.start ops).state.history.size =
      min (max w.config.congestion.historyCapacity 1) (w.measurements ops).length := by
    rw [History.size, snapshots_run, History.length_newest]
  have hshort : (w.config.congestion.window = 0 ∨
      (w.run w.start ops).state.history.size < w.config.congestion.window) ↔
      (w.latencies ops).length < w.config.congestion.window := by
    rw [hsize, hlength]
    omega
  unfold Congestion.windowMean? History.lastN? Congestion.meanOfNewest
  simp only [hshort]
  split
  · rfl
  · rw [Option.map_some, snapshots_run, History.newest_newest (by omega), latencies, History.newest_map]

/-- Congestion is entered and cleared in turn. -/
theorem inTurn_run : InTurn (w.turns ops) (w.run w.start ops).state.congestion.congested := by
  induction ops using List.reverseRecOn with
  | nil => exact { alternate := .nil, first := nofun, latest := iff_of_false Bool.false_ne_true nofun }
  | append_singleton ops op ih =>
    rw [run_concat, turns_concat]
    cases h : w.healthReport? (w.run w.start ops) op with
    | none => simpa [(step_of_silent h).2] using ih
    | some report =>
      obtain ⟨-, hafter, htransition, -⟩ := step_of_report h
      obtain ⟨hentered, hcleared⟩ := Congestion.transition_evaluate (w.run w.start ops).state.congestion
        w.config.congestion ((w.run w.start ops).state.history.push report.snapshot)
      rw [← hafter, ← htransition] at hentered hcleared
      exact ih.concat hentered hcleared

/-! ## Hysteresis -/

/-- How the history and the congestion state after a run depend on what was measured, and what the next operation
    changes. -/
structure FollowsMeasurements (w : Warden) (ops : List Operation) : Prop where
  /-- The history holds the newest snapshots, as many as it has room for, oldest first. -/
  history : (w.run w.start ops).state.history.snapshots =
    History.newest w.config.congestion.historyCapacity (w.measurements ops)
  /-- The next health cycle that succeeds measures the mean latency of the peers and evaluates it together with those
      before. -/
  evaluation : ∀ op report, w.healthReport? (w.run w.start ops) op = some report →
    report.snapshot.latency = (w.run w.start ops).state.registry.averageLatency ∧
      Congestion.Follows w.config.congestion (w.latencies ops ++ [report.snapshot.latency])
        (w.run w.start ops).state.congestion (w.step (w.run w.start ops) op).state.congestion report.transition
  /-- Its report shows the congestion state that it leaves. -/
  reported : ∀ op report, w.healthReport? (w.run w.start ops) op = some report →
    report.congested = (w.step (w.run w.start ops) op).state.congestion.congested ∧
      report.windowLatency = (w.step (w.run w.start ops) op).state.congestion.meanLatency
  /-- Anything else that may come next, such as a request, a security cycle or a health cycle that fails, leaves the
      history and the congestion state alone. -/
  untouched : ∀ op, w.healthReport? (w.run w.start ops) op = none →
    (w.step (w.run w.start ops) op).state.history = (w.run w.start ops).state.history ∧
      (w.step (w.run w.start ops) op).state.congestion = (w.run w.start ops).state.congestion
  /-- Entering and clearing take turns, and the network counts as congested if the latest turn was to enter. -/
  turns : InTurn (w.turns ops) (w.run w.start ops).state.congestion.congested
  /-- Blocks of any size are relayed as in a congested network exactly while the network counts as congested. -/
  relayed : ((w.run w.start ops).state.congestion.policy = .congested ↔
      (w.run w.start ops).state.congestion.congested = true) ∧
    ((w.run w.start ops).state.congestion.policy = .normal ↔ (w.run w.start ops).state.congestion.congested = false)

/-- **Congestion follows the measurements with hysteresis.** -/
theorem congestion_follows_measurements (w : Warden) (ops : List Operation) (hvalid : w.config.isValid = true) :
    w.FollowsMeasurements ops := by
  have hcapacity : 0 < w.config.congestion.historyCapacity := by
    simpa [Rule.holds] using Config.holds_of_isValid hvalid .someHistory
  have hwindow : 0 < w.config.congestion.window ∧
      w.config.congestion.window ≤ w.config.congestion.historyCapacity := by
    simpa [Rule.holds] using Config.holds_of_isValid hvalid .windowWithinHistory
  have hmarks : w.config.congestion.lowWaterMs < w.config.congestion.highWaterMs := by
    simpa [Rule.holds] using Config.holds_of_isValid hvalid .marksInOrder
  constructor
  case history => rw [snapshots_run, Nat.max_eq_left hcapacity]
  case evaluation =>
    intro op report h
    obtain ⟨hhistory, hafter, htransition, -, -, hmeasured⟩ := step_of_report h
    refine ⟨hmeasured, ?_⟩
    have hlatencies : w.latencies (ops ++ [op]) = w.latencies ops ++ [report.snapshot.latency] := by
      rw [latencies, measurements_concat, h, List.map_append]
      rfl
    -- The history that is judged is the one that the cycle leaves.
    have hmean := w.windowMean?_run (ops ++ [op]) hwindow.1 hwindow.2
    rw [run_concat, hhistory, hlatencies] at hmean
    rw [hafter, htransition]
    exact Congestion.follows_evaluate _ hmarks hmean
  case reported =>
    intro op report h
    obtain ⟨-, hafter, -, hcongested, hlatency, -⟩ := step_of_report h
    rw [hafter]
    exact ⟨hcongested, hlatency⟩
  case untouched => exact fun op h => step_of_silent h
  case turns => exact w.inTurn_run ops
  case relayed => exact Congestion.policy_iff _

/-- A window of two measurements: the second one fills it, the third one lies between the marks together with the second,
    and the fourth one clears the congestion. -/
theorem congestion_enters_and_clears :
    let w := standalone { congestion := { historyCapacity := 2, window := 2 } }
    let ops : List Operation :=
      [.request (.register "p" "a" 0), .request (.latency "p" 600.0), .healthCycle 1, .healthCycle 2,
        .request (.latency "p" 100.0), .healthCycle 3, .securityCycle 4, .healthCycle 5]
    w.config.isValid = true ∧
      (w.healthReports ops).map (·.transition) = [.insufficient, .entered, .held, .cleared] ∧
      w.FollowsMeasurements ops := by
  intro w ops
  have hvalid : w.config.isValid = true := by decide +kernel
  refine ⟨hvalid, ?_, congestion_follows_measurements w ops hvalid⟩
  decide +kernel

end Warden

end PeerWarden
