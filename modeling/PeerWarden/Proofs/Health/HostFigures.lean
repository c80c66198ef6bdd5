import Mathlib.Data.List.Induction
import PeerWarden.Config.Rules
import PeerWarden.Proofs.Cycle.HealthView
import PeerWarden.Proofs.Run.Reports

/-!
# The Configured Host Figures

Without a live sampler, the host figures come from the configuration. They may be written there as infinite or as no
number at all. No rule for configurations looks at them, but every health cycle does: either all health cycles of a
run succeed, or none.

## Main definitions

- `Config.Sampler.usage`: the configured figures, as a sampler reports them
- `HostUsage.malformed?`: the first figure that is refused

## Main statements

- `Config.isValid_sampler`: whether a configuration is valid does not depend on its host figures
- `host_figures_decide`: health cycles stand and fall with these figures
- `valid_without_health`: a valid configuration with which no health cycle succeeds
-/

namespace PeerWarden

/-! ## Figures -/

namespace HostUsage

variable {u : HostUsage}

/-- The first figure that is infinite or no number. -/
def malformed? (u : HostUsage) : Option (String × Float) := u.fields.find? fun field => !field.2.isFinite

theorem malformed?_eq_none_iff :
    u.malformed? = none ↔ u.memPct.isFinite = true ∧ u.diskPct.isFinite = true ∧ u.blockRate.isFinite = true := by
  simp [malformed?, fields]

theorem check_of_finite (h : u.malformed? = none) : u.check = .ok u := by
  unfold malformed? at h
  simp only [check, h]

theorem check_of_malformed {field : String} {value : Float} (h : u.malformed? = some (field, value)) :
    u.check = .error (.readingMalformed field value) := by
  unfold malformed? at h
  simp only [check, h]

end HostUsage

/-- The configured figures of the host. -/
def Config.Sampler.usage (c : Config.Sampler) : HostUsage :=
  { memPct := c.memPct, diskPct := c.diskPct, blockRate := c.blockRate }

/-- The rules for configurations do not look at the host figures. -/
theorem Config.isValid_sampler (cfg : Config) (figures : Config.Sampler) :
    { cfg with sampler := figures }.isValid = cfg.isValid := by
  have hrule (rule : Rule) : rule.holds { cfg with sampler := figures } = rule.holds cfg := by
    cases rule <;> rfl
  simp only [isValid, hrule]

/-! ## Health cycles -/

namespace Warden

/-- How the host figures of a configuration decide the health cycles of a run, and the one that may follow it. -/
structure HostFiguresDecide (w : Warden) (ops : List Operation) : Prop where
  /-- With finite figures, the cycle succeeds. -/
  finite : w.config.sampler.usage.malformed? = none → ∀ now,
    ∃ report, (w.healthCycle (w.run w.start ops) now).2 = .ok report
  /-- Otherwise it fails because of the first figure that is not finite, and changes nothing of the state. -/
  malformed : ∀ field value, w.config.sampler.usage.malformed? = some (field, value) → ∀ now,
    (w.healthCycle (w.run w.start ops) now).2 = .error (.readingMalformed field value) ∧
      (w.healthCycle (w.run w.start ops) now).1.state = (w.run w.start ops).state
  /-- In this case no health cycle of the run has succeeded either. -/
  silent : w.config.sampler.usage.malformed? ≠ none → w.healthReports ops = []

section Fixed

variable {w : Warden} (hfixed : w.sampler = .fixed w.config.sampler)

include hfixed

theorem sample_of_finite (s : Session) (h : w.config.sampler.usage.malformed? = none) :
    (w.sample s).2 = .ok w.config.sampler.usage := by
  simp only [sample, hfixed]
  exact HostUsage.check_of_finite h

theorem healthCycle_of_malformed (s : Session) {field : String} {value : Float}
    (h : w.config.sampler.usage.malformed? = some (field, value)) (now : Instant) :
    w.healthCycle s now = ({ s with samples := s.samples + 1 }, .error (.readingMalformed field value)) := by
  apply healthCycle_of_error
  simp only [sample, hfixed]
  exact HostUsage.check_of_malformed h

theorem healthReports_of_malformed (ops : List Operation) (h : w.config.sampler.usage.malformed? ≠ none) :
    w.healthReports ops = [] := by
  obtain ⟨⟨field, value⟩, hmalformed⟩ := Option.ne_none_iff_exists'.mp h
  induction ops using List.reverseRecOn with
  | nil => rfl
  | append_singleton ops op ih =>
    rw [healthReports_concat, ih, List.nil_append]
    -- A report could only come from a health cycle, and those fail.
    cases hreport : w.healthReport? (w.run w.start ops) op with
    | none => rfl
    | some report =>
      obtain ⟨now, -, hok⟩ := healthReport?_eq_some hreport
      rw [healthCycle_of_malformed hfixed _ hmalformed] at hok
      cases hok

end Fixed

/-- **Health cycles stand and fall with the configured host figures.** Whether the configuration is valid has no part
    in it. -/
theorem host_figures_decide (cfg : Config) (model : Option Classifier) (ops : List Operation) :
    HostFiguresDecide { standalone cfg with classifier := model } ops := by
  generalize hw : ({ standalone cfg with classifier := model } : Warden) = w
  have hfixed : w.sampler = .fixed w.config.sampler := by
    rw [← hw]
    rfl
  constructor
  case finite =>
    intro h now
    exact ⟨_, congrArg Prod.snd (healthCycle_of_ok (sample_of_finite hfixed _ h) now)⟩
  case malformed =>
    intro field value h now
    rw [healthCycle_of_malformed hfixed _ h]
    exact ⟨rfl, rfl⟩
  case silent => exact healthReports_of_malformed hfixed ops

/-- A valid configuration with which no health cycle succeeds: its share of memory is no number. -/
theorem valid_without_health :
    let w := standalone { sampler := { memPct := 0.0 / 0.0 } }
    w.config.isValid = true ∧ (w.healthCycle w.start 0).2.isOk = false := by
  decide +kernel

end Warden

end PeerWarden
