import Mathlib.Data.List.Nodup
import PeerWarden.Config.Schema

/-!
# Laws of the Settings

Each setting is a place of its own in the configuration: what is put there is found there, nothing else changes with
it, and the configuration is no more than what its settings have. Hence a configuration is given by the values of some
settings, with defaults for all others.

## Main definitions

- `settings`: all settings in their order
- `Overrides`, `overridden`: values for some settings, and the configuration with these in place of the defaults

## Main statements

- `get_overridden`: what a setting has in such a configuration
- `overridden_own`: a configuration is given by its own values
-/

namespace PeerWarden.Config

/-- All settings in their order. -/
def settings : List Setting := schema.flatMap Group.settings

theorem mem_settings {g : Group} {s : Setting} (hg : g ∈ schema) (hs : s ∈ g.settings) : s ∈ settings :=
  List.mem_flatMap.mpr ⟨g, hg, hs⟩

/-! ## Names -/

/-- Sections are told apart by their names. -/
theorem group_of_name {g g' : Group} (hg : g ∈ schema) (hg' : g' ∈ schema) (h : g.name = g'.name) : g = g' :=
  List.inj_on_of_nodup_map (f := Group.name) (by decide) hg hg' h

/-- Settings of a section are told apart by their keys. -/
theorem setting_of_key {g : Group} {s s' : Setting} (hg : g ∈ schema) (hs : s ∈ g.settings) (hs' : s' ∈ g.settings)
    (h : s.key = s'.key) : s = s' := by
  have hnodup : ∀ g ∈ schema, (g.settings.map Setting.key).Nodup := by decide
  exact List.inj_on_of_nodup_map (hnodup g hg) hs hs' h

/-! ## Places -/

/-- Two settings are apart if neither changes with the other. -/
def Setting.Apart (s t : Setting) : Prop :=
  (∀ v c, t.get (s.set v c) = t.get c) ∧ ∀ v c, s.get (t.set v c) = s.get c

/-- No setting changes with another one. -/
theorem settings_apart : settings.Pairwise Setting.Apart := by
  simp only [settings, schema, List.flatMap_cons, List.flatMap_nil, Group.pool, Group.dosProtection, Group.security,
    Group.congestion, Group.schedule, Group.sampler, Group.metrics, List.cons_append, List.nil_append,
    List.pairwise_cons, List.forall_mem_cons, List.not_mem_nil, false_implies, implies_true, and_true,
    List.Pairwise.nil]
  repeat' apply And.intro
  all_goals exact fun _ _ => rfl

/-- A setting has the value that is put there. -/
theorem get_set : ∀ s ∈ settings, ∀ v c, s.get (s.set v c) = v := by
  simp only [settings, schema, List.flatMap_cons, List.flatMap_nil, Group.pool, Group.dosProtection, Group.security,
    Group.congestion, Group.schedule, Group.sampler, Group.metrics, List.cons_append, List.nil_append,
    List.forall_mem_cons, List.not_mem_nil, false_implies, implies_true, and_true]
  repeat' apply And.intro
  all_goals exact fun _ _ => rfl

/-- Configurations whose settings agree are equal. -/
theorem ext_settings {c c' : Config} (h : ∀ s ∈ settings, s.get c = s.get c') : c = c' := by
  obtain ⟨⟨⟩, ⟨⟩, ⟨⟩, ⟨⟩, ⟨⟩, ⟨⟩, ⟨⟩⟩ := c
  obtain ⟨⟨⟩, ⟨⟩, ⟨⟩, ⟨⟩, ⟨⟩, ⟨⟩, ⟨⟩⟩ := c'
  simpa [settings, schema, Group.pool, Group.dosProtection, Group.security, Group.congestion, Group.schedule,
    Group.sampler, Group.metrics, Setting.natural, Setting.real, Setting.flag, Setting.text, and_assoc] using h

/-! ## Overrides -/

/-- Values for some of the settings. -/
abbrev Overrides := (s : Setting) → Option s.kind.Value

variable {o : Overrides} {s : Setting} {ss : List Setting} {c : Config}

/-- A configuration in which a setting has its new value, if there is one. -/
def Setting.override (o : Overrides) (c : Config) (s : Setting) : Config :=
  match o s with
  | none => c
  | some v => s.set v c

/-- The default configuration with some settings replaced. -/
def overridden (o : Overrides) : Config := settings.foldl (Setting.override o) {}

theorem Setting.get_override (hs : s ∈ settings) (o : Overrides) (c : Config) :
    s.get (s.override o c) = (o s).getD (s.get c) := by
  unfold Setting.override
  cases o s with
  | none => rfl
  | some v => exact get_set s hs v c

theorem Setting.Apart.get_override {t : Setting} (h : s.Apart t) (o : Overrides) (c : Config) :
    t.get (s.override o c) = t.get c ∧ s.get (t.override o c) = s.get c := by
  unfold Setting.override
  refine ⟨?_, ?_⟩
  · cases o s with
    | none => rfl
    | some v => exact h.1 v c
  · cases o t with
    | none => rfl
    | some v => exact h.2 v c

/-- A setting is not changed by those apart from it. -/
theorem get_foldl_of_apart (h : ∀ t ∈ ss, s.Apart t) (o : Overrides) (c : Config) :
    s.get (ss.foldl (Setting.override o) c) = s.get c := by
  induction ss generalizing c with
  | nil => rfl
  | cons t ss ih =>
    obtain ⟨ht, h⟩ := List.forall_mem_cons.mp h
    rw [List.foldl_cons, ih h, (ht.get_override o c).2]

theorem get_foldl (hpairwise : ss.Pairwise Setting.Apart) (hsettings : ss ⊆ settings) (hs : s ∈ ss) (o : Overrides)
    (c : Config) : s.get (ss.foldl (Setting.override o) c) = (o s).getD (s.get c) := by
  induction ss generalizing c with
  | nil => cases hs
  | cons t ss ih =>
    obtain ⟨ht, hpairwise⟩ := List.pairwise_cons.mp hpairwise
    obtain ⟨hmem, hsettings⟩ := List.cons_subset.mp hsettings
    rw [List.foldl_cons]
    obtain rfl | hs := List.mem_cons.mp hs
    · rw [get_foldl_of_apart ht, Setting.get_override hmem]
    · rw [ih hpairwise hsettings hs, ((ht s hs).get_override o c).1]

/-- A setting has its new value if there is one, and its default otherwise. -/
theorem get_overridden (hs : s ∈ settings) (o : Overrides) : s.get (overridden o) = (o s).getD (s.get {}) :=
  get_foldl settings_apart (List.Subset.refl _) hs o {}

/-- A configuration is given by its own values. -/
theorem overridden_own (c : Config) : overridden (fun s => some (s.get c)) = c :=
  ext_settings fun _ hs => get_overridden hs _

/-- Values that stand for the same settings give the same configuration. -/
theorem overridden_congr {o o' : Overrides} (h : ∀ s ∈ settings, (o s).getD (s.get {}) = (o' s).getD (s.get {})) :
    overridden o = overridden o' :=
  ext_settings fun s hs => by rw [get_overridden hs, get_overridden hs, h s hs]

end PeerWarden.Config
