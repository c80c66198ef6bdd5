import PeerWarden.Config.Printer
import PeerWarden.Proofs.Config.Overrides

/-!
# Printed Configurations Are Loaded

Any values of settings can be written as a document, if their integers fit; what is written gives just these values.
With all values of one configuration this is the printed configuration, so it is loaded as it was.

## Main definitions

- `tablesOf`: some values of settings as tables

## Main statements

- `gives_of_text?`: what is written gives the values
- `exists_gives`: all values can be written
- `print_load`: a configuration is loaded as it was printed
-/

namespace PeerWarden.Config

open Toml (Scalar)
open Toml.Grammar (tableStatements)
open Toml.Writer (Table)

/-! ## Values as tables -/

section

variable {o : Overrides} {g g' : Group} {s s' : Setting}

/-- The entry of a setting that has a value. -/
def entryOf? (o : Overrides) (s : Setting) : Option (String × Scalar) := (o s).map fun x => (s.key, s.kind.toScalar x)

/-- The values of some settings as tables, one for each section. -/
def tablesOf (o : Overrides) : List Table :=
  schema.map fun g => { name := g.name, entries := g.settings.filterMap (entryOf? o) }

theorem denotes_toScalar {kind : Kind} (x : kind.Value) : kind.Denotes (kind.toScalar x) x := by
  cases kind with
  | natural => exact .natural x
  | real => exact .real x
  | flag => exact .flag x
  | text => exact .text x

/-- The entry of a setting is found under its own name and key, and no other entry is. -/
theorem tablesGive_tablesOf (o : Overrides) : TablesGive (tablesOf o) o where
  values := by
    intro t ht entry hentry g hg s hs hname hkey
    obtain ⟨g', hg', rfl⟩ := List.mem_map.mp ht
    obtain rfl := group_of_name hg hg' hname
    obtain ⟨s', hs', hsome⟩ := List.mem_filterMap.mp hentry
    obtain ⟨x, hx, rfl⟩ := Option.map_eq_some_iff.mp hsome
    obtain rfl := setting_of_key hg hs hs' hkey
    exact ⟨x, denotes_toScalar x, hx⟩
  complete := by
    intro g hg s hs ho
    obtain ⟨x, hx⟩ := Option.ne_none_iff_exists'.mp ho
    refine ⟨_, List.mem_map_of_mem hg, rfl, List.mem_map.mpr ⟨(s.key, s.kind.toScalar x), ?_, rfl⟩⟩
    exact List.mem_filterMap.mpr ⟨s, hs, by rw [entryOf?, hx]; rfl⟩

/-- No two sections have the same name, nor two settings of one of them the same key. -/
theorem plain_tablesOf (o : Overrides) :
    (Toml.Document.ofStatements ((tablesOf o).flatMap tableStatements)).Plain := by
  refine Toml.Grammar.plain_tables ?_ fun t ht => ?_
  · rw [tablesOf, List.map_map]
    exact (by decide : (schema.map Group.name).Nodup)
  · obtain ⟨g, hg, rfl⟩ := List.mem_map.mp ht
    have hkeys (ss : List Setting) : ((ss.filterMap (entryOf? o)).map Prod.fst).Sublist (ss.map Setting.key) := by
      induction ss with
      | nil => exact .slnil
      | cons s ss ih =>
        cases ho : o s with
        | none => simpa [entryOf?, ho] using ih.cons _
        | some x => simpa [entryOf?, ho] using ih
    exact (hkeys g.settings).nodup ((by decide : ∀ g ∈ schema, (g.settings.map Setting.key).Nodup) g hg)

/-- What is written gives the values. -/
theorem gives_of_text? {text : String} (h : Toml.Writer.text? (tablesOf o) = some text) : Gives text o :=
  ⟨_, Toml.Grammar.spelled_of_text? h, .inl (plain_tablesOf o), writes_tables (tablesGive_tablesOf o)⟩

/-! ## What can be written -/

/-- A value of a kind that can be written: only integers have a bound. -/
def Kind.Fits (kind : Kind) (x : kind.Value) : Prop := ∀ n : Int, kind.toScalar x = .integer n → n ≤ Toml.maxInteger

theorem exists_scalarText {kind : Kind} {x : kind.Value} (h : kind.Fits x) :
    ∃ text, Toml.Writer.scalarText? (kind.toScalar x) = some text := by
  cases kind with
  | natural =>
    have hmax : (x : Int) ≤ Toml.maxInteger := h _ rfl
    have hmin : Toml.minInteger ≤ (x : Int) := Int.le_trans (by decide) (Int.natCast_nonneg x)
    exact ⟨_, if_pos ⟨hmin, hmax⟩⟩
  | real => exact ⟨_, rfl⟩
  | flag => exact ⟨_, rfl⟩
  | text => exact ⟨_, rfl⟩

theorem exists_mapM {α β : Type} {f : α → Option β} {xs : List α} (h : ∀ x ∈ xs, ∃ y, f x = some y) :
    ∃ ys, xs.mapM f = some ys := by
  induction xs with
  | nil => exact ⟨[], rfl⟩
  | cons x xs ih =>
    obtain ⟨hx, h⟩ := List.forall_mem_cons.mp h
    obtain ⟨y, hy⟩ := hx
    obtain ⟨ys, hys⟩ := ih h
    exact ⟨y :: ys, by rw [List.mapM_cons, hy, hys]; rfl⟩

theorem exists_text (h : ∀ s ∈ settings, ∀ x, o s = some x → s.kind.Fits x) :
    ∃ text, Toml.Writer.text? (tablesOf o) = some text := by
  have htable : ∀ t ∈ tablesOf o, ∃ text, Toml.Writer.tableText? t = some text := by
    intro t ht
    obtain ⟨g, hg, rfl⟩ := List.mem_map.mp ht
    have hentry : ∀ entry ∈ g.settings.filterMap (entryOf? o), ∃ text, Toml.Writer.entryText? entry = some text := by
      intro entry hentry
      obtain ⟨s, hs, hsome⟩ := List.mem_filterMap.mp hentry
      obtain ⟨x, hx, rfl⟩ := Option.map_eq_some_iff.mp hsome
      obtain ⟨value, hvalue⟩ := exists_scalarText (h s (mem_settings hg hs) x hx)
      exact ⟨_, Option.map_eq_some_iff.mpr ⟨value, hvalue, rfl⟩⟩
    obtain ⟨lines, hlines⟩ := exists_mapM hentry
    exact ⟨_, Option.map_eq_some_iff.mpr ⟨lines, hlines, rfl⟩⟩
  obtain ⟨texts, htexts⟩ := exists_mapM htable
  exact ⟨_, Option.map_eq_some_iff.mpr ⟨texts, htexts, rfl⟩⟩

/-- Whatever values are to be given to settings, there is a document that does so, if the integers fit. -/
theorem exists_gives (h : ∀ s ∈ settings, ∀ x, o s = some x → s.kind.Fits x) : ∃ text, Gives text o :=
  (exists_text h).imp fun _ => gives_of_text?

end

/-! ## Printed configurations -/

theorem tablesOf_own (c : Config) : tablesOf (fun s => some (s.get c)) = c.tables := by
  refine List.map_congr_left fun g _ => ?_
  exact congrArg (Table.mk g.name) (congrFun (List.filterMap_eq_map (f := Setting.entry c)) g.settings)

/-- A valid configuration whose integers fit can be printed, and from what is printed the same configuration is loaded,
    with every number and every character as it was. -/
theorem print_load (c : Config) (hvalid : c.isValid = true) (hfits : ∀ s ∈ settings, s.kind.Fits (s.get c)) :
    ∃ text, c.print? = some text ∧ load text = .ok c := by
  obtain ⟨text, htext⟩ := exists_text (o := fun s => some (s.get c)) fun s hs x hx => by
    cases hx
    exact hfits s hs
  have hload := load_of_valid (gives_of_text? htext) (by rwa [overridden_own])
  rw [overridden_own] at hload
  exact ⟨text, by rw [print?, ← tablesOf_own, htext], hload⟩

/-- A text in which everything stands that a printer could stumble over, and reals that are no numbers. -/
theorem print_load_odd :
    let c : Config :=
      { sampler := { memPct := 0.0 / 0.0, diskPct := -1.0 / 0.0, blockRate := -0.0 }
        metrics := { bind := "\"\"\"'''\n\\\x01\r\t\"" } }
    c.isValid = true ∧ (∀ s ∈ settings, s.kind.Fits (s.get c)) ∧ ∃ text, c.print? = some text ∧ load text = .ok c := by
  intro c
  have hvalid : c.isValid = true := by decide +kernel
  have hfits : ∀ s ∈ settings, s.kind.Fits (s.get c) := by
    simp +decide [settings, schema, Group.pool, Group.dosProtection, Group.security, Group.congestion, Group.schedule,
      Group.sampler, Group.metrics, Setting.natural, Setting.real, Setting.flag, Setting.text, Kind.Fits, Kind.toScalar,
      Toml.maxInteger, c]
  exact ⟨hvalid, hfits, print_load c hvalid hfits⟩

end PeerWarden.Config
