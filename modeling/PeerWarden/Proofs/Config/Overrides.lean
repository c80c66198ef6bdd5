import PeerWarden.Config.Reader
import PeerWarden.Proofs.Config.Settings
import PeerWarden.Proofs.Toml.Tables

/-!
# Configuration Files Override What They Name

What a configuration file says, statement by statement, against what is loaded from it. A file may name sections and
settings in any order, leave sections empty or out, and say whatever it likes of everything that is no setting.

## Main definitions

- `Kind.Denotes`: the values in documents that stand for the value of a setting
- `Writes`: a document gives values to settings, and to no others

## Main statements

- `parse?_of_writes`: what is read from such a document, before the rules are checked
- `overrides_exactly`: what is loaded from it
-/

namespace PeerWarden.Config

open Toml (Scalar Statement Saying Entries sayings below)
open Toml.Grammar (Spelled tableStatements)
open Toml.Writer (Table)

/-! ## Documents that give values to settings -/

/-- The values in documents that stand for a value of a kind. An integer may stand for a real. -/
inductive Kind.Denotes : (kind : Kind) → Scalar → kind.Value → Prop
  | natural (n : Nat) : Denotes .natural (.integer n) n
  | real (x : Float) : Denotes .real (.real x) x
  | whole (n : Int) : Denotes .real (.integer n) (Float.ofInt n)
  | flag (b : Bool) : Denotes .flag (.flag b) b
  | text (s : String) : Denotes .text (.text s) s

/-- A document gives exactly these values to settings. -/
structure Writes (statements : List Statement) (o : Overrides) : Prop where
  /-- Where a section has its place, there is a table if there is anything. -/
  sections : ∀ g ∈ schema, ∀ saying, ([g.name], saying) ∈ sayings statements → saying = .table
  /-- Where a setting has its place, there is its new value if there is anything, and nothing is said of places inside
      of it. -/
  values : ∀ g ∈ schema, ∀ s ∈ g.settings, ∀ said ∈ sayings statements, [g.name, s.key] <+: said.1 →
    said.1 = [g.name, s.key] ∧ ∃ v x, said.2 = .value (.scalar v) ∧ s.kind.Denotes v x ∧ o s = some x
  /-- No new value is left out. -/
  complete : ∀ g ∈ schema, ∀ s ∈ g.settings, o s ≠ none → ∃ saying, ([g.name, s.key], saying) ∈ sayings statements

/-- Whether tables give exactly these values to settings, whatever else they hold. -/
structure TablesGive (tables : List Table) (o : Overrides) : Prop where
  values : ∀ t ∈ tables, ∀ entry ∈ t.entries, ∀ g ∈ schema, ∀ s ∈ g.settings, g.name = t.name → s.key = entry.1 →
    ∃ x, s.kind.Denotes entry.2 x ∧ o s = some x
  complete : ∀ g ∈ schema, ∀ s ∈ g.settings, o s ≠ none → ∃ t ∈ tables, t.name = g.name ∧ s.key ∈ t.entries.map Prod.fst

/-- Tables that give values to settings make a document that does. -/
theorem writes_tables {tables : List Table} {o : Overrides} (h : TablesGive tables o) :
    Writes (tables.flatMap tableStatements) o where
  sections := by
    intro g hg saying hmem
    obtain ⟨t, -, hsaid | ⟨entry, -, hsaid⟩⟩ := Toml.Grammar.mem_sayings_tables.mp hmem
    · exact (Prod.mk.inj hsaid).2
    · simp at hsaid
  values := by
    intro g hg s hs said hmem hprefix
    obtain ⟨t, ht, rfl | ⟨entry, hentry, rfl⟩⟩ := Toml.Grammar.mem_sayings_tables.mp hmem
    · simp at hprefix
    · obtain ⟨hname, hkey⟩ : g.name = t.name ∧ s.key = entry.1 := by simpa using hprefix
      obtain ⟨x, hdenotes, hx⟩ := h.values t ht entry hentry g hg s hs hname hkey
      exact ⟨by rw [hname, hkey], _, x, rfl, hdenotes, hx⟩
  complete := by
    intro g hg s hs ho
    obtain ⟨t, ht, hname, hkey⟩ := h.complete g hg s hs ho
    obtain ⟨entry, hentry, hkey⟩ := List.mem_map.mp hkey
    refine ⟨.value (.scalar entry.2), Toml.Grammar.mem_sayings_tables.mpr ⟨t, ht, .inr ⟨entry, hentry, ?_⟩⟩⟩
    rw [hname, hkey]

/-! ## Reading them -/

section

variable {statements : List Statement} {entries inner : Entries} {o : Overrides} {g : Group} {s : Setting}

theorem ofNode?_of_denotes {kind : Kind} {v : Scalar} {x : kind.Value} (h : kind.Denotes v x) :
    kind.ofNode? (.scalar v) = some x := by
  cases h with
  | natural n => simp [Kind.ofNode?]
  | real x => rfl
  | whole n => rfl
  | flag b => rfl
  | text s => rfl

/-- The table of a section has the new values of its settings and nothing for the others. -/
theorem lookup_of_writes (hwrites : Writes statements o) (hg : g ∈ schema) (hs : s ∈ g.settings)
    (hrecords : Entries.Records (below g.name (sayings statements)) [] inner) :
    (inner.lookup s.key = none ∧ o s = none) ∨
      ∃ v x, inner.lookup s.key = some (.scalar v) ∧ s.kind.Denotes v x ∧ o s = some x := by
  have hvalue {path saying} (h : (s.key :: path, saying) ∈ below g.name (sayings statements)) :
      path = [] ∧ ∃ v x, saying = .value (.scalar v) ∧ s.kind.Denotes v x ∧ o s = some x := by
    obtain ⟨hpath, hvalue⟩ := hwrites.values g hg s hs _ (Toml.mem_below.mp h) ⟨path, rfl⟩
    exact ⟨by simpa using hpath, hvalue⟩
  have hfound := hrecords s.key fun said hsaid hhead => by
    obtain ⟨path, saying⟩ := said
    obtain ⟨rest, rfl⟩ := List.head?_eq_some_iff.mp hhead
    obtain ⟨rfl, v, x, rfl, -⟩ := hvalue hsaid
    exact ⟨rfl, _, rfl⟩
  cases ho : o s with
  | none =>
    refine .inl ⟨Option.eq_none_iff_forall_ne_some.mpr fun m hm => ?_, rfl⟩
    obtain h | ⟨e, hmem, -⟩ := (hfound m).mp hm
    · cases h
    · obtain ⟨-, v, x, -, -, hsome⟩ := hvalue hmem
      rw [ho] at hsome
      cases hsome
  | some x =>
    obtain ⟨saying, hmem⟩ := hwrites.complete g hg s hs (by simp [ho])
    obtain ⟨-, v, x', rfl, hdenotes, hsome⟩ := hvalue (Toml.mem_below.mpr hmem)
    exact .inr ⟨v, x', (hfound _).mpr (.inr ⟨_, Toml.mem_below.mpr hmem, rfl⟩), hdenotes, ho ▸ hsome⟩

/-- If every step succeeds, so do all of them together. -/
theorem foldlM_eq_foldl {α β : Type} {f : β → α → Option β} {step : β → α → β} {xs : List α}
    (h : ∀ x ∈ xs, ∀ b, f b x = some (step b x)) (b : β) : xs.foldlM f b = some (xs.foldl step b) := by
  induction xs generalizing b with
  | nil => rfl
  | cons x xs ih =>
    obtain ⟨hx, h⟩ := List.forall_mem_cons.mp h
    rw [List.foldlM_cons, hx]
    exact ih h _

/-- A section is read from a table that has the new values of its settings and nothing for the others. -/
theorem readTable?_of_writes (hwrites : Writes statements o) (hg : g ∈ schema)
    (hrecords : Entries.Records (below g.name (sayings statements)) [] inner) (c : Config) :
    Group.readTable? g.settings inner c = some (g.settings.foldl (Setting.override o) c) := by
  refine foldlM_eq_foldl (fun s hs c => ?_) c
  obtain ⟨hlookup, ho⟩ | ⟨v, x, hlookup, hdenotes, ho⟩ := lookup_of_writes hwrites hg hs hrecords
  · simp only [hlookup, Setting.override, ho]
  · simp only [hlookup, Setting.override, ho, Setting.read?, ofNode?_of_denotes hdenotes, Option.map_some]

theorem readTable?_nil (ss : List Setting) (c : Config) : Group.readTable? ss [] c = some c := by
  induction ss with
  | nil => rfl
  | cons s ss ih => exact ih

/-- A document that gives values to settings describes the configuration with these values. -/
theorem ofEntries?_of_writes (hwrites : Writes statements o) (h : Entries.ofStatements? statements = some entries) :
    ofEntries? entries = some (overridden o) := by
  rw [overridden, settings, List.foldl_flatMap]
  refine foldlM_eq_foldl (fun g hg c => ?_) _
  obtain ⟨inner, hunder, hrecords⟩ := Entries.exists_under h (hwrites.sections g hg)
  have hread := readTable?_of_writes hwrites hg hrecords c
  cases hunder with
  | absent hnone =>
    -- A section that is left out reads as an empty one.
    rw [readTable?_nil] at hread
    simp only [hnone, hread]
  | table hsome =>
    simp only [hsome]
    exact hread

end

/-! ## Loading them -/

section

variable {text text' : String} {o o' : Overrides} {rule : Rule} {earlier later : List Rule}

/-- A text is a well-formed document that gives exactly these values to settings. It is spelled as the grammar asks, and
    its statements do not contradict each other: either it is a document of tables in which nothing is said twice, or at
    least it has a tree. -/
def Gives (text : String) (o : Overrides) : Prop :=
  ∃ statements, Spelled text statements ∧
    ((Toml.Document.ofStatements statements).Plain ∨ (Entries.ofStatements? statements).isSome) ∧ Writes statements o

theorem parse?_of_gives (h : Gives text o) : parse? text = some (overridden o) := by
  obtain ⟨statements, hspelled, hwell, hwrites⟩ := h
  have hconsistent : (Entries.ofStatements? statements).isSome := hwell.elim Toml.Document.Plain.consistent id
  obtain ⟨entries, hentries⟩ := Option.isSome_iff_exists.mp hconsistent
  rw [parse?, Toml.Grammar.read?_of_spelled hspelled, Option.bind_some, hentries, Option.bind_some,
    ofEntries?_of_writes hwrites hentries]

theorem load_of_valid (h : Gives text o) (hvalid : (overridden o).isValid = true) : load text = .ok (overridden o) := by
  simp only [load, parse?_of_gives h, broken?_eq_none_iff.mpr hvalid]

/-- The rule that is reported is the first one that is broken. -/
theorem broken?_eq_some {c : Config} (hall : Rule.all = earlier ++ rule :: later)
    (hearlier : ∀ r ∈ earlier, r.holds c = true) (hrule : rule.holds c = false) : c.broken? = some rule := by
  have hnone : earlier.find? (fun r => !r.holds c) = none := by simpa using hearlier
  rw [broken?, hall, List.find?_append, hnone, Option.none_or, List.find?_cons_of_pos (by simp [hrule])]

theorem load_of_broken (h : Gives text o) (hall : Rule.all = earlier ++ rule :: later)
    (hearlier : ∀ r ∈ earlier, r.holds (overridden o) = true) (hrule : rule.holds (overridden o) = false) :
    load text = .error (.broken rule (overridden o)) := by
  simp only [load, parse?_of_gives h, broken?_eq_some hall hearlier hrule]

/-- What a configuration file says of the settings replaces their defaults, and nothing else in it counts: neither the
    order of what it says, nor what it says of other things, nor which sections it leaves empty or out. If the
    configuration with these values breaks rules, the first of them is reported. Two files that give the same values,
    one of them perhaps by not mentioning a default, load alike. -/
theorem overrides_exactly (h : Gives text o) :
    (∀ s ∈ settings, s.get (overridden o) = (o s).getD (s.get {})) ∧
    ((overridden o).isValid = true → load text = .ok (overridden o)) ∧
    (∀ earlier rule later, Rule.all = earlier ++ rule :: later → (∀ r ∈ earlier, r.holds (overridden o) = true) →
      rule.holds (overridden o) = false → load text = .error (.broken rule (overridden o))) ∧
    ∀ text' o', Gives text' o' → (∀ s ∈ settings, (o s).getD (s.get {}) = (o' s).getD (s.get {})) →
      load text' = load text := by
  refine ⟨fun s hs => get_overridden hs o, load_of_valid h, fun _ _ _ => load_of_broken h, fun text' o' h' hsame => ?_⟩
  have hconfig : overridden o' = overridden o := (overridden_congr hsame).symm
  rw [load, load, parse?_of_gives h, parse?_of_gives h', hconfig]

end

/-! ### A file with unknown names -/

/-- Values for two settings. -/
def roomyLocal : Overrides := fun s =>
  match s with
  | { key := "max_peers", kind := .natural, .. } => some (60 : Nat)
  | { key := "bind", kind := .text, .. } => some "localhost"
  | _ => none

/-- Tables that give these values, the sections not in their order, with an empty section, an unknown key and an unknown
    table. -/
def roomyLocalTables : List Table :=
  [{ name := "metrics", entries := [("colour", .integer 3), ("bind", .text "localhost")] },
   { name := "schedule", entries := [] },
   { name := "extra", entries := [("max_peers", .flag true)] },
   { name := "pool", entries := [("max_peers", .integer 60)] }]

theorem tablesGive_roomyLocal : TablesGive roomyLocalTables roomyLocal where
  values := by
    intro t ht entry hentry g hg s hs hname hkey
    simp only [roomyLocalTables, List.mem_cons, List.not_mem_nil, or_false] at ht
    obtain rfl | rfl | rfl | rfl := ht
    · obtain rfl : g = .metrics := group_of_name hg (by simp [schema]) hname
      simp only [List.mem_cons, List.not_mem_nil, or_false] at hentry
      obtain rfl | rfl := hentry
      · exact absurd hkey ((by decide : ∀ s ∈ Group.metrics.settings, s.key ≠ "colour") s hs)
      · obtain rfl := setting_of_key hg hs (List.mem_cons_of_mem _ List.mem_cons_self) hkey
        exact ⟨_, .text _, rfl⟩
    · cases hentry
    · exact absurd hname ((by decide : ∀ g ∈ schema, g.name ≠ "extra") g hg)
    · obtain rfl : g = .pool := group_of_name hg (by simp [schema]) hname
      obtain rfl := List.mem_singleton.mp hentry
      obtain rfl := setting_of_key hg hs List.mem_cons_self hkey
      exact ⟨_, .natural 60, rfl⟩
  complete := by decide +kernel

/-- The two values are taken from the file, and everything else is left at its default. -/
theorem overrides_exactly_roomyLocal :
    let text := "[metrics]\ncolour = 3\nbind = \"localhost\"\n\n[schedule]\n\n[extra]\nmax_peers = true\n\n" ++
      "[pool]\nmax_peers = 60\n"
    Gives text roomyLocal ∧ load text = .ok { pool.maxPeers := 60, metrics.bind := "localhost" } := by
  intro text
  have htext : Toml.Writer.text? roomyLocalTables = some text := by decide +kernel
  have hplain : (Toml.Document.ofStatements (roomyLocalTables.flatMap tableStatements)).Plain :=
    Toml.Grammar.plain_tables (by decide) (by decide)
  have hgives : Gives text roomyLocal :=
    ⟨_, Toml.Grammar.spelled_of_text? htext, .inl hplain, writes_tables tablesGive_roomyLocal⟩
  have hvalid : (overridden roomyLocal).isValid = true := by decide +kernel
  exact ⟨hgives, (overrides_exactly hgives).2.1 hvalid⟩

end PeerWarden.Config
