import PeerWarden.Proofs.Toml.Plain
import PeerWarden.Proofs.Toml.Printed

/-!
# Documents of Tables

A document that is written table by table is spelled as the grammar asks, and it says what stands in the tables.

## Main definitions

- `tableStatements`: the statements of a table
- `tableSayings`: what is said by a table

## Main statements

- `spelled_of_text?`: tables are spelled as they were to be written
- `sayings_tables`: what is said by a document of tables
- `plain_tables`: such a document is plain if no name stands twice in its place
-/

namespace PeerWarden.Toml.Grammar

open Writer

/-! ## How tables are spelled -/

/-- What the entry of a table says. -/
def entryStatement (entry : String × Scalar) : Statement := .assign [entry.1] (.scalar entry.2)

/-- What a table says. -/
def tableStatements (t : Table) : List Statement := .table [t.name] :: t.entries.map entryStatement

theorem lineOf_statement {s : List Char} {st : Statement} (h : StatementText s st) : LineOf s (some st) := by
  simpa using LineOf.statement blanks_nil h blanks_nil .none

theorem lines_cons {s rest : List Char} {st : Statement} {sts : List Statement} (h : StatementText s st)
    (hrest : Lines rest sts) : Lines (s ++ '\n' :: rest) (st :: sts) := .cons (lineOf_statement h) .feed hrest

theorem lines_entry {entry : String × Scalar} {text : String} (h : entryText? entry = some text) {rest : List Char}
    {sts : List Statement} (hrest : Lines rest sts) : Lines (text.toList ++ rest) (entryStatement entry :: sts) := by
  obtain ⟨value, hvalue, rfl⟩ := Option.map_eq_some_iff.mp h
  have hexpr : ExprText maxNesting value.toList (.scalar entry.2) := .scalar (scalarText_scalarText? hvalue)
  have hblank : Blanks [' '] := by simp [Blanks, isBlank]
  have hlength : [entry.1].length ≤ maxPathLength := by simp [maxPathLength]
  have hstatement := StatementText.assign (.single (nameText_nameText entry.1)) hlength hblank hblank hexpr
  simpa [entryStatement] using lines_cons hstatement hrest

theorem lines_entries {entries : List (String × Scalar)} {texts : List String}
    (h : entries.mapM entryText? = some texts) {rest : List Char} {sts : List Statement} (hrest : Lines rest sts) :
    Lines ((String.join texts).toList ++ rest) (entries.map entryStatement ++ sts) := by
  induction entries generalizing texts with
  | nil =>
    obtain rfl : [] = texts := by simpa using h
    simpa using hrest
  | cons entry entries ih =>
    rw [List.mapM_cons] at h
    obtain ⟨text, htext, h⟩ := Option.bind_eq_some_iff.mp h
    obtain ⟨texts', htexts, h⟩ := Option.bind_eq_some_iff.mp h
    obtain rfl : text :: texts' = texts := by simpa using h
    simpa using lines_entry htext (ih htexts)

theorem lines_table {t : Table} {text : String} (h : tableText? t = some text) {rest : List Char} {sts : List Statement}
    (hrest : Lines rest sts) : Lines (text.toList ++ rest) (tableStatements t ++ sts) := by
  obtain ⟨texts, htexts, rfl⟩ := Option.map_eq_some_iff.mp h
  have hlength : [t.name].length ≤ maxPathLength := by simp [maxPathLength]
  have hplace : Place (nameText t.name).toList [t.name] := by
    simpa using Place.mk blanks_nil (.single (nameText_nameText t.name)) blanks_nil hlength
  simpa [tableStatements] using lines_cons (.table hplace) (lines_entries htexts hrest)

theorem lines_nil : Lines [] [] := .last (.silent blanks_nil .none)

/-- Tables are spelled one after the other, with an empty line between them. -/
theorem spelled_of_text? {tables : List Table} {text : String} (h : text? tables = some text) :
    Spelled text (tables.flatMap tableStatements) := by
  obtain ⟨texts, htexts, rfl⟩ := Option.map_eq_some_iff.mp h
  refine .inl ?_
  clear h
  induction tables generalizing texts with
  | nil =>
    obtain rfl : [] = texts := by simpa using htexts
    exact lines_nil
  | cons t tables ih =>
    rw [List.mapM_cons] at htexts
    obtain ⟨text, htext, htexts⟩ := Option.bind_eq_some_iff.mp htexts
    obtain ⟨texts', htexts', htexts⟩ := Option.bind_eq_some_iff.mp htexts
    obtain rfl : text :: texts' = texts := by simpa using htexts
    have hmore := ih texts' htexts'
    cases texts' with
    | nil =>
      have hempty : tables = [] := by
        cases tables with
        | nil => rfl
        | cons t' tables =>
          rw [List.mapM_cons] at htexts'
          obtain ⟨_, _, hnil⟩ := Option.bind_eq_some_iff.mp htexts'
          obtain ⟨_, _, hnil⟩ := Option.bind_eq_some_iff.mp hnil
          cases hnil
      subst hempty
      simpa using lines_table htext lines_nil
    | cons text' texts' =>
      have hgap : Lines ('\n' :: ("\n".intercalate (text' :: texts')).toList) (tables.flatMap tableStatements) :=
        .cons (.silent blanks_nil .none) .feed hmore
      rw [String.intercalate_cons_cons, List.flatMap_cons]
      simpa using lines_table htext hgap

/-! ## What tables say -/

/-- The block of a table. -/
def tableBlock (t : Table) : Block :=
  { path := [t.name]
    isElement := false
    assignments := t.entries.map fun entry => { path := [entry.1], value := .scalar entry.2 } }

theorem document_entries (entries : List (String × Scalar)) (rest : List Statement) :
    Document.ofStatements (entries.map entryStatement ++ rest) =
      { root := (entries.map fun entry => { path := [entry.1], value := .scalar entry.2 }) ++
          (Document.ofStatements rest).root
        blocks := (Document.ofStatements rest).blocks } := by
  induction entries with
  | nil => rfl
  | cons entry entries ih => exact congrArg (Document.cons (entryStatement entry)) ih

theorem document_tables (tables : List Table) :
    Document.ofStatements (tables.flatMap tableStatements) = { root := [], blocks := tables.map tableBlock } := by
  induction tables with
  | nil => rfl
  | cons t tables ih =>
    have hdocument := congrArg (Document.cons (.table [t.name]))
      (document_entries t.entries (tables.flatMap tableStatements))
    rw [ih, List.append_nil] at hdocument
    exact hdocument

/-- What a table says, each part with its place from the root. -/
def tableSayings (t : Table) : List (Path × Saying) :=
  ([t.name], .table) :: t.entries.map fun entry => ([t.name, entry.1], .value (.scalar entry.2))

theorem stated_tables (tables : List Table) :
    stated [] (tables.flatMap tableStatements) = tables.flatMap tableSayings := by
  rw [stated_eq, document_tables, List.map_nil, List.nil_append, List.flatMap_map]
  refine List.flatMap_congr fun t _ => ?_
  simp [tableBlock, Block.stated, tableSayings]

theorem sayings_tables (tables : List Table) :
    sayings (tables.flatMap tableStatements) = tables.flatMap tableSayings := by
  have hspread : ∀ said ∈ tables.flatMap tableSayings, Saying.spread said = [said] := by
    intro said hsaid
    obtain ⟨t, -, hsaid⟩ := List.mem_flatMap.mp hsaid
    obtain rfl | hsaid := List.mem_cons.mp hsaid
    · rfl
    · obtain ⟨entry, -, rfl⟩ := List.mem_map.mp hsaid
      rfl
  rw [sayings, stated_tables, List.flatMap_congr hspread, List.flatMap_singleton']

theorem mem_sayings_tables {tables : List Table} {said : Path × Saying} :
    said ∈ sayings (tables.flatMap tableStatements) ↔ ∃ t ∈ tables, said = ([t.name], .table) ∨
      ∃ entry ∈ t.entries, said = ([t.name, entry.1], .value (.scalar entry.2)) := by
  simp only [sayings_tables, List.mem_flatMap, tableSayings, List.mem_cons, List.mem_map, eq_comm]

theorem tidy_tableBlock {t : Table} (h : (t.entries.map Prod.fst).Nodup) :
    Entries.Tidy (tableBlock t).assignments where
  path := by
    intro a ha
    obtain ⟨entry, -, rfl⟩ := List.mem_map.mp ha
    simp
  value := by
    intro a ha
    obtain ⟨entry, -, rfl⟩ := List.mem_map.mp ha
    rfl
  apart := by
    refine List.pairwise_map.mpr ((List.pairwise_map.mp h).imp fun hne => ?_)
    simpa [Apart, eq_comm] using hne

/-- Tables make a plain document if no two have the same name, nor two entries of one of them. -/
theorem plain_tables {tables : List Table} (hnames : (tables.map Table.name).Nodup)
    (hkeys : ∀ t ∈ tables, (t.entries.map Prod.fst).Nodup) :
    (Document.ofStatements (tables.flatMap tableStatements)).Plain := by
  rw [document_tables]
  refine ⟨fun b hb => ?_, fun b hb => ?_, ?_, fun b hb b' hb' k hk hprefix => ?_⟩
  · obtain rfl | hb := List.mem_cons.mp hb
    · exact ⟨by simp, by simp, .nil⟩
    · obtain ⟨t, ht, rfl⟩ := List.mem_map.mp hb
      exact tidy_tableBlock (hkeys t ht)
  · obtain ⟨t, -, rfl⟩ := List.mem_map.mp hb
    exact ⟨by simp [tableBlock], rfl⟩
  · rw [List.map_map]
    refine List.pairwise_map.mpr ((List.pairwise_map.mp hnames).imp fun hne => ?_)
    simpa [tableBlock] using hne
  · obtain ⟨t', -, rfl⟩ := List.mem_map.mp hb'
    obtain rfl | hb := List.mem_cons.mp hb
    · cases hk
    · obtain ⟨t, -, rfl⟩ := List.mem_map.mp hb
      simp [tableBlock] at hprefix

end PeerWarden.Toml.Grammar
