import Mathlib.Data.List.Nodup
import PeerWarden.Proofs.Toml.Tree

/-!
# Plain Documents

Documents of tables in which nothing is said twice. Headers and keys may have any number of names, and tables may come
in any order, also a table after those inside it. The statements of such a document never contradict each other.

## Main definitions

- `Document.Plain`: the plain documents
- `Entries.Fresh`, `Entries.Enterable`: where a value can be assigned, and where a header can open a table

## Main statements

- `Entries.Fresh.assign`: an assignment leaves other places fresh
- `Entries.Enterable.graft`: a table leaves the places of other headers enterable
- `Document.Plain.consistent`: a plain document has a tree
-/

namespace PeerWarden.Toml

/-! ## Paths apart from each other -/

/-- Neither of two paths leads to the other. -/
def Apart (p q : Path) : Prop := ¬p <+: q ∧ ¬q <+: p

namespace Apart

variable {p q : Path} {n : String}

theorem tail (h : Apart (n :: p) (n :: q)) : Apart p q := by simpa [Apart, List.cons_prefix_cons] using h

theorem left_ne_nil (h : Apart p q) : p ≠ [] := by
  rintro rfl
  exact h.1 List.nil_prefix

theorem right_ne_nil (h : Apart p q) : q ≠ [] := by
  rintro rfl
  exact h.2 List.nil_prefix

end Apart

namespace Entries

variable {entries entries' inner : Entries} {n next : String} {p q rest : Path} {node : Node}
  {wrap : Entries → Node} {assignments : List Assignment} {keys : List String}

/-! ## Assignments -/

/-- A value can be assigned to a path: it leads through tables of dotted paths to a place where there is nothing. -/
inductive Fresh : Path → Entries → Prop
  | free {n : String} {rest : Path} {entries : Entries} (h : entries.lookup n = none) : Fresh (n :: rest) entries
  | dotted {n next : String} {rest : Path} {entries inner : Entries}
      (h : entries.lookup n = some (.table .dotted inner)) (hinner : Fresh (next :: rest) inner) :
      Fresh (n :: next :: rest) entries

theorem lookup_nil (n : String) : ([] : Entries).lookup n = none := rfl

theorem Fresh.of_leads (h : Fresh (n :: next :: rest) entries) (hleads : Leads .dotted entries n inner wrap) :
    Fresh (next :: rest) inner ∧ wrap = .table .dotted := by
  cases h with
  | free h =>
    obtain ⟨rfl, rfl⟩ := hleads.of_none h
    exact ⟨.free (lookup_nil next), rfl⟩
  | dotted h hinner =>
    obtain ⟨rfl, rfl⟩ := hleads.of_table h
    exact ⟨hinner, rfl⟩

theorem Fresh.exists_assign (h : Fresh p entries) (node : Node) :
    ∃ entries', assign node p entries = some entries' := by
  induction p generalizing entries with
  | nil => cases h
  | cons n rest ih =>
    match rest, h with
    | [], .free h => simp [assign, h]
    | next :: rest, .free h =>
      obtain ⟨inner', hinner⟩ := ih (.free (lookup_nil next) : Fresh (next :: rest) [])
      simp [assign, h, hinner]
    | next :: rest, .dotted h hfresh =>
      obtain ⟨inner', hinner⟩ := ih hfresh
      simp [assign, h, hinner]

/-- An assignment leaves fresh what is apart from it. -/
theorem Fresh.assign (h : Fresh q entries) (hassign : assign node p entries = some entries') (hapart : Apart p q) :
    Fresh q entries' := by
  induction q generalizing p entries entries' with
  | nil => cases h
  | cons n rest ih =>
    obtain ⟨n', rest', rfl⟩ := List.exists_cons_of_ne_nil hapart.left_ne_nil
    by_cases hname : n' = n
    case neg =>
      have hsame : entries'.lookup n = entries.lookup n := lookup_assign_of_ne hassign (by simpa using hname)
      cases h with
      | free h => exact .free (hsame.trans h)
      | dotted h hinner => exact .dotted (hsame.trans h) hinner
    subst hname
    obtain ⟨next, rest, rfl⟩ := List.exists_cons_of_ne_nil hapart.tail.right_ne_nil
    obtain ⟨next', rest', rfl⟩ := List.exists_cons_of_ne_nil hapart.tail.left_ne_nil
    obtain ⟨inner, wrap, inner', hleads, hrest, rfl⟩ := assign_cons hassign
    obtain ⟨hinner, rfl⟩ := h.of_leads hleads
    exact .dotted (lookup_put_self _ _ _) (ih hinner hrest hapart.tail)

/-- Assignments in one table that do not contradict each other. -/
structure Tidy (assignments : List Assignment) : Prop where
  path : ∀ a ∈ assignments, a.path ≠ []
  value : ∀ a ∈ assignments, (Node.ofExpr? a.value).isSome
  apart : assignments.Pairwise fun a a' => Apart a.path a'.path

theorem exists_assignAll (h : Tidy assignments) (hfresh : ∀ a ∈ assignments, Fresh a.path entries) :
    ∃ entries', assignAll assignments entries = some entries' := by
  induction assignments generalizing entries with
  | nil => exact ⟨entries, rfl⟩
  | cons a assignments ih =>
    obtain ⟨ha, hapart⟩ := List.pairwise_cons.mp h.apart
    obtain ⟨node, hnode⟩ := Option.isSome_iff_exists.mp (h.value a List.mem_cons_self)
    obtain ⟨entries₁, hassign⟩ := (hfresh a List.mem_cons_self).exists_assign node
    have htidy : Tidy assignments :=
      ⟨fun b hb => h.path b (List.mem_cons_of_mem a hb), fun b hb => h.value b (List.mem_cons_of_mem a hb), hapart⟩
    obtain ⟨entries₂, hrest⟩ :=
      ih htidy fun b hb => (hfresh b (List.mem_cons_of_mem a hb)).assign hassign (ha b hb)
    exact ⟨entries₂, by simpa [assignAll, hnode, hassign] using hrest⟩

/-- The first names of the paths to which something is assigned. -/
def firstNames (assignments : List Assignment) : List String := assignments.filterMap fun a => a.path.head?

theorem head_mem_firstNames {a : Assignment} (ha : a ∈ assignments) (hn : a.path.head? = some n) :
    n ∈ firstNames assignments := List.mem_filterMap.mpr ⟨a, ha, hn⟩

theorem fresh_of_free (h : Tidy assignments) (hfree : ∀ k ∈ firstNames assignments, entries.lookup k = none) :
    ∀ a ∈ assignments, Fresh a.path entries := by
  intro a ha
  obtain ⟨n, rest, hpath⟩ := List.exists_cons_of_ne_nil (h.path a ha)
  rw [hpath]
  exact .free (hfree n (head_mem_firstNames ha (by rw [hpath]; rfl)))

theorem lookup_assignAll_of_not_mem (h : assignAll assignments entries = some entries')
    (hn : n ∉ firstNames assignments) : entries'.lookup n = entries.lookup n := by
  induction assignments generalizing entries with
  | nil =>
    cases h
    rfl
  | cons a assignments ih =>
    rw [assignAll, List.foldlM_cons] at h
    obtain ⟨entries₁, hstep, h⟩ := Option.bind_eq_some_iff.mp h
    obtain ⟨node, -, hassign⟩ := Option.bind_eq_some_iff.mp hstep
    have hrest : n ∉ firstNames assignments := fun hmem => by
      obtain ⟨b, hb, hhead⟩ := List.mem_filterMap.mp hmem
      exact hn (head_mem_firstNames (List.mem_cons_of_mem a hb) hhead)
    rw [ih h hrest, lookup_assign_of_ne hassign fun hhead => hn (head_mem_firstNames List.mem_cons_self hhead)]

/-! ## Headers -/

/-- A header can open a table with some keys: its path leads through tables to a place where there is nothing, or only
    a table that is implied by those inside it and has none of the keys. -/
inductive Enterable (keys : List String) : Path → Entries → Prop
  | free {n : String} {rest : Path} {entries : Entries} (h : entries.lookup n = none) :
      Enterable keys (n :: rest) entries
  | implied {n : String} {entries inner : Entries} (h : entries.lookup n = some (.table .implied inner))
      (hkeys : ∀ k ∈ keys, inner.lookup k = none) : Enterable keys [n] entries
  | inside {n next : String} {rest : Path} {entries inner : Entries} {origin : Origin}
      (h : entries.lookup n = some (.table origin inner)) (horigin : origin ≠ .inline)
      (hinner : Enterable keys (next :: rest) inner) : Enterable keys (n :: next :: rest) entries

theorem Enterable.congr (h : Enterable keys (n :: rest) entries) (hsame : entries'.lookup n = entries.lookup n) :
    Enterable keys (n :: rest) entries' := by
  cases h with
  | free h => exact .free (hsame.trans h)
  | implied h hkeys => exact .implied (hsame.trans h) hkeys
  | inside h horigin hinner => exact .inside (hsame.trans h) horigin hinner

theorem Enterable.of_leads (h : Enterable keys (n :: next :: rest) entries)
    (hleads : Leads .implied entries n inner wrap) :
    Enterable keys (next :: rest) inner ∧ ∃ origin, origin ≠ .inline ∧ wrap = .table origin := by
  cases h with
  | free h =>
    obtain ⟨rfl, rfl⟩ := hleads.of_none h
    exact ⟨.free (lookup_nil next), .implied, by decide, rfl⟩
  | inside h horigin hinner =>
    obtain ⟨rfl, rfl⟩ := hleads.of_table h
    exact ⟨hinner, _, horigin, rfl⟩

theorem Enterable.of_leads_last (h : Enterable keys [n] entries) (hleads : Leads .implied entries n inner wrap) :
    (∀ k ∈ keys, inner.lookup k = none) ∧ wrap = .table .implied := by
  cases h with
  | free h =>
    obtain ⟨rfl, rfl⟩ := hleads.of_none h
    exact ⟨fun k _ => lookup_nil k, rfl⟩
  | implied h hkeys =>
    obtain ⟨rfl, rfl⟩ := hleads.of_table h
    exact ⟨hkeys, rfl⟩

theorem Enterable.exists_under (h : Enterable keys (n :: next :: rest) entries) :
    ∃ inner, Under entries n inner ∧ Enterable keys (next :: rest) inner := by
  cases h with
  | free h => exact ⟨[], .absent h, .free (lookup_nil next)⟩
  | inside h _ hinner => exact ⟨_, .table h, hinner⟩

theorem Enterable.exists_graft (h : Enterable (firstNames assignments) p entries) (htidy : Tidy assignments) :
    ∃ entries', graft (openTable assignments) p entries = some entries' := by
  induction p generalizing entries with
  | nil => cases h
  | cons n rest ih =>
    match rest, h with
    | [], .free h =>
      obtain ⟨inner', hinner⟩ := exists_assignAll htidy (fresh_of_free htidy fun k _ => lookup_nil k)
      simp [graft, openTable, h, hinner]
    | [], .implied h hkeys =>
      obtain ⟨inner', hinner⟩ := exists_assignAll htidy (fresh_of_free htidy hkeys)
      simp [graft, openTable, h, hinner]
    | next :: rest, .free h =>
      obtain ⟨inner', hinner⟩ := ih (.free (lookup_nil next) : Enterable _ (next :: rest) [])
      simp [graft, h, hinner]
    | next :: rest, @Enterable.inside _ _ _ _ _ inner origin h horigin henter =>
      obtain ⟨inner', hinner⟩ := ih henter
      cases origin with
      | inline => exact absurd rfl horigin
      | header => simp [graft, h, hinner]
      | implied => simp [graft, h, hinner]
      | dotted => simp [graft, h, hinner]

/-- A table leaves the place of another header enterable if neither header leads to what the keys of the other table
    name. -/
theorem Enterable.graft (h : Enterable keys q entries)
    (hgraft : graft (openTable assignments) p entries = some entries') (hne : p ≠ q)
    (hp : ∀ k ∈ firstNames assignments, ¬p ++ [k] <+: q) (hq : ∀ k ∈ keys, ¬q ++ [k] <+: p) :
    Enterable keys q entries' := by
  induction q generalizing p entries entries' with
  | nil => cases h
  | cons n rest ih =>
    match p, hgraft with
    | n' :: rest', hgraft =>
    by_cases hname : n' = n
    case neg => exact h.congr (lookup_graft_of_ne hgraft (by simpa using hname))
    subst hname
    match rest', rest, h, hgraft with
    | [], [], _, _ => exact absurd rfl hne
    | [], next :: rest, h, hgraft =>
      -- The table is opened around the other place.
      have hnext : next ∉ firstNames assignments := fun hmem => hp next hmem (by simp)
      obtain ⟨node, hchange, rfl⟩ := Option.map_eq_some_iff.mp hgraft
      obtain ⟨inner, hunder, hinner⟩ := h.exists_under
      obtain ⟨inner', rfl, hassign⟩ := hunder.openTable hchange
      exact .inside (lookup_put_self _ _ _) (by decide) (hinner.congr (lookup_assignAll_of_not_mem hassign hnext))
    | next' :: rest', [], h, hgraft =>
      -- The table is opened inside the other place.
      obtain ⟨inner, wrap, inner', hleads, hinner, rfl⟩ := graft_cons hgraft
      obtain ⟨hkeys, rfl⟩ := h.of_leads_last hleads
      refine .implied (lookup_put_self _ _ _) fun k hk => ?_
      have hother : next' ≠ k := fun heq => hq k hk (by simp [heq])
      rw [lookup_graft_of_ne hinner (by simpa using hother), hkeys k hk]
    | next' :: rest', next :: rest, h, hgraft =>
      obtain ⟨inner, wrap, inner', hleads, hinner, rfl⟩ := graft_cons hgraft
      obtain ⟨henter, origin, horigin, rfl⟩ := h.of_leads hleads
      refine .inside (lookup_put_self _ _ _) horigin
        (ih henter hinner (by simpa using hne) (fun k hk => ?_) fun k hk => ?_)
      · simpa [List.cons_prefix_cons] using hp k hk
      · simpa [List.cons_prefix_cons] using hq k hk

end Entries

/-! ## Documents -/

namespace Document

open Entries (Tidy Enterable firstNames)

variable {d : Document}

/-- The tables of a document, of which the root has no header. -/
def tables (d : Document) : List Block := { path := [], isElement := false, assignments := d.root } :: d.blocks

/-- A document of tables in which nothing is said twice: no header and no key stands twice in its place, no key leads to
    another one, and no header leads into what a key names. -/
structure Plain (d : Document) : Prop where
  tidy : ∀ b ∈ d.tables, Tidy b.assignments
  header : ∀ b ∈ d.blocks, b.path ≠ [] ∧ b.isElement = false
  distinct : (d.blocks.map Block.path).Nodup
  apart : ∀ b ∈ d.tables, ∀ b' ∈ d.blocks, ∀ k ∈ firstNames b.assignments, ¬b.path ++ [k] <+: b'.path

/-- Blocks can be carried out one after the other. -/
theorem exists_blocks {blocks : List Block} {entries : Entries}
    (htidy : ∀ b ∈ blocks, Tidy b.assignments) (hheader : ∀ b ∈ blocks, b.isElement = false)
    (hdistinct : (blocks.map Block.path).Nodup)
    (hapart : ∀ b ∈ blocks, ∀ b' ∈ blocks, ∀ k ∈ firstNames b.assignments, ¬b.path ++ [k] <+: b'.path)
    (henter : ∀ b ∈ blocks, Enterable (firstNames b.assignments) b.path entries) :
    ∃ entries', blocks.foldlM Entries.addBlock entries = some entries' := by
  induction blocks generalizing entries with
  | nil => exact ⟨entries, rfl⟩
  | cons b blocks ih =>
    obtain ⟨hb, hdistinct⟩ := List.nodup_cons.mp hdistinct
    have hmem {b'} (hb' : b' ∈ blocks) : b' ∈ b :: blocks := List.mem_cons_of_mem b hb'
    obtain ⟨entries₁, hgraft⟩ := (henter b List.mem_cons_self).exists_graft (htidy b List.mem_cons_self)
    have hblock : entries.addBlock b = some entries₁ := by
      rw [Entries.addBlock, hheader b List.mem_cons_self]
      exact hgraft
    obtain ⟨entries₂, hrest⟩ := ih (fun b' hb' => htidy b' (hmem hb')) (fun b' hb' => hheader b' (hmem hb')) hdistinct
      (fun b₁ h₁ b₂ h₂ => hapart b₁ (hmem h₁) b₂ (hmem h₂)) fun b' hb' =>
        (henter b' (hmem hb')).graft hgraft (fun heq => hb (heq ▸ List.mem_map_of_mem hb'))
          (hapart b List.mem_cons_self b' (hmem hb')) (hapart b' (hmem hb') b List.mem_cons_self)
    exact ⟨entries₂, by rw [List.foldlM_cons, hblock]; exact hrest⟩

/-- A plain document has a tree. -/
theorem Plain.consistent (h : d.Plain) : (Entries.ofDocument? d).isSome := by
  have hmem {b : Block} (hb : b ∈ d.blocks) : b ∈ d.tables := List.mem_cons_of_mem _ hb
  have hroot := h.tidy _ List.mem_cons_self
  obtain ⟨entries, hassign⟩ :=
    Entries.exists_assignAll hroot (Entries.fresh_of_free hroot fun k _ => Entries.lookup_nil k)
  have henter : ∀ b ∈ d.blocks, Enterable (firstNames b.assignments) b.path entries := by
    intro b hb
    obtain ⟨n, rest, hpath⟩ := List.exists_cons_of_ne_nil (h.header b hb).1
    have hn : n ∉ firstNames d.root := fun hn => h.apart _ List.mem_cons_self b hb n hn (by simp [hpath])
    rw [hpath]
    exact .free (Entries.lookup_assignAll_of_not_mem hassign hn)
  obtain ⟨entries', hblocks⟩ := exists_blocks (fun b hb => h.tidy b (hmem hb)) (fun b hb => (h.header b hb).2)
    h.distinct (fun b hb => h.apart b (hmem hb)) henter
  simp [Entries.ofDocument?, hassign, hblocks]

end Document

end PeerWarden.Toml
