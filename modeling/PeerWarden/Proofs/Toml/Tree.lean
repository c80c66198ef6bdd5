import Mathlib.Data.List.Nodup
import PeerWarden.Toml.Tree

/-!
# What Documents Say

The statements of a document, each with its place from the root, and the tree that is built from them. What the tree
has under two names, one inside the other, is what the document says of that place: headers, dotted paths and inline
tables may be mixed, in any order.

## Main definitions

- `Saying`, `sayings`: what a document says, place by place
- `Entries.Under`: the entries of the table under a name
- `Entries.Records`: entries have grown by what is said

## Main statements

- `Entries.exists_under`: the table under a name records what the document says below that name
-/

namespace PeerWarden.Toml

/-! ## Sayings -/

/-- What a document says of a place. -/
inductive Saying where
  /-- There is a table. -/
  | table
  /-- There is a series of tables. -/
  | element
  /-- There is this value. -/
  | value (e : Expr)

/-- What is said of a place and inside it. An inline table speaks of the places in it. -/
def Saying.spread (said : Path × Saying) : List (Path × Saying) :=
  match said.2 with
  | .value (.inline pairs) => (said.1, .table) :: pairs.map fun pair => (said.1 ++ pair.1, .value pair.2)
  | _ => [said]

/-- What the statements say that follow a header, each with its place from the root. -/
def stated : Path → List Statement → List (Path × Saying)
  | _, [] => []
  | _, .table path :: rest => (path, .table) :: stated path rest
  | _, .element path :: rest => (path, .element) :: stated path rest
  | place, .assign path e :: rest => (place ++ path, .value e) :: stated place rest

/-- What a document says. An inline table inside of another one is not taken apart. -/
def sayings (statements : List Statement) : List (Path × Saying) := (stated [] statements).flatMap Saying.spread

/-- What a block says. -/
def Block.stated (b : Block) : List (Path × Saying) :=
  (b.path, if b.isElement then .element else .table) :: b.assignments.map fun a => (b.path ++ a.path, .value a.value)

/-- What a document says in front of its first header, and what its blocks say. -/
theorem stated_eq (place : Path) (statements : List Statement) :
    stated place statements =
      ((Document.ofStatements statements).root.map fun a => (place ++ a.path, .value a.value)) ++
        (Document.ofStatements statements).blocks.flatMap Block.stated := by
  induction statements generalizing place with
  | nil => rfl
  | cons st statements ih =>
    cases st with
    | table path => simp [stated, ih, Document.ofStatements, Document.cons, Block.stated]
    | element path => simp [stated, ih, Document.ofStatements, Document.cons, Block.stated]
    | assign path e => simp [stated, ih, Document.ofStatements, Document.cons]

/-- What is said below a name, each with its place from there. -/
def below (n : String) (said : List (Path × Saying)) : List (Path × Saying) :=
  said.filterMap fun s =>
    match s.1 with
    | [] => none
    | n' :: path => if n' = n then some (path, s.2) else none

theorem mem_below {n : String} {said : List (Path × Saying)} {path : Path} {saying : Saying} :
    (path, saying) ∈ below n said ↔ (n :: path, saying) ∈ said := by
  rw [below, List.mem_filterMap]
  constructor
  · rintro ⟨⟨_ | ⟨n', path'⟩, saying'⟩, hmem, h⟩
    · cases h
    · simp only [Option.ite_none_right_eq_some, Option.some.injEq, Prod.mk.injEq] at h
      obtain ⟨rfl, rfl, rfl⟩ := h
      exact hmem
  · intro hmem
    exact ⟨_, hmem, by simp⟩

theorem below_append (n : String) (said said' : List (Path × Saying)) :
    below n (said ++ said') = below n said ++ below n said' := List.filterMap_append

/-- Everything that spreads from a place stands below it. -/
theorem prefix_of_mem_spread {place path : Path} {saying saying' : Saying}
    (h : (path, saying') ∈ Saying.spread (place, saying)) : place <+: path := by
  unfold Saying.spread at h
  split at h
  · obtain h | h := List.mem_cons.mp h
    · cases h
      exact List.prefix_rfl
    · obtain ⟨pair, -, h⟩ := List.mem_map.mp h
      cases h
      exact List.prefix_append _ _
  · cases List.mem_singleton.mp h
    exact List.prefix_rfl

theorem head_of_mem_spread {next : String} {rest : Path} {saying : Saying} {said : Path × Saying}
    (h : said ∈ Saying.spread (next :: rest, saying)) : said.1.head? = some next := by
  obtain ⟨more, hmore⟩ := prefix_of_mem_spread h
  simp [← hmore]

/-- Only what starts with a name stands below it. -/
theorem below_eq_nil {n : String} {said : List (Path × Saying)} (h : ∀ s ∈ said, s.1.head? ≠ some n) :
    below n said = [] := by
  refine List.eq_nil_iff_forall_not_mem.mpr fun s hs => ?_
  exact h _ (mem_below.mp hs) rfl

theorem below_spread (n : String) (path : Path) (saying : Saying) :
    below n (Saying.spread (n :: path, saying)) = Saying.spread (path, saying) := by
  unfold Saying.spread
  split <;> simp_all [below]

/-- What is said by some assignments. -/
def spreadAll (assignments : List Assignment) : List (Path × Saying) :=
  assignments.flatMap fun a => Saying.spread (a.path, .value a.value)

namespace Block

variable {b : Block} {n : String} {rest : Path} {said : Path × Saying}

/-- What a block says, place by place. -/
def spread (b : Block) : List (Path × Saying) := b.stated.flatMap Saying.spread

theorem header_mem_spread (b : Block) : (b.path, if b.isElement then .element else .table) ∈ b.spread := by
  cases hb : b.isElement <;> simp [spread, stated, Saying.spread, hb]

theorem prefix_of_mem_spread (h : said ∈ b.spread) : b.path <+: said.1 := by
  obtain ⟨t, ht, h⟩ := List.mem_flatMap.mp h
  refine List.IsPrefix.trans ?_ (Toml.prefix_of_mem_spread h)
  obtain rfl | ht := List.mem_cons.mp ht
  · exact List.prefix_rfl
  · obtain ⟨a, -, rfl⟩ := List.mem_map.mp ht
    exact List.prefix_append _ _

theorem head_of_mem_spread (hpath : b.path = n :: rest) (h : said ∈ b.spread) : said.1.head? = some n := by
  obtain ⟨more, hmore⟩ := prefix_of_mem_spread h
  simp [← hmore, hpath]

/-- A table of one name says its assignments below that name. -/
theorem below_spread (hpath : b.path = [n]) (hopen : b.isElement = false) :
    below n b.spread = ([], .table) :: spreadAll b.assignments := by
  have hstated : b.stated = (n :: [], Saying.table) :: b.assignments.map fun a => (n :: a.path, .value a.value) := by
    simp [stated, hpath, hopen]
  have hassignments : below n (b.assignments.flatMap fun a => Saying.spread (n :: a.path, .value a.value)) =
      spreadAll b.assignments := by
    induction b.assignments with
    | nil => rfl
    | cons a assignments ih => rw [List.flatMap_cons, below_append, Toml.below_spread, ih, spreadAll, spreadAll,
        List.flatMap_cons]
  rw [spread, hstated, List.flatMap_cons, below_append, Toml.below_spread, List.flatMap_map, hassignments]
  rfl

end Block

namespace Entries

variable {entries entries' inner inner' : Entries} {n k : String} {node m : Node} {path : Path} {e : Expr}

/-! ## Entries by their names -/

theorem lookup_put_self (n : String) (node : Node) (entries : Entries) : (put n node entries).lookup n = some node := by
  induction entries with
  | nil => simp [put]
  | cons entry rest ih =>
    obtain ⟨n', node'⟩ := entry
    unfold put
    split
    · simp
    · rw [List.lookup_cons, beq_false_of_ne (by tauto), ih]

theorem lookup_put_of_ne (h : k ≠ n) (node : Node) (entries : Entries) :
    (put n node entries).lookup k = entries.lookup k := by
  induction entries with
  | nil => simpa [put] using h
  | cons entry rest ih =>
    obtain ⟨n', node'⟩ := entry
    unfold put
    split
    case isTrue hn =>
      subst hn
      simp [List.lookup_cons, beq_false_of_ne h]
    case isFalse => rw [List.lookup_cons, ih, List.lookup_cons]

/-! ## Paths -/

/-- A path through a name leads into some entries; with these changed, a node of the same form takes the place of the
    old one. Where there is nothing, a table of a given origin comes to be. -/
inductive Leads (created : Origin) (entries : Entries) (n : String) : Entries → (Entries → Node) → Prop
  | absent (h : entries.lookup n = none) : Leads created entries n [] (.table created)
  | table {origin : Origin} {inner : Entries} (h : entries.lookup n = some (.table origin inner)) :
      Leads created entries n inner (.table origin)
  | series {last : Entries} {earlier : List Entries} (h : entries.lookup n = some (.series (last :: earlier))) :
      Leads created entries n last fun last => .series (last :: earlier)

section

variable {created origin : Origin} {inner₁ inner₂ : Entries} {wrap : Entries → Node}

theorem Leads.of_none (hleads : Leads created entries n inner₁ wrap) (h : entries.lookup n = none) :
    inner₁ = [] ∧ wrap = .table created := by
  cases hleads with
  | absent => exact ⟨rfl, rfl⟩
  | table h' => simp [h] at h'
  | series h' => simp [h] at h'

theorem Leads.of_table (hleads : Leads created entries n inner₁ wrap)
    (h : entries.lookup n = some (.table origin inner₂)) : inner₁ = inner₂ ∧ wrap = .table origin := by
  cases hleads with
  | absent h' => simp [h] at h'
  | table h' =>
    cases h.symm.trans h'
    exact ⟨rfl, rfl⟩
  | series h' => cases h.symm.trans h'

end

/-- A longer dotted path changes the entries into which its first name leads. -/
theorem assign_cons {next : String} {rest : Path} (h : assign node (n :: next :: rest) entries = some entries') :
    ∃ inner wrap inner', Leads .dotted entries n inner wrap ∧ assign node (next :: rest) inner = some inner' ∧
      entries' = put n (wrap inner') entries := by
  unfold assign at h
  split at h
  case h_1 hnone =>
    obtain ⟨inner', hassign, rfl⟩ := Option.map_eq_some_iff.mp h
    exact ⟨_, _, inner', .absent hnone, hassign, rfl⟩
  case h_2 hsome =>
    obtain ⟨inner', hassign, rfl⟩ := Option.map_eq_some_iff.mp h
    exact ⟨_, _, inner', .table hsome, hassign, rfl⟩
  case h_3 hsome =>
    obtain ⟨-, h⟩ := Option.ite_none_left_eq_some.mp h
    obtain ⟨inner', hassign, rfl⟩ := Option.map_eq_some_iff.mp h
    exact ⟨_, _, inner', .table hsome, hassign, rfl⟩
  case h_4 hsome =>
    obtain ⟨-, h⟩ := Option.ite_none_left_eq_some.mp h
    obtain ⟨inner', hassign, rfl⟩ := Option.map_eq_some_iff.mp h
    exact ⟨_, _, inner', .series hsome, hassign, rfl⟩
  case h_5 => cases h

/-- The path of a header changes the entries into which its first name leads. -/
theorem graft_cons {change : Option Node → Option Node} {next : String} {rest : Path}
    (h : graft change (n :: next :: rest) entries = some entries') :
    ∃ inner wrap inner', Leads .implied entries n inner wrap ∧ graft change (next :: rest) inner = some inner' ∧
      entries' = put n (wrap inner') entries := by
  unfold graft at h
  split at h
  case h_1 hnone =>
    obtain ⟨inner', hgraft, rfl⟩ := Option.map_eq_some_iff.mp h
    exact ⟨_, _, inner', .absent hnone, hgraft, rfl⟩
  case h_2 => cases h
  case h_3 hsome =>
    obtain ⟨inner', hgraft, rfl⟩ := Option.map_eq_some_iff.mp h
    exact ⟨_, _, inner', .table hsome, hgraft, rfl⟩
  case h_4 hsome =>
    obtain ⟨inner', hgraft, rfl⟩ := Option.map_eq_some_iff.mp h
    exact ⟨_, _, inner', .series hsome, hgraft, rfl⟩
  case h_5 => cases h

/-- A single name is assigned where there is nothing yet. -/
theorem assign_singleton (h : assign node [n] entries = some entries') :
    entries.lookup n = none ∧ entries' = (n, node) :: entries := by
  obtain ⟨hfree, h⟩ := Option.ite_none_left_eq_some.mp h
  cases h
  exact ⟨Option.not_isSome_iff_eq_none.mp hfree, rfl⟩

/-- An assignment leaves alone what stands under other names. -/
theorem lookup_assign_of_ne (h : assign node path entries = some entries') (hk : path.head? ≠ some k) :
    entries'.lookup k = entries.lookup k := by
  match path, h with
  | [n], h =>
    obtain ⟨-, rfl⟩ := assign_singleton h
    rw [List.lookup_cons, beq_false_of_ne (fun heq => hk (by rw [heq]; rfl))]
  | n :: next :: rest, h =>
    obtain ⟨inner, wrap, inner', -, -, rfl⟩ := assign_cons h
    exact lookup_put_of_ne (fun heq => hk (by rw [heq]; rfl)) _ _

/-- A header leaves alone what stands under other names. -/
theorem lookup_graft_of_ne {change : Option Node → Option Node} (h : graft change path entries = some entries')
    (hk : path.head? ≠ some k) : entries'.lookup k = entries.lookup k := by
  match path, h with
  | [n], h =>
    obtain ⟨node, -, rfl⟩ := Option.map_eq_some_iff.mp h
    exact lookup_put_of_ne (fun heq => hk (by rw [heq]; rfl)) _ _
  | n :: next :: rest, h =>
    obtain ⟨inner, wrap, inner', -, -, rfl⟩ := graft_cons h
    exact lookup_put_of_ne (fun heq => hk (by rw [heq]; rfl)) _ _

/-! ## The table under a name -/

/-- The entries of the table under a name. Where there is nothing, the table is taken to be empty. -/
inductive Under (entries : Entries) (n : String) : Entries → Prop
  | absent (h : entries.lookup n = none) : Under entries n []
  | table {origin : Origin} {inner : Entries} (h : entries.lookup n = some (.table origin inner)) :
      Under entries n inner

theorem Under.congr (h : Under entries n inner) (heq : entries'.lookup n = entries.lookup n) :
    Under entries' n inner := by
  cases h with
  | absent h => exact .absent (heq.trans h)
  | table h => exact .table (heq.trans h)

/-- Below a name that is no series, a path changes the entries of the table. -/
theorem Under.of_leads {created : Origin} {inner' : Entries} {wrap : Entries → Node} (h : Under entries n inner)
    (hleads : Leads created entries n inner' wrap) :
    inner' = inner ∧ ∀ changed, Under (put n (wrap changed) entries) n changed := by
  cases h with
  | absent h =>
    obtain ⟨rfl, rfl⟩ := hleads.of_none h
    exact ⟨rfl, fun changed => .table (lookup_put_self n _ _)⟩
  | table h =>
    obtain ⟨rfl, rfl⟩ := hleads.of_table h
    exact ⟨rfl, fun changed => .table (lookup_put_self n _ _)⟩

/-! ## Entries grow by what is said -/

/-- Entries have grown by what is said. Under a name of which nothing is said but values in its own place, they have
    what they had before and those values. -/
def Records (said : List (Path × Saying)) (inner inner' : Entries) : Prop :=
  ∀ k, (∀ s ∈ said, s.1.head? = some k → s.1 = [k] ∧ ∃ e, s.2 = .value e) → ∀ m,
    inner'.lookup k = some m ↔ inner.lookup k = some m ∨ ∃ e, ([k], .value e) ∈ said ∧ Node.ofExpr? e = some m

theorem Records.nil (inner : Entries) : Records [] inner inner := by
  intro k _ m
  simp

theorem Records.append {said said' : List (Path × Saying)} {inner₁ inner₂ inner₃ : Entries}
    (h : Records said inner₁ inner₂) (h' : Records said' inner₂ inner₃) : Records (said ++ said') inner₁ inner₃ := by
  intro k hk m
  rw [h' k (fun s hs => hk s (List.mem_append_right _ hs)), h k (fun s hs => hk s (List.mem_append_left _ hs))]
  simp only [List.mem_append, or_and_right, exists_or, or_assoc]

/-- What is said of a table itself adds nothing to its entries. -/
theorem Records.cons_nil {said : List (Path × Saying)} (saying : Saying) (h : Records said inner inner') :
    Records (([], saying) :: said) inner inner' := by
  intro k hk m
  rw [h k fun s hs => hk s (List.mem_cons_of_mem _ hs)]
  simp

/-- If everything that is said starts with one name, and not all of it is a value for that name, then entries that have
    changed under no other name have grown by it. -/
theorem Records.of_lookup {said : List (Path × Saying)} {next : String} {rest : Path} {saying : Saying}
    (hmem : (next :: rest, saying) ∈ said) (hvalue : rest = [] → ∀ e, saying ≠ .value e)
    (hhead : ∀ s ∈ said, s.1.head? = some next) (h : ∀ k, next ≠ k → inner'.lookup k = inner.lookup k) :
    Records said inner inner' := by
  intro k hk m
  have hne : next ≠ k := by
    rintro rfl
    obtain ⟨hpath, e, he⟩ := hk _ hmem rfl
    exact hvalue (List.cons.inj hpath).2 e he
  have hnone : ∀ e, ([k], Saying.value e) ∉ said := fun e he => hne (Option.some.inj (hhead _ he)).symm
  simp [h k hne, hnone]

/-- An inline table that stands in the place of a name excludes everything else that could be said of it. -/
theorem Records.spread {said : Path × Saying} (hne : said.1 ≠ []) (h : Records [said] inner inner') :
    Records (Saying.spread said) inner inner' := by
  obtain ⟨_ | ⟨next, rest⟩, saying⟩ := said
  · exact absurd rfl hne
  unfold Saying.spread
  split
  case h_1 =>
    refine .of_lookup List.mem_cons_self (by simp) (fun s hs => ?_) fun k hk => ?_
    · obtain rfl | hs := List.mem_cons.mp hs
      · rfl
      · obtain ⟨pair, -, rfl⟩ := List.mem_map.mp hs
        rfl
    · refine Option.ext fun m => ?_
      rw [h k (by simp [hk])]
      simp [hk.symm]
  case h_2 => exact h

/-! ## Assignments -/

/-- An assignment records a value in its place. -/
theorem records_assign (he : Node.ofExpr? e = some node) (h : assign node path inner = some inner') :
    Records [(path, .value e)] inner inner' := by
  match path, h with
  | next :: more :: rest, h =>
    exact .of_lookup List.mem_cons_self (by simp) (by simp) fun k hk => lookup_assign_of_ne h (by simpa using hk)
  | [next], h =>
    obtain ⟨hfree, rfl⟩ := assign_singleton h
    intro k _ m
    rw [List.lookup_cons]
    by_cases hk : k = next
    · subst hk
      simp [hfree, he]
    · simp [beq_false_of_ne hk, hk]

theorem path_ne_nil (h : assign node path entries = some entries') : path ≠ [] := by
  rintro rfl
  cases h

/-- The pairs of an inline table are assignments. -/
theorem records_ofPairs? {pairs : List (Path × Expr)} (h : ofPairs? pairs inner = some inner') :
    Records (pairs.map fun pair => (pair.1, .value pair.2)) inner inner' := by
  induction pairs generalizing inner with
  | nil =>
    cases h
    exact .nil _
  | cons pair pairs ih =>
    obtain ⟨path, e⟩ := pair
    obtain ⟨node, he, h⟩ := Option.bind_eq_some_iff.mp h
    obtain ⟨changed, hassign, h⟩ := Option.bind_eq_some_iff.mp h
    exact (records_assign he hassign).append (ih h)

theorem records_assignAll {assignments : List Assignment} (h : assignAll assignments inner = some inner') :
    Records (spreadAll assignments) inner inner' := by
  induction assignments generalizing inner with
  | nil =>
    cases h
    exact .nil _
  | cons a assignments ih =>
    rw [assignAll, List.foldlM_cons] at h
    obtain ⟨changed, hstep, h⟩ := Option.bind_eq_some_iff.mp h
    obtain ⟨node, he, hassign⟩ := Option.bind_eq_some_iff.mp hstep
    exact ((records_assign he hassign).spread (path_ne_nil hassign)).append (ih h)

/-! ## The table under a name records what is said below it -/

/-- An assignment from the root. -/
theorem Under.assign (hunder : Under entries n inner) (he : Node.ofExpr? e = some node)
    (h : assign node path entries = some entries')
    (hn : ∀ saying, ([n], saying) ∈ Saying.spread (path, .value e) → saying = .table) :
    ∃ inner', Under entries' n inner' ∧ Records (below n (Saying.spread (path, .value e))) inner inner' := by
  obtain ⟨n', rest, rfl⟩ := List.exists_cons_of_ne_nil (path_ne_nil h)
  by_cases hname : n' = n
  case neg =>
    have hnone : below n (Saying.spread (n' :: rest, .value e)) = [] :=
      below_eq_nil fun s hs => by simpa [head_of_mem_spread hs] using hname
    exact ⟨inner, hunder.congr (lookup_assign_of_ne h (by simpa using hname)), hnone ▸ .nil inner⟩
  subst hname
  rw [below_spread]
  match rest, h with
  | [], h =>
    -- Only an inline table may stand in the place of the name.
    obtain ⟨hfree, rfl⟩ := assign_singleton h
    match e, he, hn with
    | .inline pairs, he, hn =>
      obtain ⟨inner', hpairs, rfl⟩ := Option.map_eq_some_iff.mp he
      cases hunder with
      | table h' => simp [hfree] at h'
      | absent => exact ⟨inner', .table List.lookup_cons_self, (records_ofPairs? hpairs).cons_nil .table⟩
    | .scalar v, he, hn => cases hn _ (List.mem_singleton_self _)
    | .array items, he, hn => cases hn _ (List.mem_singleton_self _)
  | next :: rest, h =>
    obtain ⟨inner₀, wrap, inner', hleads, hassign, rfl⟩ := assign_cons h
    obtain ⟨rfl, hput⟩ := hunder.of_leads hleads
    exact ⟨inner', hput inner', (records_assign he hassign).spread (path_ne_nil hassign)⟩

/-- A header for the name itself opens its table, which must not have had a header before. -/
theorem Under.openTable {assignments : List Assignment} (hunder : Under entries n inner)
    (h : openTable assignments (entries.lookup n) = some node) :
    ∃ inner', node = .table .header inner' ∧ assignAll assignments inner = some inner' := by
  cases hunder with
  | absent hnone =>
    rw [hnone] at h
    obtain ⟨inner', hassign, rfl⟩ := Option.map_eq_some_iff.mp h
    exact ⟨inner', rfl, hassign⟩
  | @table origin _ hsome =>
    rw [hsome] at h
    match origin, h with
    | .implied, h =>
      obtain ⟨inner', hassign, rfl⟩ := Option.map_eq_some_iff.mp h
      exact ⟨inner', rfl, hassign⟩

/-- A block opens the table of the name, a place inside it, or a place apart from it. -/
theorem Under.addBlock {b : Block} (hunder : Under entries n inner) (h : addBlock entries b = some entries')
    (hn : ∀ saying, ([n], saying) ∈ b.spread → saying = .table) :
    ∃ inner', Under entries' n inner' ∧ Records (below n b.spread) inner inner' := by
  rcases hpath : b.path with _ | ⟨n', rest⟩
  · rw [Entries.addBlock, hpath] at h
    cases h
  by_cases hname : n' = n
  case neg =>
    have hnone : below n b.spread = [] := below_eq_nil fun s hs => by
      simpa [Block.head_of_mem_spread hpath hs] using hname
    exact ⟨inner, hunder.congr (lookup_graft_of_ne h (by simpa [hpath] using hname)), hnone ▸ .nil inner⟩
  subst hname
  have hheader := hpath ▸ b.header_mem_spread
  rcases rest with _ | ⟨next, rest⟩
  · have hopen : b.isElement = false := by
      by_contra helement
      have := hn _ hheader
      simp [helement] at this
    rw [Entries.addBlock, hpath, hopen] at h
    obtain ⟨node, hchange, rfl⟩ := Option.map_eq_some_iff.mp h
    obtain ⟨inner', rfl, hassign⟩ := hunder.openTable hchange
    rw [Block.below_spread hpath hopen]
    exact ⟨inner', .table (lookup_put_self _ _ _), (records_assignAll hassign).cons_nil .table⟩
  · rw [Entries.addBlock, hpath] at h
    obtain ⟨inner₀, wrap, inner', hleads, hgraft, rfl⟩ := graft_cons h
    obtain ⟨rfl, hput⟩ := hunder.of_leads hleads
    refine ⟨inner', hput inner', .of_lookup (mem_below.mpr hheader) (fun _ e => ?_) (fun s hs => ?_) fun k hk => ?_⟩
    · split <;> simp
    · obtain ⟨more, hmore⟩ := hpath ▸ Block.prefix_of_mem_spread (mem_below.mp hs)
      obtain ⟨-, hmore⟩ := List.cons.inj hmore
      simp [← hmore]
    · exact lookup_graft_of_ne hgraft (by simpa using hk)

/-- If every step records what it says below a name, so do all steps together. -/
theorem Under.foldlM {α : Type} {step : Entries → α → Option Entries} {f : α → List (Path × Saying)} {xs : List α}
    (hstep : ∀ x ∈ xs, ∀ {entries entries' inner}, Under entries n inner → step entries x = some entries' →
      ∃ inner', Under entries' n inner' ∧ Records (below n (f x)) inner inner')
    (hunder : Under entries n inner) (h : xs.foldlM step entries = some entries') :
    ∃ inner', Under entries' n inner' ∧ Records (below n (xs.flatMap f)) inner inner' := by
  induction xs generalizing entries inner with
  | nil =>
    cases h
    exact ⟨inner, hunder, .nil inner⟩
  | cons x xs ih =>
    rw [List.foldlM_cons] at h
    obtain ⟨middle, hx, hxs⟩ := Option.bind_eq_some_iff.mp h
    obtain ⟨inner₁, hunder₁, hrecords₁⟩ := hstep x List.mem_cons_self hunder hx
    obtain ⟨inner₂, hunder₂, hrecords₂⟩ := ih (fun y hy => hstep y (List.mem_cons_of_mem x hy)) hunder₁ hxs
    exact ⟨inner₂, hunder₂, by rw [List.flatMap_cons, below_append]; exact hrecords₁.append hrecords₂⟩

/-- What the tree of a document has in the table under a name is what the document says below that name, if it says of
    the name itself only that there is a table. -/
theorem exists_under {statements : List Statement} (h : ofStatements? statements = some entries)
    (hn : ∀ saying, ([n], saying) ∈ sayings statements → saying = .table) :
    ∃ inner, Under entries n inner ∧ Records (below n (sayings statements)) [] inner := by
  have hsayings : sayings statements = spreadAll (Document.ofStatements statements).root ++
      (Document.ofStatements statements).blocks.flatMap Block.spread := by
    simp only [sayings, stated_eq, List.flatMap_append, List.flatMap_map, List.flatMap_assoc, List.nil_append]
    rfl
  rw [hsayings] at hn ⊢
  obtain ⟨root, hroot, hblocks⟩ := Option.bind_eq_some_iff.mp h
  have hempty : Under [] n [] := .absent rfl
  obtain ⟨inner₁, hunder₁, hrecords₁⟩ := hempty.foldlM (f := fun a => Saying.spread (a.path, .value a.value))
    (fun a ha _ _ _ hunder hstep => by
      obtain ⟨node, he, hassign⟩ := Option.bind_eq_some_iff.mp hstep
      exact hunder.assign he hassign fun saying hs =>
        hn saying (List.mem_append_left _ (List.mem_flatMap.mpr ⟨a, ha, hs⟩))) hroot
  obtain ⟨inner₂, hunder₂, hrecords₂⟩ := hunder₁.foldlM (f := Block.spread)
    (fun b hb _ _ _ hunder hstep => hunder.addBlock hstep fun saying hs =>
      hn saying (List.mem_append_right _ (List.mem_flatMap.mpr ⟨b, hb, hs⟩))) hblocks
  exact ⟨inner₂, hunder₂, by rw [below_append]; exact hrecords₁.append hrecords₂⟩

end Entries

end PeerWarden.Toml
