import PeerWarden.Toml.Syntax

/-!
# The Tree of a Document

What the statements of a document mean together: a tree of tables. A table may be spread over several
statements, but nothing may be said twice, so each table remembers how it came to be:

- by a header of its own
- because it lies on the path of a header; a header of its own may still follow
- because it lies on a dotted path; only dotted paths from the same place add to it
- as an inline table, which is complete

A series of tables stands for its last table wherever a path leads through it.
-/

namespace PeerWarden.Toml

/-- How a table came to be. -/
inductive Origin where
  | header
  | implied
  | dotted
  | inline
  deriving DecidableEq, Repr

/-- A part of a document. -/
inductive Node where
  | scalar (v : Scalar)
  | list (items : List Node)
  | table (origin : Origin) (entries : List (String × Node))
  /-- The tables of a series, the last one first. -/
  | series (elements : List (List (String × Node)))

/-- The entries of a table. No two have the same name, and their order means nothing. -/
abbrev Entries := List (String × Node)

namespace Entries

/-- Puts a node in place of the one with the same name, or behind the others. -/
def put (name : String) (node : Node) : Entries → Entries
  | [] => [(name, node)]
  | (name', node') :: rest =>
    if name' = name then (name, node) :: rest else (name', node') :: put name node rest

/-! ## Dotted paths -/

/-- Assigns a node to a path. The last table on the way must have come to be by dotted paths; headers and
    inline tables are complete. -/
def assign (node : Node) : Path → Entries → Option Entries
  | [], _ => none
  | [name], entries => if (entries.lookup name).isSome then none else some ((name, node) :: entries)
  | name :: next :: rest, entries =>
    let more := next :: rest
    match entries.lookup name with
    | none => (assign node more []).map fun inner => put name (.table .dotted inner) entries
    | some (.table .dotted inner) =>
      (assign node more inner).map fun inner => put name (.table .dotted inner) entries
    -- A dotted path leads through an implied table and through the last table of a series, but ends in neither.
    | some (.table .implied inner) =>
      if rest.isEmpty then none
      else (assign node more inner).map fun inner => put name (.table .implied inner) entries
    | some (.series (last :: earlier)) =>
      if rest.isEmpty then none
      else (assign node more last).map fun last => put name (.series (last :: earlier)) entries
    | _ => none

/-! ## Headers -/

/-- Changes what is found under the path of a header. Tables that are missing on the way are implied. -/
def graft (change : Option Node → Option Node) : Path → Entries → Option Entries
  | [], _ => none
  | [name], entries => (change (entries.lookup name)).map fun node => put name node entries
  | name :: next :: rest, entries =>
    let more := next :: rest
    match entries.lookup name with
    | none => (graft change more []).map fun inner => put name (.table .implied inner) entries
    | some (.table .inline _) => none
    | some (.table origin inner) =>
      (graft change more inner).map fun inner => put name (.table origin inner) entries
    | some (.series (last :: earlier)) =>
      (graft change more last).map fun last => put name (.series (last :: earlier)) entries
    | _ => none

end Entries

/-! ## Expressions -/

mutual

/-- The tree of an expression. An inline table is assembled on its own. -/
def Node.ofExpr? : Expr → Option Node
  | .scalar v => some (.scalar v)
  | .array items => (Node.ofItems? items).map .list
  | .inline pairs => (Entries.ofPairs? pairs []).map (.table .inline)

/-- The trees of the items of an array. -/
def Node.ofItems? : List Expr → Option (List Node)
  | [] => some []
  | e :: rest => (Node.ofExpr? e).bind fun node => (Node.ofItems? rest).map (node :: ·)

/-- Adds the pairs of an inline table to some entries. -/
def Entries.ofPairs? : List (Path × Expr) → Entries → Option Entries
  | [], entries => some entries
  | (path, e) :: rest, entries =>
    (Node.ofExpr? e).bind fun node => (entries.assign node path).bind fun entries => Entries.ofPairs? rest entries

end

/-! ## Documents -/

/-- An assignment inside a table. -/
structure Assignment where
  path : Path
  value : Expr

/-- The table of a header and all that is assigned inside it. -/
structure Block where
  path : Path
  /-- Whether the header adds a table to a series. -/
  isElement : Bool
  assignments : List Assignment

/-- A document: what is assigned in front of the first header, and the blocks. -/
structure Document where
  root : List Assignment := []
  blocks : List Block := []

namespace Document

/-- Puts a statement in front of a document. -/
def cons : Statement → Document → Document
  | .assign path value, d => { d with root := { path, value } :: d.root }
  | .table path, d => { blocks := { path, isElement := false, assignments := d.root } :: d.blocks }
  | .element path, d => { blocks := { path, isElement := true, assignments := d.root } :: d.blocks }

/-- Gathers statements into blocks. -/
def ofStatements (statements : List Statement) : Document := statements.foldr cons {}

end Document

namespace Entries

/-- Carries out the assignments of a block. -/
def assignAll (assignments : List Assignment) (entries : Entries) : Option Entries :=
  assignments.foldlM (fun entries a => (Node.ofExpr? a.value).bind fun node => entries.assign node a.path) entries

/-- The table that a block opens, if there is nothing in its place or only an implied table. -/
def openTable (assignments : List Assignment) : Option Node → Option Node
  | none => (assignAll assignments []).map (.table .header)
  | some (.table .implied entries) => (assignAll assignments entries).map (.table .header)
  | _ => none

/-- The series to which a block adds a table. -/
def addElement (assignments : List Assignment) : Option Node → Option Node
  | none => (assignAll assignments []).map fun last => .series [last]
  | some (.series elements) => (assignAll assignments []).map fun last => .series (last :: elements)
  | _ => none

/-- Carries out a block. -/
def addBlock (entries : Entries) (b : Block) : Option Entries :=
  entries.graft (if b.isElement then addElement b.assignments else openTable b.assignments) b.path

/-- The entries at the root of a document. -/
def ofDocument? (d : Document) : Option Entries :=
  (assignAll d.root []).bind fun entries => d.blocks.foldlM addBlock entries

/-- The entries at the root of what the statements say, or nothing if they contradict each other. -/
def ofStatements? (statements : List Statement) : Option Entries := ofDocument? (.ofStatements statements)

end Entries

end PeerWarden.Toml
