/-!
# TOML Documents

The syntax of a document: a sequence of statements, each of which opens a table, adds a table to a series or
assigns an expression to a dotted path. What the statements mean together is settled apart from this.
-/

namespace PeerWarden.Toml

/-- The names on the way from the root, or from the current table, to an entry. Never empty. -/
abbrev Path := List String

/-- A value that has no parts. -/
inductive Scalar where
  | text (s : String)
  | integer (n : Int)
  | real (x : Float)
  | flag (b : Bool)
  /-- A date, a time of day, or both. No setting has such a value, so it is not kept which one it is. -/
  | moment

/-- What stands behind the equals sign. -/
inductive Expr where
  | scalar (v : Scalar)
  | array (items : List Expr)
  | inline (pairs : List (Path × Expr))

/-- What one line of a document says; arrays may continue it over several lines. -/
inductive Statement where
  /-- `[path]` opens a table. -/
  | table (path : Path)
  /-- `[[path]]` adds a table to a series and opens it. -/
  | element (path : Path)
  /-- `path = value` assigns a value inside the table that is open. -/
  | assign (path : Path) (value : Expr)

/-- How many arrays and inline tables may stand inside each other. -/
def maxNesting : Nat := 79

/-- How many names a path may have. -/
def maxPathLength : Nat := 79

/-- The largest integer. -/
def maxInteger : Int := 9223372036854775807

/-- The smallest integer. -/
def minInteger : Int := -9223372036854775808

end PeerWarden.Toml
