import PeerWarden.Toml.Moment
import PeerWarden.Toml.Number
import PeerWarden.Toml.Text

/-!
# Reading Documents

From a text to the statements of a document. Each round of a loop takes at least one character, so no loop
has more rounds than the text has characters; nesting ends because only so many arrays and inline tables may
stand inside each other.
-/

namespace PeerWarden.Toml

/-! ## Names and paths -/

/-- A name without quotes. -/
def bareName : Reader String := fun s =>
  let name := s.takeWhile isBare
  if name.isEmpty then none else some (String.ofList name, s.dropWhile isBare)

/-- A name with or without quotes. -/
def name : Reader String
  | '"' :: rest => (basicText 0 rest).map fun (cs, rest) => (String.ofList cs, rest)
  | '\'' :: rest => (literalText rest).map fun (cs, rest) => (String.ofList cs, rest)
  | s => bareName s

/-- At most so many names with dots between them; blanks may surround each name. -/
def names : (limit : Nat) → Reader Path
  | 0, _ => none
  | limit + 1, s =>
    match name (skipBlanks s) with
    | none => none
    | some (first, rest) =>
      match skipBlanks rest with
      | '.' :: more => (names limit more).map (consRead first)
      | rest => some ([first], rest)

/-- A path that is not too long. -/
def path : Reader Path := names maxPathLength

/-! ## Expressions -/

/-- A word that stands for a value. -/
def word (letters : List Char) (value : Scalar) : Reader Scalar := fun s =>
  if letters.isPrefixOf s then some (value, s.drop letters.length) else none

/-- A value without parts; its first character tells of which kind it is. -/
def scalar : Reader Scalar := fun s =>
  match s with
  | [] => none
  | c :: _ =>
    if c = '"' ∨ c = '\'' then (text s).map fun (cs, rest) => (.text (String.ofList cs), rest)
    -- The year of a date would be read as a number, so a date is tried first.
    else if c = '+' ∨ c = '-' ∨ c.isDigit then (moment s).or (number s)
    else if c = 't' then word ['t', 'r', 'u', 'e'] (.flag true) s
    else if c = 'f' then word ['f', 'a', 'l', 's', 'e'] (.flag false) s
    else unsignedNumber false s

/-- The items of an array behind its opening bracket, in at most so many rounds. A comma may follow the last
    item. -/
def items (item : Reader Expr) : (rounds : Nat) → Reader (List Expr)
  | 0, _ => none
  | rounds + 1, s =>
    match skipLayout false s with
    | ']' :: rest => some ([], rest)
    | start =>
      match item start with
      | none => none
      | some (first, rest) =>
        match skipLayout false rest with
        | ']' :: rest => some ([first], rest)
        | ',' :: more => (items item rounds more).map (consRead first)
        | _ => none

/-- One pair of an inline table. -/
def pair (item : Reader Expr) : Reader (Path × Expr) := fun s => do
  let (path, s) ← path s
  let ((), s) ← exactly '=' s
  let (value, s) ← item (skipBlanks s)
  return ((path, value), skipBlanks s)

/-- The pairs of an inline table behind its opening brace, of which there is at least one, in at most so many
    rounds. All stand on one line, and no comma follows the last one. -/
def pairs (item : Reader Expr) : (rounds : Nat) → Reader (List (Path × Expr))
  | 0, _ => none
  | rounds + 1, s =>
    match pair item s with
    | some (first, '\x7d' :: rest) => some ([first], rest)
    | some (first, ',' :: more) => (pairs item rounds more).map (consRead first)
    | _ => none

/-- An expression in which arrays and inline tables have at most `size` parts and stand at most so deep inside
    each other. -/
def expr (size : Nat) : (levels : Nat) → Reader Expr
  | levels + 1, '[' :: rest =>
    (items (expr size levels) size rest).map fun (xs, rest) => (.array xs, rest)
  | levels + 1, '\x7b' :: rest =>
    match skipBlanks rest with
    | '\x7d' :: rest => some (.inline [], rest)
    | _ => (pairs (expr size levels) size rest).map fun (ps, rest) => (.inline ps, rest)
  | _, s => (scalar s).map fun (v, rest) => (.scalar v, rest)

/-! ## Statements -/

/-- One statement at its first character. No array or inline table in it has more than `size` parts. -/
def statement (size : Nat) : Reader Statement
  | '[' :: '[' :: s => do
    let (path, s) ← path s
    let ((), s) ← exactly ']' s
    let ((), s) ← exactly ']' s
    return (.element path, s)
  | '[' :: s => do
    let (path, s) ← path s
    let ((), s) ← exactly ']' s
    return (.table path, s)
  | s => do
    let (path, s) ← path s
    let ((), s) ← exactly '=' s
    let (value, s) ← expr size maxNesting (skipBlanks s)
    return (.assign path value, s)

/-- Whether a line says nothing: it has a comment at most. -/
def isSilent (s : List Char) : Bool := s.isEmpty || s.head? = some '#' || (lineBreak? s).isSome

/-- What the first line of a text says, if it says anything. -/
def line (size : Nat) : Reader (Option Statement) := fun s =>
  let start := skipBlanks s
  if isSilent start then some (none, start) else (statement size start).map fun (st, rest) => (some st, rest)

/-- The statements of a text, line by line, in at most so many rounds. Behind each statement there may be a
    comment. -/
def statements (size : Nat) : (rounds : Nat) → List Char → Option (List Statement)
  | 0, _ => none
  | rounds + 1, s =>
    match line size s with
    | none => none
    | some (said, rest) =>
      match skipComment (skipBlanks rest) with
      | [] => some said.toList
      | rest => (lineBreak? rest).bind fun more => (statements size rounds more).map (said.toList ++ ·)

/-- A byte order mark at the start is no part of the document. -/
def dropMark : List Char → List Char
  | '\uFEFF' :: rest => rest
  | s => s

/-- The statements of a document, or nothing if it is malformed. -/
def read? (text : String) : Option (List Statement) :=
  let s := dropMark text.toList
  statements s.length (s.length + 1) s

end PeerWarden.Toml
