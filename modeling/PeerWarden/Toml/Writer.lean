import PeerWarden.Number.Text
import PeerWarden.Toml.Lexical

/-!
# Writing Documents

How a document of plain tables is written: a header for each table, a line for each of its entries, and an
empty line between tables. A text is written in the first of these forms that can hold it and stays readable:
on one line in double quotes, on one line in single quotes, over several lines in double quotes, over several
lines in single quotes, or in double quotes with escapes.
-/

namespace PeerWarden.Toml.Writer

/-! ## Texts -/

/-- Whether a character stands three times in a row, which would end a text over several lines. -/
def hasTriple (q : Char) : List Char → Bool
  | a :: b :: c :: rest => (a = q && b = q && c = q) || hasTriple q (b :: c :: rest)
  | _ => false

/-- Whether a character can only be written as an escape: a control character other than a tab or a line
    break. -/
def needsEscape (c : Char) : Bool := isControl c && c ≠ '\n'

/-- The forms in which a text is written. -/
inductive Form where
  | basic
  | literal
  | basicBlock
  | literalBlock
  deriving DecidableEq, Repr

/-- The first form that holds a text without many escapes. -/
def Form.of (cs : List Char) : Form :=
  let control := cs.any needsEscape
  let backslash := cs.contains '\\'
  let multiline := cs.contains '\n'
  if !control && !backslash && !cs.contains '"' && !multiline then .basic
  else if !control && !cs.contains '\'' && !multiline then .literal
  else if !control && !backslash && !hasTriple '"' cs then .basicBlock
  else if !control && !hasTriple '\'' cs then .literalBlock
  else if multiline then .basicBlock
  else .basic

/-- A code in four digits of base sixteen. -/
def codeEscape (c : Char) : List Char :=
  let digits := (Nat.toDigits 16 c.toNat).map Char.toUpper
  '\\' :: 'u' :: (List.replicate (4 - digits.length) '0' ++ digits)

/-- How a character other than a quote or a line break is written between double quotes. -/
def escapeChar (c : Char) : List Char :=
  if c = '\\' then ['\\', '\\']
  else if c = '\x08' then ['\\', 'b']
  else if c = '\t' then ['\\', 't']
  else if c = '\x0c' then ['\\', 'f']
  else if c = '\r' then ['\\', 'r']
  else if isControl c then codeEscape c
  else [c]

/-- What is written between double quotes on one line. -/
def escapeLine : List Char → List Char
  | [] => []
  | '\n' :: rest => '\\' :: 'n' :: escapeLine rest
  | '"' :: rest => '\\' :: '"' :: escapeLine rest
  | c :: rest => escapeChar c ++ escapeLine rest

/-- What is written between three double quotes. Of three quotes in a row the third is escaped. -/
def escapeBlock : (quotes : Nat) → List Char → List Char
  | _, [] => []
  | _, '\n' :: rest => '\n' :: escapeBlock 0 rest
  | quotes, '"' :: rest =>
    if quotes = 2 then '\\' :: '"' :: escapeBlock 0 rest else '"' :: escapeBlock (quotes + 1) rest
  | _, c :: rest => escapeChar c ++ escapeBlock 0 rest

/-- Opening quotes over several lines are followed by a line break if the text has one itself. -/
def blockStart (cs : List Char) : List Char := if cs.contains '\n' then ['\n'] else []

/-- A text in a form. -/
def quoteAs (cs : List Char) : Form → List Char
  | .basic => ['"'] ++ escapeLine cs ++ ['"']
  | .literal => ['\''] ++ cs ++ ['\'']
  | .basicBlock => ['"', '"', '"'] ++ blockStart cs ++ escapeBlock 0 cs ++ ['"', '"', '"']
  | .literalBlock => ['\'', '\'', '\''] ++ blockStart cs ++ cs ++ ['\'', '\'', '\'']

/-- A text with its quotes. -/
def quote (s : String) : String := String.ofList (quoteAs s.toList (.of s.toList))

/-! ## Values -/

/-- A real: its shortest decimal, with a fraction that tells it from an integer. -/
def realText (x : Float) : String :=
  if x.isNaN then "nan"
  else
    let plain := Number.plain x
    if x.isInf || plain.toList.contains '.' then plain else plain ++ ".0"

/-- The text of a value. A moment has none, because it is not kept which one it is. -/
def scalarText? : Scalar → Option String
  | .text s => some (quote s)
  | .integer n => if minInteger ≤ n ∧ n ≤ maxInteger then some (toString n) else none
  | .real x => some (realText x)
  | .flag b => some (if b then "true" else "false")
  | .moment => none

/-! ## Tables -/

/-- A name, in quotes unless it can stand without them. -/
def nameText (name : String) : String :=
  if name.toList.all isBare && !name.isEmpty then name
  else String.ofList (['"'] ++ escapeLine name.toList ++ ['"'])

/-- A table of values. -/
structure Table where
  name : String
  entries : List (String × Scalar)

/-- The line of an entry. -/
def entryText? (entry : String × Scalar) : Option String :=
  (scalarText? entry.2).map fun value => nameText entry.1 ++ " = " ++ value ++ "\n"

/-- A table under its header. -/
def tableText? (t : Table) : Option String :=
  (t.entries.mapM entryText?).map fun lines => "[" ++ nameText t.name ++ "]\n" ++ String.join lines

/-- Some tables with an empty line between them, if all their values can be written. -/
def text? (tables : List Table) : Option String := (tables.mapM tableText?).map ("\n".intercalate ·)

end PeerWarden.Toml.Writer
