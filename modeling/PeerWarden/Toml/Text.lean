import PeerWarden.Toml.Lexical

/-!
# Texts in Documents

Texts stand between single or double quotes, and between three of them when they may break lines. Only
double quotes know escapes. Where a text with three quotes ends, up to two more quotes in front of the end
belong to the text.
-/

namespace PeerWarden.Toml

/-! ## Escapes -/

/-- The character that one letter behind a backslash stands for. -/
def namedEscape? : Char → Option Char
  | 'b' => some '\x08'
  | 't' => some '\t'
  | 'n' => some '\n'
  | 'f' => some '\x0c'
  | 'r' => some '\r'
  | '"' => some '"'
  | '\\' => some '\\'
  | _ => none

/-- The character with a code in base sixteen. -/
def codedEscape? (digits : List Char) : Option Char :=
  if digits.all Number.isHexDigit then
    let code := Number.valueIn 16 digits
    if h : code.isValidChar then some (Char.ofNatAux code h) else none
  else none

/-- A code of so many digits behind its letter, and how many characters both take. -/
def codedChar? (count : Nat) (s : List Char) : Option (Char × Nat) :=
  let digits := s.take count
  if digits.length = count then (codedEscape? digits).map (·, count + 1) else none

/-- The character of an escape behind its backslash, and how many characters the escape takes there: a letter,
    or the code of a character in four or eight digits. -/
def escape? : List Char → Option (Char × Nat)
  | 'u' :: rest => codedChar? 4 rest
  | 'U' :: rest => codedChar? 8 rest
  | c :: _ => (namedEscape? c).map (·, 1)
  | [] => none

/-! ## Texts in double quotes -/

/-- The text behind a double quote, up to the next one. The first `skip` characters have been dealt with. -/
def basicText : (skip : Nat) → Reader (List Char)
  | _, [] => none
  | skip + 1, _ :: rest => basicText skip rest
  | 0, '"' :: rest => some ([], rest)
  | 0, '\\' :: rest => (escape? rest).bind fun e => (basicText e.2 rest).map (consRead e.1)
  | 0, c :: rest => if isControl c then none else (basicText 0 rest).map (consRead c)

/-- How many blanks and line breaks there are in front of a text, counted in characters. -/
def leadingLayout : List Char → Nat
  | '\n' :: rest => leadingLayout rest + 1
  | '\r' :: '\n' :: rest => leadingLayout rest + 2
  | c :: rest => if isBlank c then leadingLayout rest + 1 else 0
  | [] => 0

/-- A backslash at the end of a line joins it with the next one that is not blank. What is left out behind the
    backslash is counted in characters. -/
def joined? (s : List Char) : Option Nat :=
  if (lineBreak? (skipBlanks s)).isSome then some (leadingLayout s) else none

/-- The text behind three double quotes, up to the next three. The first `skip` characters have been dealt
    with. -/
def blockText : (skip : Nat) → Reader (List Char)
  | _, [] => none
  | skip + 1, _ :: rest => blockText skip rest
  -- The longest run of quotes is tried first, so that quotes in front of the end are kept.
  | 0, '"' :: '"' :: '"' :: '"' :: '"' :: rest => some (['"', '"'], rest)
  | 0, '"' :: '"' :: '"' :: '"' :: rest => some (['"'], rest)
  | 0, '"' :: '"' :: '"' :: rest => some ([], rest)
  | 0, '\n' :: rest => (blockText 0 rest).map (consRead '\n')
  | 0, '\r' :: '\n' :: rest => (blockText 0 rest).map (consRead '\n')
  | 0, '\\' :: rest =>
    match joined? rest with
    | some n => blockText n rest
    | none => (escape? rest).bind fun e => (blockText e.2 rest).map (consRead e.1)
  | 0, c :: rest => if isControl c then none else (blockText 0 rest).map (consRead c)

/-! ## Texts in single quotes -/

/-- The text behind a single quote, up to the next one. -/
def literalText : Reader (List Char)
  | '\'' :: rest => some ([], rest)
  | c :: rest => if isControl c then none else (literalText rest).map (consRead c)
  | [] => none

/-- The text behind three single quotes, up to the next three. -/
def literalBlock : Reader (List Char)
  | '\'' :: '\'' :: '\'' :: '\'' :: '\'' :: rest => some (['\'', '\''], rest)
  | '\'' :: '\'' :: '\'' :: '\'' :: rest => some (['\''], rest)
  | '\'' :: '\'' :: '\'' :: rest => some ([], rest)
  | '\n' :: rest => (literalBlock rest).map (consRead '\n')
  | '\r' :: '\n' :: rest => (literalBlock rest).map (consRead '\n')
  | c :: rest => if isControl c then none else (literalBlock rest).map (consRead c)
  | [] => none

/-! ## All texts -/

/-- A line break right behind three opening quotes does not belong to the text. -/
def dropFirstBreak (s : List Char) : List Char := (lineBreak? s).getD s

/-- A text on one line. -/
def lineText : Reader (List Char)
  | '"' :: rest => basicText 0 rest
  | '\'' :: rest => literalText rest
  | _ => none

/-- A text in any quotes. -/
def text : Reader (List Char)
  | '"' :: '"' :: '"' :: rest => blockText 0 (dropFirstBreak rest)
  | '\'' :: '\'' :: '\'' :: rest => literalBlock (dropFirstBreak rest)
  | s => lineText s

/-! ## Laws -/

section Laws

variable {c : Char} {rest : List Char}

-- The readers are unfolded in this section and nowhere else.
attribute [local simp] basicText leadingLayout blockText literalText literalBlock

theorem basicText_quote : basicText 0 ('"' :: rest) = some ([], rest) := rfl

theorem basicText_backslash :
    basicText 0 ('\\' :: rest) = (escape? rest).bind fun e => (basicText e.2 rest).map (consRead e.1) := rfl

theorem basicText_plain (hcontrol : isControl c = false) (hquote : c ≠ '"') (hslash : c ≠ '\\') :
    basicText 0 (c :: rest) = (basicText 0 rest).map (consRead c) := by
  simp [hcontrol]

theorem leadingLayout_blank (hc : isBlank c = true) : leadingLayout (c :: rest) = leadingLayout rest + 1 := by
  obtain rfl | rfl := isBlank_iff.mp hc <;> rfl

theorem leadingLayout_stop (hblank : ¬isBlank c = true) (hfeed : c ≠ '\n') (hreturn : c ≠ '\r') :
    leadingLayout (c :: rest) = 0 := by
  simp [hblank, hreturn]

theorem blockText_backslash : blockText 0 ('\\' :: rest) =
    match joined? rest with
    | some n => blockText n rest
    | none => (escape? rest).bind fun e => (blockText e.2 rest).map (consRead e.1) := rfl

/-- What is neither a quote nor a backslash nor part of a line break stands for itself. -/
theorem blockText_plain (hcontrol : isControl c = false) (hquote : c ≠ '"') (hslash : c ≠ '\\') :
    blockText 0 (c :: rest) = (blockText 0 rest).map (consRead c) := by
  obtain ⟨hfeed, hreturn⟩ := ne_lineBreak_of_not_isControl hcontrol
  simp [hquote, hreturn, hcontrol]

/-- A quote that does not open three in a row stands for itself. -/
theorem blockText_quote (h : ∀ more, rest ≠ '"' :: '"' :: more) :
    blockText 0 ('"' :: rest) = (blockText 0 rest).map (consRead '"') := by
  rw [blockText]
  · simp [isControl]
  all_goals simp_all

theorem blockText_three (h : ∀ c ∈ rest.head?, c ≠ '"') :
    blockText 0 ('"' :: '"' :: '"' :: rest) = some ([], rest) := by
  cases rest with
  | nil => rfl
  | cons c rest => simp [h c rfl]

theorem blockText_four (h : ∀ c ∈ rest.head?, c ≠ '"') :
    blockText 0 ('"' :: '"' :: '"' :: '"' :: rest) = some (['"'], rest) := by
  cases rest with
  | nil => rfl
  | cons c rest => simp [h c rfl]

theorem literalText_plain (hcontrol : isControl c = false) (hquote : c ≠ '\'') :
    literalText (c :: rest) = (literalText rest).map (consRead c) := by
  simp [hcontrol]

theorem literalBlock_plain (hcontrol : isControl c = false) (hquote : c ≠ '\'') :
    literalBlock (c :: rest) = (literalBlock rest).map (consRead c) := by
  obtain ⟨hfeed, hreturn⟩ := ne_lineBreak_of_not_isControl hcontrol
  simp [hquote, hreturn, hcontrol]

theorem literalBlock_quote (h : ∀ more, rest ≠ '\'' :: '\'' :: more) :
    literalBlock ('\'' :: rest) = (literalBlock rest).map (consRead '\'') := by
  rw [literalBlock]
  · simp [isControl]
  all_goals simp_all

theorem literalBlock_three (h : ∀ c ∈ rest.head?, c ≠ '\'') :
    literalBlock ('\'' :: '\'' :: '\'' :: rest) = some ([], rest) := by
  cases rest with
  | nil => rfl
  | cons c rest => simp [h c rfl]

theorem literalBlock_four (h : ∀ c ∈ rest.head?, c ≠ '\'') :
    literalBlock ('\'' :: '\'' :: '\'' :: '\'' :: rest) = some (['\''], rest) := by
  cases rest with
  | nil => rfl
  | cons c rest => simp [h c rfl]

end Laws

end PeerWarden.Toml
