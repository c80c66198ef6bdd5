import PeerWarden.Number.Digits
import PeerWarden.Toml.Syntax

/-!
# Characters, Blanks and Digits

The character classes of TOML, and the readers of the smallest parts. A reader takes what it understands from
the front of a text and returns the rest; if it understands nothing there, the whole document is malformed.
-/

namespace PeerWarden.Toml

/-- Takes a value from the front of a text. -/
abbrev Reader (α : Type) := List Char → Option (α × List Char)

/-! ## Character classes -/

/-- Blanks separate the parts of a line. -/
def isBlank (c : Char) : Bool := c = ' ' || c = '\t'

/-- The characters that stand nowhere as they are, line breaks included. A tab is none of them. -/
def isControl (c : Char) : Bool := (decide (c.toNat < 0x20) && c ≠ '\t') || c = '\x7f'

/-- The characters of a name without quotes. -/
def isBare (c : Char) : Bool := c.isAlphanum || c = '_' || c = '-'

/-! ## Blanks, comments and line ends -/

/-- Drops blanks. -/
def skipBlanks (s : List Char) : List Char := s.dropWhile isBlank

/-- Drops the line break at the front, if there is one. A carriage return alone is none. -/
def lineBreak? : List Char → Option (List Char)
  | '\n' :: rest => some rest
  | '\r' :: '\n' :: rest => some rest
  | _ => none

/-- Drops a comment up to the end of its line. -/
def skipComment : List Char → List Char
  | '#' :: rest => rest.dropWhile fun c => !isControl c
  | s => s

/-- Drops blanks, line breaks and comments. Inside a comment everything up to the line break goes. -/
def skipLayout : (inComment : Bool) → List Char → List Char
  | _, '\n' :: rest => skipLayout false rest
  | _, '\r' :: '\n' :: rest => skipLayout false rest
  | true, c :: rest => if isControl c then c :: rest else skipLayout true rest
  | false, c :: rest =>
    if isBlank c then skipLayout false rest
    else if c = '#' then skipLayout true rest
    else c :: rest
  | _, [] => []

/-! ## Digits -/

/-- Puts a part in front of what was read. -/
def consRead {α : Type} (x : α) (result : List α × List Char) : List α × List Char := (x :: result.1, result.2)

/-- The digits that follow a first one. An underscore stands only between two digits. -/
def moreDigits (isDigit : Char → Bool) : Reader (List Char)
  | '_' :: d :: rest => if isDigit d then (moreDigits isDigit rest).map (consRead d) else none
  | ['_'] => none
  | c :: rest => if isDigit c then (moreDigits isDigit rest).map (consRead c) else some ([], c :: rest)
  | [] => some ([], [])

/-- At least one digit. -/
def someDigits (isDigit : Char → Bool) : Reader (List Char)
  | d :: rest => if isDigit d then (moreDigits isDigit rest).map (consRead d) else none
  | [] => none

/-- A number of exactly so many decimal digits. -/
def fixedDigits (count : Nat) : Reader Nat := fun s =>
  let digits := s.take count
  if digits.length = count ∧ digits.all Char.isDigit then some (Number.valueIn 10 digits, s.drop count) else none

/-- One given character. -/
def exactly (c : Char) : Reader Unit
  | d :: rest => if d = c then some ((), rest) else none
  | [] => none

/-! ## Laws -/

section Laws

variable {c : Char} {rest : List Char}

theorem isBlank_iff : isBlank c = true ↔ c = ' ' ∨ c = '\t' := by simp [isBlank]

/-- Line breaks count as control characters. -/
theorem ne_lineBreak_of_not_isControl (hc : isControl c = false) : c ≠ '\n' ∧ c ≠ '\r' := by
  constructor <;> (rintro rfl; cases hc)

theorem lineBreak?_eq_none (hfeed : c ≠ '\n') (hreturn : c ≠ '\r') : lineBreak? (c :: rest) = none := by
  simp [lineBreak?, hfeed, hreturn]

theorem skipLayout_hash : skipLayout false ('#' :: rest) = skipLayout true rest := rfl

theorem skipLayout_inComment (hc : isControl c = false) : skipLayout true (c :: rest) = skipLayout true rest := by
  obtain ⟨hfeed, hreturn⟩ := ne_lineBreak_of_not_isControl hc
  simp [skipLayout, hreturn, hc]

theorem skipLayout_blank (hc : isBlank c = true) : skipLayout false (c :: rest) = skipLayout false rest := by
  obtain rfl | rfl := isBlank_iff.mp hc <;> rfl

theorem skipLayout_stop (hblank : ¬isBlank c = true) (hfeed : c ≠ '\n') (hreturn : c ≠ '\r') (hhash : c ≠ '#') :
    skipLayout false (c :: rest) = c :: rest := by
  simp [skipLayout, hblank, hreturn, hhash]

end Laws

end PeerWarden.Toml
