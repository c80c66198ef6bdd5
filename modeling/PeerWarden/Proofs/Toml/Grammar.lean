import PeerWarden.Toml.Reader

/-!
# The Grammar of Documents

How a document is spelled. Each relation holds between some characters and what they say, and nothing here tells how
they are read. Where characters could be taken in two ways, the relation says which one is meant: a line break right
behind three opening quotes is no part of the text, and a joint of two lines takes all blanks that follow.

## Main definitions

- `Text`, `Numeral`, `Moment`, `ScalarText`: the values without parts
- `ExprText`: all values, with arrays and inline tables at most so deep inside each other
- `StatementText`, `Lines`: statements, and the lines on which they stand
- `Spelled`: the documents
-/

namespace PeerWarden.Toml.Grammar

open PeerWarden.Number (Decimal valueIn)

/-! ## Blanks, line breaks and comments -/

/-- Nothing but blanks. -/
def Blanks (s : List Char) : Prop := ∀ c ∈ s, isBlank c = true

/-- A line break. -/
inductive LineBreak : List Char → Prop
  | feed : LineBreak ['\n']
  | returnFeed : LineBreak ['\r', '\n']

/-- A comment, or nothing. -/
inductive Comment : List Char → Prop
  | none : Comment []
  | some {s : List Char} (h : ∀ c ∈ s, isControl c = false) : Comment ('#' :: s)

/-- Blanks and line breaks. -/
inductive Gap : List Char → Prop
  | nil : Gap []
  | blank {c s} (hc : isBlank c = true) (hs : Gap s) : Gap (c :: s)
  | lineBreak {br s} (hbr : LineBreak br) (hs : Gap s) : Gap (br ++ s)

/-- Blanks, comments and line breaks, which may surround the items of an array. -/
inductive Layout : List Char → Prop
  | nil : Layout []
  | blank {c s} (hc : isBlank c = true) (hs : Layout s) : Layout (c :: s)
  | line {comment br s} (hcomment : Comment comment) (hbr : LineBreak br) (hs : Layout s) :
      Layout (comment ++ (br ++ s))

/-! ## Texts in double quotes -/

/-- An escape behind its backslash, and the character that it stands for. -/
inductive Escape : List Char → Char → Prop
  | named {letter c} (h : namedEscape? letter = some c) : Escape [letter] c
  | short {digits : List Char} {c : Char} (hlength : digits.length = 4)
      (hdigits : ∀ d ∈ digits, Number.isHexDigit d = true) (hcode : valueIn 16 digits = c.toNat) :
      Escape ('u' :: digits) c
  | long {digits : List Char} {c : Char} (hlength : digits.length = 8)
      (hdigits : ∀ d ∈ digits, Number.isHexDigit d = true) (hcode : valueIn 16 digits = c.toNat) :
      Escape ('U' :: digits) c

/-- A character between double quotes. -/
inductive BasicChar : List Char → Char → Prop
  | plain {c} (hcontrol : isControl c = false) (hquote : c ≠ '"') (hslash : c ≠ '\\') : BasicChar [c] c
  | escape {s c} (h : Escape s c) : BasicChar ('\\' :: s) c

/-- What stands between double quotes. -/
inductive BasicLine : List Char → List Char → Prop
  | nil : BasicLine [] []
  | cons {p c s cs} (hp : BasicChar p c) (hs : BasicLine s cs) : BasicLine (p ++ s) (c :: cs)

/-- What stands between three double quotes, behind some quotes of its own. No three quotes stand in a row. -/
inductive BasicBlock : (quotes : Nat) → List Char → List Char → Prop
  | nil {n} : BasicBlock n [] []
  | quote {n s cs} (hn : n < 2) (hs : BasicBlock (n + 1) s cs) : BasicBlock n ('"' :: s) ('"' :: cs)
  | char {n p c s cs} (hp : BasicChar p c) (hs : BasicBlock 0 s cs) : BasicBlock n (p ++ s) (c :: cs)
  | lineBreak {n br s cs} (hbr : LineBreak br) (hs : BasicBlock 0 s cs) : BasicBlock n (br ++ s) ('\n' :: cs)
  /-- A joint of two lines: nothing is left of it, nor of any blank or line break that follows. -/
  | joint {n b br gap s cs} (hb : Blanks b) (hbr : LineBreak br) (hgap : Gap gap)
      (hnext : ∀ c ∈ s.head?, isBlank c = false ∧ c ≠ '\n' ∧ c ≠ '\r') (hs : BasicBlock 0 s cs) :
      BasicBlock n ('\\' :: (b ++ (br ++ (gap ++ s)))) cs

/-! ## Texts in single quotes -/

/-- What stands between single quotes. -/
def LiteralLine (s : List Char) : Prop := ∀ c ∈ s, isControl c = false ∧ c ≠ '\''

/-- What stands between three single quotes, behind some quotes of its own. -/
inductive LiteralBlock : (quotes : Nat) → List Char → List Char → Prop
  | nil {n} : LiteralBlock n [] []
  | quote {n s cs} (hn : n < 2) (hs : LiteralBlock (n + 1) s cs) : LiteralBlock n ('\'' :: s) ('\'' :: cs)
  | char {n c s cs} (hcontrol : isControl c = false) (hquote : c ≠ '\'') (hs : LiteralBlock 0 s cs) :
      LiteralBlock n (c :: s) (c :: cs)
  | lineBreak {n br s cs} (hbr : LineBreak br) (hs : LiteralBlock 0 s cs) :
      LiteralBlock n (br ++ s) ('\n' :: cs)

/-! ## Texts and names -/

/-- A text on one line. -/
inductive LineText : List Char → List Char → Prop
  | basic {s cs} (h : BasicLine s cs) : LineText ('"' :: (s ++ ['"'])) cs
  | literal {s} (h : LiteralLine s) : LineText ('\'' :: (s ++ ['\''])) s

/-- What stands between three opening quotes and a text: a line break, unless the text starts otherwise. -/
def FirstBreak (br s : List Char) : Prop :=
  LineBreak br ∨ br = [] ∧ ∀ c ∈ s.head?, c ≠ '\n' ∧ c ≠ '\r'

/-- A text. -/
inductive Text : List Char → List Char → Prop
  | line {s cs} (h : LineText s cs) : Text s cs
  | basicBlock {br s cs} (hbr : FirstBreak br s) (h : BasicBlock 0 s cs) :
      Text ('"' :: '"' :: '"' :: (br ++ (s ++ ['"', '"', '"']))) cs
  | literalBlock {br s cs} (hbr : FirstBreak br s) (h : LiteralBlock 0 s cs) :
      Text ('\'' :: '\'' :: '\'' :: (br ++ (s ++ ['\'', '\'', '\'']))) cs

/-- A name. -/
inductive NameText : List Char → String → Prop
  | bare {s : List Char} (hne : s ≠ []) (h : ∀ c ∈ s, isBare c = true) : NameText s (String.ofList s)
  | quoted {s cs} (h : LineText s cs) : NameText s (String.ofList cs)

/-- Names with dots between them. -/
inductive PathText : List Char → Path → Prop
  | single {s n} (h : NameText s n) : PathText s [n]
  | cons {s n b b' more path} (h : NameText s n) (hb : Blanks b) (hb' : Blanks b') (hmore : PathText more path) :
      PathText (s ++ (b ++ ('.' :: (b' ++ more)))) (n :: path)

/-! ## Numbers -/

/-- The digits that follow a first one. An underscore stands only between two digits. -/
inductive MoreDigits (isDigit : Char → Bool) : List Char → List Char → Prop
  | nil : MoreDigits isDigit [] []
  | digit {d s ds} (hd : isDigit d = true) (hs : MoreDigits isDigit s ds) : MoreDigits isDigit (d :: s) (d :: ds)
  | underscore {d s ds} (hd : isDigit d = true) (hs : MoreDigits isDigit s ds) :
      MoreDigits isDigit ('_' :: d :: s) (d :: ds)

/-- At least one digit. -/
inductive Digits (isDigit : Char → Bool) : List Char → List Char → Prop
  | mk {d s ds} (hd : isDigit d = true) (hs : MoreDigits isDigit s ds) : Digits isDigit (d :: s) (d :: ds)

/-- The digits in front of the point. Nothing but a single zero starts with a zero. -/
inductive Whole : List Char → List Char → Prop
  | zero : Whole ['0'] ['0']
  | digits {s ds} (h : Digits Char.isDigit s ds) (hfirst : s.head? ≠ some '0') : Whole s ds

/-- A sign, and whether it is a minus. -/
inductive Sign : List Char → Bool → Prop
  | none : Sign [] false
  | plus : Sign ['+'] false
  | minus : Sign ['-'] true

/-- The digits behind the point, if there is a point. -/
inductive Fraction : List Char → Option (List Char) → Prop
  | none : Fraction [] none
  | some {s ds} (h : Digits Char.isDigit s ds) : Fraction ('.' :: s) (some ds)

/-- An exponent, if there is one. -/
inductive Exponent : List Char → Option Int → Prop
  | none : Exponent [] none
  | some {letter sign negative s ds} (hletter : letter = 'e' ∨ letter = 'E') (hsign : Sign sign negative)
      (h : Digits Char.isDigit s ds) :
      Exponent (letter :: (sign ++ s)) (some (if negative then -(valueIn 10 ds : Int) else valueIn 10 ds))

/-- The letter in front of the digits in a base other than ten. -/
inductive Base : Char → Nat → (Char → Bool) → Prop
  | hex : Base 'x' 16 Number.isHexDigit
  | octal : Base 'o' 8 Number.isOctalDigit
  | binary : Base 'b' 2 Number.isBinaryDigit

/-- The number with a sign, some digits in front of the point and behind it, and an exponent. -/
def decimalOf (negative : Bool) (whole : List Char) (places : Option (List Char)) (exponent : Option Int) : Decimal :=
  { negative
    digits := valueIn 10 (whole ++ places.getD [])
    exponent := exponent.getD 0 - (places.getD []).length }

/-- A number. Integers have 64 bits, and no positive real is too large for a double. -/
inductive Numeral : List Char → Scalar → Prop
  | based {letter base isDigit s ds} (hbase : Base letter base isDigit) (h : Digits isDigit s ds)
      (hmax : valueIn base ds ≤ maxInteger) : Numeral ('0' :: letter :: s) (.integer (valueIn base ds))
  | integer {sign negative s ds} {n : Int} (hsign : Sign sign negative) (h : Whole s ds)
      (hn : n = if negative then -(valueIn 10 ds : Int) else valueIn 10 ds) (hmin : minInteger ≤ n)
      (hmax : n ≤ maxInteger) : Numeral (sign ++ s) (.integer n)
  | real {sign negative s ds fraction places e exponent} (hsign : Sign sign negative) (h : Whole s ds)
      (hplaces : Fraction fraction places) (hexponent : Exponent e exponent)
      (hreal : places.isSome ∨ exponent.isSome)
      (hfits : negative = true ∨ (decimalOf negative ds places exponent).toFloat.isInf = false) :
      Numeral (sign ++ (s ++ (fraction ++ e))) (.real (decimalOf negative ds places exponent).toFloat)
  | infinite {sign negative} (hsign : Sign sign negative) :
      Numeral (sign ++ ['i', 'n', 'f']) (.real (if negative then -1.0 / 0.0 else 1.0 / 0.0))
  | nan {sign negative} (hsign : Sign sign negative) : Numeral (sign ++ ['n', 'a', 'n']) (.real (0.0 / 0.0))

/-! ## Dates and times -/

/-- Exactly so many decimal digits. -/
def Fixed (count : Nat) (s : List Char) : Prop := s.length = count ∧ ∀ c ∈ s, c.isDigit = true

/-- A date of the calendar. -/
inductive DateText : List Char → Prop
  | mk {y m d : List Char} (hy : Fixed 4 y) (hm : Fixed 2 m) (hd : Fixed 2 d)
      (hmonth : 1 ≤ valueIn 10 m ∧ valueIn 10 m ≤ 12)
      (hday : 1 ≤ valueIn 10 d ∧ valueIn 10 d ≤ daysInMonth (valueIn 10 y) (valueIn 10 m)) :
      DateText (y ++ ('-' :: (m ++ ('-' :: d))))

/-- An hour and a minute. -/
inductive HourMinute : List Char → Prop
  | mk {h m : List Char} (hh : Fixed 2 h) (hm : Fixed 2 m) (hhour : valueIn 10 h ≤ 23) (hminute : valueIn 10 m ≤ 59) :
      HourMinute (h ++ (':' :: m))

/-- Fractions of a second, or nothing. -/
inductive SecondFraction : List Char → Prop
  | none : SecondFraction []
  | some {d : Char} {s : List Char} (hd : d.isDigit = true) (hs : ∀ c ∈ s, c.isDigit = true) :
      SecondFraction ('.' :: d :: s)

/-- A time of day. -/
inductive TimeText : List Char → Prop
  | mk {hm s f : List Char} (hhm : HourMinute hm) (hs : Fixed 2 s) (hsecond : valueIn 10 s ≤ 60)
      (hf : SecondFraction f) : TimeText (hm ++ (':' :: (s ++ f)))

/-- An offset from universal time, or nothing. -/
inductive Offset : List Char → Prop
  | none : Offset []
  | universal {c} (hc : c = 'Z' ∨ c = 'z') : Offset [c]
  | fixed {c hm} (hc : c = '+' ∨ c = '-') (hhm : HourMinute hm) : Offset (c :: hm)

/-- A date, a time, or both. -/
inductive Moment : List Char → Prop
  | date {d} (hd : DateText d) : Moment d
  | both {d c t o} (hd : DateText d) (hc : c = 'T' ∨ c = 't' ∨ c = ' ') (ht : TimeText t) (ho : Offset o) :
      Moment (d ++ (c :: (t ++ o)))
  | time {t} (ht : TimeText t) : Moment t

/-! ## Values -/

/-- A value without parts. -/
inductive ScalarText : List Char → Scalar → Prop
  | text {s cs} (h : Text s cs) : ScalarText s (.text (String.ofList cs))
  | number {s v} (h : Numeral s v) : ScalarText s v
  | moment {s} (h : Moment s) : ScalarText s .moment
  | on : ScalarText ['t', 'r', 'u', 'e'] (.flag true)
  | off : ScalarText ['f', 'a', 'l', 's', 'e'] (.flag false)

/-- The items of an array behind its opening bracket. A comma may follow the last one. -/
inductive Items (item : List Char → Expr → Prop) : List Char → List Expr → Prop
  | nil {l} (hl : Layout l) : Items item (l ++ [']']) []
  | last {l s e l'} (hl : Layout l) (h : item s e) (hl' : Layout l') : Items item (l ++ (s ++ (l' ++ [']']))) [e]
  | cons {l s e l' more es} (hl : Layout l) (h : item s e) (hl' : Layout l') (hmore : Items item more es) :
      Items item (l ++ (s ++ (l' ++ (',' :: more)))) (e :: es)

/-- A path that is not too long, with blanks around it. -/
inductive Place : List Char → Path → Prop
  | mk {b s b' path} (hb : Blanks b) (h : PathText s path) (hb' : Blanks b') (hlength : path.length ≤ maxPathLength) :
      Place (b ++ (s ++ b')) path

/-- The pairs of an inline table behind its opening brace. -/
inductive Pairs (item : List Char → Expr → Prop) : List Char → List (Path × Expr) → Prop
  | last {p path b s e b'} (hp : Place p path) (hb : Blanks b) (h : item s e) (hb' : Blanks b') :
      Pairs item (p ++ ('=' :: (b ++ (s ++ (b' ++ ['\x7d']))))) [(path, e)]
  | cons {p path b s e b' more ps} (hp : Place p path) (hb : Blanks b) (h : item s e) (hb' : Blanks b')
      (hmore : Pairs item more ps) :
      Pairs item (p ++ ('=' :: (b ++ (s ++ (b' ++ (',' :: more)))))) ((path, e) :: ps)

/-- A value around whose parts there is a bound on the depth. -/
inductive Nested (item : List Char → Expr → Prop) : List Char → Expr → Prop
  | scalar {s v} (h : ScalarText s v) : Nested item s (.scalar v)
  | array {s es} (h : Items item s es) : Nested item ('[' :: s) (.array es)
  | empty {b} (hb : Blanks b) : Nested item ('\x7b' :: (b ++ ['\x7d'])) (.inline [])
  | inline {s ps} (h : Pairs item s ps) : Nested item ('\x7b' :: s) (.inline ps)

/-- A value in which arrays and inline tables stand at most so deep inside each other. -/
def ExprText : (levels : Nat) → List Char → Expr → Prop
  | 0 => fun s e => ∃ v, e = .scalar v ∧ ScalarText s v
  | levels + 1 => Nested (ExprText levels)

/-! ## Documents -/

/-- A statement from its first character on. -/
inductive StatementText : List Char → Statement → Prop
  | table {p path} (hp : Place p path) : StatementText ('[' :: (p ++ [']'])) (.table path)
  | element {p path} (hp : Place p path) : StatementText ('[' :: '[' :: (p ++ [']', ']'])) (.element path)
  | assign {s path b b' t e} (hs : PathText s path) (hlength : path.length ≤ maxPathLength) (hb : Blanks b)
      (hb' : Blanks b') (ht : ExprText maxNesting t e) :
      StatementText (s ++ (b ++ ('=' :: (b' ++ t)))) (.assign path e)

/-- A line, and the statement on it if there is one. -/
inductive LineOf : List Char → Option Statement → Prop
  | silent {b comment} (hb : Blanks b) (hcomment : Comment comment) : LineOf (b ++ comment) none
  | statement {b s st b' comment} (hb : Blanks b) (hs : StatementText s st) (hb' : Blanks b')
      (hcomment : Comment comment) : LineOf (b ++ (s ++ (b' ++ comment))) (some st)

/-- Lines, and the statements on them. -/
inductive Lines : List Char → List Statement → Prop
  | last {l said} (hl : LineOf l said) : Lines l said.toList
  | cons {l said br s statements} (hl : LineOf l said) (hbr : LineBreak br) (hs : Lines s statements) :
      Lines (l ++ (br ++ s)) (said.toList ++ statements)

/-- A document, and its statements. A byte order mark may stand in front of it. -/
def Spelled (text : String) (statements : List Statement) : Prop :=
  Lines text.toList statements ∨ ∃ s, text.toList = '\uFEFF' :: s ∧ Lines s statements

end PeerWarden.Toml.Grammar
