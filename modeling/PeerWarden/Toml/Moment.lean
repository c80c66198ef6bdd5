import PeerWarden.Toml.Lexical

/-!
# Dates and Times in Documents

Dates with or without a time, times alone, and offsets from universal time. Only their form and their ranges
matter here: days beyond the end of a month are refused, a sixty-first second is not.
-/

namespace PeerWarden.Toml

/-! ## Calendar -/

/-- Whether a year has a leap day. -/
def isLeapYear (year : Nat) : Bool := year % 4 = 0 && (year % 100 ≠ 0 || year % 400 = 0)

/-- The number of days in a month. -/
def daysInMonth (year month : Nat) : Nat :=
  if month = 2 then (if isLeapYear year then 29 else 28)
  else if month ∈ [4, 6, 9, 11] then 30
  else 31

/-! ## Readers -/

/-- A date. -/
def date : Reader Unit := fun s => do
  let (year, s) ← fixedDigits 4 s
  let ((), s) ← exactly '-' s
  let (month, s) ← fixedDigits 2 s
  let ((), s) ← exactly '-' s
  let (day, s) ← fixedDigits 2 s
  guard (1 ≤ month ∧ month ≤ 12 ∧ 1 ≤ day ∧ day ≤ daysInMonth year month)
  return ((), s)

/-- An hour and a minute. -/
def hourMinute : Reader Unit := fun s => do
  let (hour, s) ← fixedDigits 2 s
  let ((), s) ← exactly ':' s
  let (minute, s) ← fixedDigits 2 s
  guard (hour ≤ 23 ∧ minute ≤ 59)
  return ((), s)

/-- Drops the digits behind a point, if both are there. -/
def skipFraction : List Char → List Char
  | '.' :: d :: rest => if d.isDigit then rest.dropWhile Char.isDigit else '.' :: d :: rest
  | s => s

/-- A time of day. -/
def timeOfDay : Reader Unit := fun s => do
  let ((), s) ← hourMinute s
  let ((), s) ← exactly ':' s
  let (second, s) ← fixedDigits 2 s
  guard (second ≤ 60)
  return ((), skipFraction s)

/-- Drops an offset, if there is one. -/
def skipOffset (s : List Char) : List Char :=
  match s with
  | 'Z' :: rest => rest
  | 'z' :: rest => rest
  | '+' :: rest => ((hourMinute rest).map Prod.snd).getD s
  | '-' :: rest => ((hourMinute rest).map Prod.snd).getD s
  | _ => s

/-- Drops a time behind a date, if there is one. -/
def skipTime (s : List Char) : List Char :=
  match s with
  | c :: rest =>
    if c = 'T' ∨ c = 't' ∨ c = ' ' then ((timeOfDay rest).map fun r => skipOffset r.2).getD s else s
  | [] => []

/-- A date with or without a time, or a time alone. -/
def moment : Reader Scalar := fun s =>
  match date s with
  | some ((), rest) => some (.moment, skipTime rest)
  | none => (timeOfDay s).map fun r => (.moment, r.2)

end PeerWarden.Toml
