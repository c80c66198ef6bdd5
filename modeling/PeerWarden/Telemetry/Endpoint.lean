import PeerWarden.Number.Digits
import PeerWarden.Number.Power

/-!
# Endpoints

The address at which metrics are served: a host, and behind the last colon the number of a service.

A host is an address of four bytes, an address of eight groups of two bytes, or a name. The machine is taken
to stand alone, without a link to any other. There all addresses of four bytes can be served, and of the
others only the one of all zeros and those that embed four bytes. The only name that is known is `localhost`.
-/

namespace PeerWarden.Endpoint

open Number

/-- Why nothing can be served at an address. -/
inductive Defect where
  /-- There is no colon. -/
  | noService
  /-- What stands behind the last colon is not the number of a service. -/
  | badService
  /-- The host contains a character that no host can contain. -/
  | nulCharacter
  /-- The host can be neither an address nor a name. -/
  | badName
  /-- Nobody is there to tell what the name means. -/
  | unansweredName
  /-- The address belongs to another machine. -/
  | foreignAddress
  /-- The address means nothing without a link. -/
  | linkMissing
  /-- The address names a link that does not exist. -/
  | linkUnknown
  deriving DecidableEq, Repr

/-- What is reported about an address. -/
def Defect.message : Defect → String
  | noService => "invalid socket address"
  | badService => "invalid port value"
  | nulCharacter => "file name contained an unexpected NUL byte"
  | badName => "failed to lookup address information: Name or service not known"
  | unansweredName => "failed to lookup address information: Temporary failure in name resolution"
  | foreignAddress => "Cannot assign requested address (os error 99)"
  | linkMissing => "Invalid argument (os error 22)"
  | linkUnknown => "No such device (os error 19)"

/-! ## Numerals -/

/-- The parts between separators. Nothing at all is one empty part. -/
def fields (separator : Char) : List Char → List (List Char)
  | [] => [[]]
  | c :: cs =>
    if c = separator then [] :: fields separator cs
    else match fields separator cs with
      | first :: rest => (c :: first) :: rest
      | [] => [[c]]

theorem fields_ne_nil (separator : Char) (cs : List Char) : fields separator cs ≠ [] := by
  cases cs with
  | nil => exact List.cons_ne_nil _ _
  | cons c cs =>
    unfold fields
    split
    · exact List.cons_ne_nil _ _
    · split <;> exact List.cons_ne_nil _ _

/-- The parts, put together again, are the text. -/
theorem intercalate_fields (separator : Char) (cs : List Char) :
    [separator].intercalate (fields separator cs) = cs := by
  induction cs with
  | nil => rfl
  | cons c cs ih =>
    obtain ⟨first, rest, h⟩ := List.exists_cons_of_ne_nil (fields_ne_nil separator cs)
    rw [h] at ih
    by_cases hc : c = separator
    · rw [fields, if_pos hc, h, List.intercalate_cons_cons, ih, hc]
      rfl
    · rw [fields, if_neg hc, h]
      cases rest with
      | nil =>
        rw [List.intercalate_singleton] at ih ⊢
        rw [ih]
      | cons second rest =>
        rw [List.intercalate_cons_cons] at ih ⊢
        simpa using ih

/-- The value of a numeral that has at least one digit and does not exceed a limit. -/
def numeral? (isDigit : Char → Bool) (base limit : Nat) (cs : List Char) : Option Nat :=
  if !cs.isEmpty && cs.all isDigit && valueIn base cs ≤ limit then some (valueIn base cs) else none

/-- The largest number of a service. -/
def maxService : Nat := 65535

/-- Whether a text is the number of a service. A plus sign and leading zeros are allowed. -/
def isService : List Char → Bool
  | '+' :: digits => (numeral? Char.isDigit 10 maxService digits).isSome
  | digits => (numeral? Char.isDigit 10 maxService digits).isSome

/-! ## Addresses of four bytes -/

/-- A numeral of base sixteen, eight or ten; the first two are told by what they begin with. -/
def anyNumeral? (limit : Nat) : List Char → Option Nat
  | '0' :: 'x' :: digits | '0' :: 'X' :: digits => numeral? isHexDigit 16 limit digits
  | '0' :: digits => numeral? isOctalDigit 8 limit ('0' :: digits)
  | digits => numeral? Char.isDigit 10 limit digits

/-- Whether parts make up an address of so many bytes. All parts but the last are one byte; the last one
    stands for all bytes that are left. -/
def fillsBytes : Nat → List (List Char) → Bool
  | bytes + 1, [last] => (anyNumeral? (twoTo (8 * (bytes + 1)) - 1) last).isSome
  | bytes + 1, part :: parts => (anyNumeral? 255 part).isSome && fillsBytes bytes parts
  | _, _ => false

/-- Whether a host is an address of four bytes. -/
def isNarrow (host : List Char) : Bool := fillsBytes 4 (fields '.' host)

/-! ## Addresses of eight groups -/

/-- A group is one to four digits of base sixteen. -/
def group? (cs : List Char) : Option Nat :=
  if cs.length ≤ 4 then numeral? isHexDigit 16 0xffff cs else none

/-- A byte in base ten, without leading zeros. -/
def byte? (cs : List Char) : Option Nat :=
  if cs = ['0'] ∨ cs.head? ≠ some '0' then numeral? Char.isDigit 10 255 cs else none

/-- The two groups that four bytes with dots stand for. -/
def embedded? (cs : List Char) : Option (List Nat) :=
  match (fields '.' cs).mapM byte? with
  | some [a, b, c, d] => some [256 * a + b, 256 * c + d]
  | _ => none

/-- The groups in front of a gap. -/
def leading? (cs : List Char) : Option (List Nat) :=
  if cs.isEmpty then some [] else (fields ':' cs).mapM group?

/-- The groups of parts of which the last may be four bytes. -/
def groups? : List (List Char) → Option (List Nat)
  | [] => some []
  | [last] => ((group? last).map fun g => [g]) <|> embedded? last
  | part :: parts => do
    let g ← group? part
    let gs ← groups? parts
    return g :: gs

/-- The groups behind a gap. -/
def trailing? (cs : List Char) : Option (List Nat) :=
  if cs.isEmpty then some [] else groups? (fields ':' cs)

/-- What stands in front of the first two adjacent colons and what stands behind them. -/
def gap? : List Char → Option (List Char × List Char)
  | ':' :: ':' :: behind => some ([], behind)
  | c :: cs => (gap? cs).map fun (front, behind) => (c :: front, behind)
  | [] => none

/-- Around the gap stands the whole text. -/
theorem eq_append_of_gap? {cs front behind : List Char} (h : gap? cs = some (front, behind)) :
    cs = front ++ ':' :: ':' :: behind := by
  induction cs using gap?.induct generalizing front with
  | case1 behind' =>
    obtain ⟨rfl, rfl⟩ : [] = front ∧ behind' = behind := by simpa [gap?] using h
    rfl
  | case2 c cs hne ih =>
    rw [gap?] at h
    · obtain ⟨⟨front', behind'⟩, hgap, heq⟩ := Option.map_eq_some_iff.mp h
      obtain ⟨rfl, rfl⟩ : c :: front' = front ∧ behind' = behind := by simpa using heq
      rw [ih hgap]
      rfl
    · exact hne
  | case3 => exact absurd h (by simp [gap?])

/-- The eight groups of an address. A gap stands for at least one group of zeros. -/
def wide? (cs : List Char) : Option (List Nat) :=
  match gap? cs with
  | none => (groups? (fields ':' cs)).filter fun groups => groups.length = 8
  | some (front, behind) => do
    let left ← leading? front
    let right ← trailing? behind
    if left.length + right.length < 8 then
      return left ++ List.replicate (8 - left.length - right.length) 0 ++ right
    else none

/-- An address of eight groups and the number of the link behind a percent sign; without one it is zero. -/
def linked? (cs : List Char) : Option (List Nat × Nat) :=
  match fields '%' cs with
  | [address] => (wide? address).map fun groups => (groups, 0)
  | [address, link] => do
    let groups ← wide? address
    let link ← numeral? Char.isDigit 10 4294967295 link
    return (groups, link)
  | _ => none

/-- The number of the link from the machine to itself, which is there but has no address. -/
def ownLink : Nat := 1

/-- Why nothing can be served at an address of eight groups. -/
def wideDefect? (groups : List Nat) (link : Nat) : Option Defect :=
  match groups with
  | [0, 0, 0, 0, 0, 0, 0, 0] => none
  | [0, 0, 0, 0, 0, 0xffff, _, _] => none
  | first :: _ =>
    -- Groups of machines begin with `ff`, and the addresses of a single link with `fe8` to `feb`.
    if 0xff00 ≤ first then some .linkMissing
    else if first < 0xfe80 ∨ 0xfec0 ≤ first ∨ link = ownLink then some .foreignAddress
    else if link = 0 then some .linkMissing
    else some .linkUnknown
  | [] => some .foreignAddress

/-! ## Names -/

/-- The names are made of labels. -/
def isLabel (cs : List Char) : Bool :=
  !cs.isEmpty && cs.length ≤ 63 && cs.all fun c => c.isAlphanum || c = '-' || c = '_'

/-- Whether a host can be a name. One dot may end it, and a dash cannot begin it. -/
def isName (host : List Char) : Bool :=
  let labels := if host.getLast? = some '.' then host.dropLast else host
  host = ['.'] || (host.head? ≠ some '-' && labels.length ≤ 253 && (fields '.' labels).all isLabel)

/-- Whether a host is a name that the machine knows. -/
def isKnownName (host : List Char) : Bool := host.map Char.toLower = "localhost".toList

/-! ## Endpoints -/

/-- A host without the brackets around it. -/
def unbracketed : List Char → List Char
  | '[' :: rest => if rest.getLast? = some ']' then rest.dropLast else '[' :: rest
  | host => host

/-- Why nothing can be served at a host. Brackets are allowed around an address of eight groups only, and only
    if the number of the service has no sign. -/
def hostDefect? (host : List Char) (signed : Bool) : Option Defect :=
  if host.contains '\x00' then some .nulCharacter
  else if isNarrow host || isKnownName host then none
  else match linked? (if signed then host else unbracketed host) with
    | some (groups, link) => wideDefect? groups link
    | none => if isName host then some .unansweredName else some .badName

/-- Why nothing can be served at an address. -/
def defect? (address : String) : Option Defect :=
  let cs := address.toList
  let service := (cs.reverse.takeWhile (· ≠ ':')).reverse
  if !cs.contains ':' then some .noService
  else if !isService service then some .badService
  else hostDefect? (cs.take (cs.length - service.length - 1)) (service.head? = some '+')

end PeerWarden.Endpoint
