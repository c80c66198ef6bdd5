import PeerWarden.Clock

/-!
# Security Events

What a detector found: the kind of attack, the peer or address it concerns, how grave it is and what was
done about it.
-/

namespace PeerWarden

/-! ## Kinds, grades and measures -/

/-- The kinds of attack that events speak of. -/
inductive AttackType where
  | sybil
  | dos
  | eclipse
  | selfishMining
  | vdfManipulation
  | rateLimit
  | unknown
  deriving DecidableEq, Repr

namespace AttackType

/-- All kinds in their order. -/
def all : List AttackType := [sybil, dos, eclipse, selfishMining, vdfManipulation, rateLimit, unknown]

/-- The name of a kind in texts and labels. -/
def name : AttackType → String
  | sybil => "sybil"
  | dos => "dos"
  | eclipse => "eclipse"
  | selfishMining => "selfish_mining"
  | vdfManipulation => "vdf_manipulation"
  | rateLimit => "rate_limit"
  | unknown => "unknown"

/-- The kind with a name. -/
def ofName? (s : String) : Option AttackType := all.find? (·.name = s)

/-- The place of a kind in the order of kinds. -/
def rank (a : AttackType) : Nat := all.idxOf a

end AttackType

/-- How grave an event is, from harmless to banned. -/
inductive Severity where
  | safe
  | caution
  | warning
  | critical
  | blocked
  deriving DecidableEq, Repr

namespace Severity

/-- All grades, the harmless ones first. -/
def all : List Severity := [safe, caution, warning, critical, blocked]

/-- The name of a grade in texts and labels. -/
def name : Severity → String
  | safe => "safe"
  | caution => "caution"
  | warning => "warning"
  | critical => "critical"
  | blocked => "blocked"

/-- The grade with a name. -/
def ofName? (s : String) : Option Severity := all.find? (·.name = s)

/-- The place of a grade in the order of grades. -/
def rank (s : Severity) : Nat := all.idxOf s

end Severity

/-- What was done about a finding. -/
inductive Action where
  | monitored
  | penalized
  | blocked
  | investigated
  deriving DecidableEq, Repr

namespace Action

/-- All measures. -/
def all : List Action := [monitored, penalized, blocked, investigated]

/-- The name of a measure. -/
def name : Action → String
  | monitored => "monitored"
  | penalized => "penalized"
  | blocked => "blocked"
  | investigated => "investigated"

/-- The measure with a name. -/
def ofName? (s : String) : Option Action := all.find? (·.name = s)

end Action

/-! ## Events -/

/-- One finding. The subject is a peer, or an address when the finding concerns all peers behind it. -/
structure Event where
  time : Instant
  attack : AttackType
  subject : String
  severity : Severity
  description : String
  action : Action
  deriving DecidableEq, Repr

/-- The line that is shown for an event. Measures stand out in capitals. -/
def Event.text (e : Event) : String :=
  s!"[{e.severity.name}] {e.attack.name} {e.subject}: {e.description} ({e.action.name.toUpper})"

end PeerWarden
