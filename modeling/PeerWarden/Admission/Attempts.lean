import PeerWarden.Clock
import PeerWarden.Directory

/-!
# Connection Attempts

The attempts of each address in the order in which they arrived, the latest first. Pruning starts at the
oldest arrival of each queue, cuts the attempts outside the sliding window, and stops at the first one inside.

## Main statements

- `of_record`, `of_prune`, `of_erase`: each operation through the queue of one address
-/

namespace PeerWarden

/-- The logged attempts of each address, the latest first. No queue is empty. -/
abbrev AttemptLog := Directory String (List Instant)

namespace AttemptLog

/-- The attempts of one address. -/
def of (log : AttemptLog) (address : String) : List Instant := (log.get? address).getD []

/-- How many attempts of an address are logged. -/
def count (log : AttemptLog) (address : String) : Nat := (log.of address).length

/-- Logs an attempt. -/
def record (log : AttemptLog) (address : String) (time : Instant) : AttemptLog :=
  log.insert address (time :: log.of address)

/-- What is left of a queue once the attempts that are a window old, or older, are cut from its old end. -/
def trailing (now : Instant) (window : Span) (queue : List Instant) : List Instant :=
  (queue.reverse.dropWhile fun t => decide (window ≤ elapsed t now)).reverse

/-- Cuts every queue, and forgets the addresses with nothing left. -/
def prune (log : AttemptLog) (now : Instant) (window : Span) : AttemptLog :=
  (log.map fun _ queue => trailing now window queue).filter fun _ queue => !queue.isEmpty

/-- The number of logged attempts per address. -/
def counts (log : AttemptLog) : Directory String Nat := log.map fun _ queue => queue.length

/-! ## Laws -/

/-- Logging an attempt adds it in front of one queue and leaves the others. -/
@[simp] theorem of_record (log : AttemptLog) (address other : String) (time : Instant) :
    (log.record address time).of other =
      if other = address then time :: log.of address else log.of other := by
  by_cases h : other = address <;> simp [of, record, h]

/-- Pruning cuts each queue on its own. -/
@[simp] theorem of_prune (log : AttemptLog) (now : Instant) (window : Span) (address : String) :
    (log.prune now window).of address = trailing now window (log.of address) := by
  unfold of prune
  cases h : log.get? address with
  | none => simp [h, trailing]
  | some queue =>
    cases ht : trailing now window queue <;> simp [h, ht, Option.filter]

/-- Forgetting an address empties its queue and leaves the others. -/
@[simp] theorem of_erase (log : AttemptLog) (address other : String) :
    AttemptLog.of (log.erase address) other = if other = address then [] else log.of other := by
  unfold of
  by_cases h : other = address <;> simp [h]

end AttemptLog

end PeerWarden
