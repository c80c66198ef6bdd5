import PeerWarden.Clock

/-!
# Health History

A snapshot of the network is taken in every health cycle. The history keeps the latest ones, up to a
capacity that is never below one.
-/

namespace PeerWarden

/-- The state of the network at one instant. -/
structure Snapshot where
  time : Instant
  connectedPeers : Nat
  /-- Summed throughput of the connected peers in Mbps. -/
  bandwidth : Float
  /-- Mean latency of the connected peers in milliseconds. -/
  latency : Float
  blockRate : Float
  connectionsFailed : Nat
  connectionsSucceeded : Nat
  memPct : Float
  diskPct : Float

/-- The latest snapshots, oldest first. -/
structure History where
  capacity : Nat
  snapshots : List Snapshot := []
  length_le : snapshots.length ≤ max capacity 1 := by exact Nat.zero_le _

namespace History

/-- How many snapshots are kept. -/
def size (h : History) : Nat := h.snapshots.length

/-- The newest snapshot. -/
def latest? (h : History) : Option Snapshot := h.snapshots.getLast?

/-- The newest `n` entries of a list. -/
def newest {α : Type} (n : Nat) (xs : List α) : List α := xs.drop (xs.length - n)

theorem length_newest {α : Type} (n : Nat) (xs : List α) : (newest n xs).length = min n xs.length := by
  simp only [newest, List.length_drop]
  omega

/-- Adds a snapshot and lets the oldest ones go that no longer fit. -/
def push (h : History) (s : Snapshot) : History where
  capacity := h.capacity
  snapshots := newest (max h.capacity 1) (h.snapshots ++ [s])
  length_le := by rw [length_newest]; omega

/-- A history that is not full grows by one. -/
theorem size_push (h : History) (s : Snapshot) : (h.push s).size = min (max h.capacity 1) (h.size + 1) := by
  simp [size, push, length_newest]

/-- The snapshot that was pushed is the newest one. -/
@[simp] theorem latest?_push (h : History) (s : Snapshot) : (h.push s).latest? = some s := by
  simp only [latest?, push, newest, List.getLast?_drop, List.length_append, List.length_singleton]
  rw [if_neg (by omega), List.getLast?_concat]

/-- The newest `n` snapshots, oldest first, if there are as many and at least one is asked for. -/
def lastN? (h : History) (n : Nat) : Option (List Snapshot) :=
  if n = 0 ∨ h.size < n then none else some (newest n h.snapshots)

/-! ## Room

The room for all snapshots is set aside at the start, so a capacity can be too large before a single snapshot
is taken. -/

/-- What a snapshot takes, in bytes: ten words of eight. -/
def snapshotBytes : Nat := 80

/-- The most that can be set aside at once, in bytes: sizes are signed 64-bit numbers. -/
def maxBytes : Nat := 9223372036854775807

/-- What a full history takes, in bytes. -/
def bytes (capacity : Nat) : Nat := max capacity 1 * snapshotBytes

/-- Whether the room for a history can be set aside. -/
def hasRoom (capacity : Nat) : Bool := bytes capacity ≤ maxBytes

end History

end PeerWarden
