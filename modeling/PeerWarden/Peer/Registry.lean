import PeerWarden.Fault
import PeerWarden.Peer.Record

/-!
# The Peer Registry

All known peers under their identities, and how many connections succeeded and failed. Reports about a peer
that is not known are ignored; measurements that make no sense are refused before the peer is looked up.

## Main statements

- `get?_adjust`, `get?_map`, `get?_register`: each change through the record of one peer
- `ext_get?`: a registry is determined by the records of the peers and its counts
-/

namespace PeerWarden

/-- The known peers and the outcomes of connections. -/
structure Registry where
  peers : Directory String Peer := ∅
  connectionsSucceeded : Nat := 0
  connectionsFailed : Nat := 0

/-- Lets only finite measurements pass that are not negative. -/
def checkSample (peer field : String) (value : Float) : Except Fault Unit :=
  if value.isFinite && decide (0 ≤ value) then .ok () else .error (.sampleRejected field value peer)

namespace Registry

/-! ## Views -/

/-- The record of a peer. -/
def get? (r : Registry) (id : String) : Option Peer := r.peers.get? id

/-- Whether a peer is known. -/
def contains (r : Registry) (id : String) : Bool := r.peers.contains id

/-- The connected peers, in the order of their identities. -/
def active (r : Registry) : List (String × Peer) := r.peers.entries.filter fun e => e.2.active

/-- Whether a peer is known and connected. -/
def isActive (r : Registry) (id : String) : Bool := (r.get? id).any (·.active)

/-- How many peers are connected. -/
def activeCount (r : Registry) : Nat := r.active.length

/-- How many peers are blocked. -/
def blockedCount (r : Registry) : Nat := (r.peers.values.filter (·.isBlocked)).length

/-- Whether a peer is known, not blocked, and trusted enough. -/
def isTrusted (r : Registry) (id : String) (bar : Float) : Bool := (r.get? id).any (·.passes bar)

/-- The mean latency of the connected peers that were measured. -/
def averageLatency (r : Registry) : Float := Number.mean (r.active.filterMap (·.2.latency))

/-- The mean throughput of the connected peers that were measured. -/
def averageThroughput (r : Registry) : Float := Number.mean (r.active.filterMap (·.2.throughput))

/-- The summed throughput of the connected peers that were measured. -/
def totalBandwidth (r : Registry) : Float := Number.total (r.active.filterMap (·.2.throughput))

/-! ## Changes of one peer -/

/-- Changes the record of a peer, if it is known. -/
def adjust (r : Registry) (id : String) (f : Peer → Peer) : Registry := { r with peers := r.peers.adjust id f }

/-- Changes every record. -/
def map (r : Registry) (f : String → Peer → Peer) : Registry := { r with peers := r.peers.map f }

/-- Registers a peer. A known one is left as it is. -/
def register (r : Registry) (id address : String) (now : Instant) : Registry :=
  if r.contains id then r else { r with peers := r.peers.insert id (.new address now) }

/-- Counts a valid block of a peer. -/
def recordSuccess (r : Registry) (id : String) (now : Instant) : Registry := r.adjust id (·.creditBlock now)

/-- Counts an invalid block of a peer. -/
def recordFailure (r : Registry) (id : String) (now : Instant) : Registry := r.adjust id (·.debitBlock now)

/-- Notes the latency of a peer. -/
def recordLatency (r : Registry) (id : String) (ms : Float) : Except Fault Registry := do
  checkSample id "latency_ms" ms
  return r.adjust id (·.withLatency ms)

/-- Notes the throughput of a peer. -/
def recordThroughput (r : Registry) (id : String) (mbps : Float) : Except Fault Registry := do
  checkSample id "throughput_mbps" mbps
  return r.adjust id (·.withThroughput mbps)

/-- Notes both measurements of a peer, or neither. -/
def recordLink (r : Registry) (id : String) (ms mbps : Float) : Except Fault Registry := do
  -- Both are checked before either is noted.
  checkSample id "latency_ms" ms
  checkSample id "throughput_mbps" mbps
  return r.adjust id fun p => (p.withLatency ms).withThroughput mbps

/-- Counts the outcome of a connection. -/
def recordOutcome (r : Registry) (succeeded : Bool) : Registry :=
  if succeeded then { r with connectionsSucceeded := r.connectionsSucceeded + 1 }
  else { r with connectionsFailed := r.connectionsFailed + 1 }

/-- Blocks a peer. -/
def block (r : Registry) (id reason : String) (expires : Deadline) : Registry :=
  r.adjust id (·.block reason expires)

/-- Takes a peer out of the connected set; its record stays. -/
def evict (r : Registry) (id : String) : Registry := r.adjust id ({ · with active := false })

/-- Puts a known peer back into the connected set. -/
def reactivate (r : Registry) (id : String) : Registry := r.adjust id ({ · with active := true })

/-- The known peers behind an address. -/
def behind (r : Registry) (address : String) : List (String × Peer) :=
  r.peers.entries.filter fun e => e.2.address = address

/-! ## Laws -/

@[simp] theorem get?_adjust (r : Registry) (id other : String) (f : Peer → Peer) :
    (r.adjust id f).get? other = if other = id then (r.get? other).map f else r.get? other :=
  Directory.get?_adjust r.peers id other f

@[simp] theorem get?_map (r : Registry) (f : String → Peer → Peer) (id : String) :
    (r.map f).get? id = (r.get? id).map (f id) :=
  Directory.get?_map r.peers f id

/-- A registry is determined by the records of the peers and the counts of connections. -/
theorem ext_get? {r r' : Registry} (hpeers : ∀ id, r.get? id = r'.get? id)
    (hsucceeded : r.connectionsSucceeded = r'.connectionsSucceeded)
    (hfailed : r.connectionsFailed = r'.connectionsFailed) : r = r' := by
  have hdirectory : r.peers = r'.peers := Directory.ext_get? hpeers
  cases r
  simp_all

/-- Registering makes a peer known, and changes nothing for the known ones. -/
theorem get?_register (r : Registry) (id address other : String) (now : Instant) :
    (r.register id address now).get? other =
      if other = id then some ((r.get? id).getD (.new address now)) else r.get? other := by
  unfold register contains Directory.contains
  cases h : r.peers.get? id with
  | none =>
    by_cases ho : other = id
    · simp [get?, ho, h]
    · simp [get?, ho]
  | some p =>
    by_cases ho : other = id
    · simp [get?, ho, h]
    · simp [ho]

end Registry

end PeerWarden
