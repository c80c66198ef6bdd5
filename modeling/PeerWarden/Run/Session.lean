import PeerWarden.Cycle.Health
import PeerWarden.Cycle.Security
import PeerWarden.Run.Request
import PeerWarden.Telemetry.Meters

/-!
# Sessions

A warden is a configuration together with its collaborators: a sampler of host figures and perhaps a
classifier. A session is what changes while it runs: the state, what the collaborators were asked so far, the
meters, and the peers that the connection layer was told to drop.

A run is a left fold over operations. Requests and cycles are executed one at a time.
-/

namespace PeerWarden

/-- A configuration and the collaborators. -/
structure Warden where
  config : Config
  sampler : Sampler
  classifier : Option Classifier := none

/-- A peer that the connection layer was told to drop. -/
structure Disconnect where
  id : String
  reason : String
  deriving DecidableEq, Repr

/-- What changes while a warden runs. -/
structure Session where
  state : State
  /-- The questions that the classifier was asked, the latest first. -/
  asked : List Features := []
  /-- How often the sampler was asked. -/
  samples : Nat := 0
  meters : Meters := {}
  /-- In the order in which they were issued. -/
  disconnects : List Disconnect := []

/-- An operation of a run. -/
inductive Operation where
  | request (r : Request)
  | securityCycle (now : Instant)
  | healthCycle (now : Instant)

namespace Warden

/-- The warden that reports the configured host figures and consults no classifier. -/
def standalone (cfg : Config) : Warden := { config := cfg, sampler := .fixed cfg.sampler }

/-- The session in which a warden starts. -/
def start (w : Warden) : Session := { state := .initial w.config }

/-- Sets a session up, if there is room for the history. -/
def setUp (w : Warden) : Except Fault Session :=
  if History.hasRoom w.config.congestion.historyCapacity then .ok w.start else .error .historyTooLarge

/-- The status of a session. -/
def status (w : Warden) (s : Session) (now : Instant) : Status := s.state.status w.config now

/-! ## Cycles -/

/-- Notes a completed cycle in the meters. -/
def observe (w : Warden) (s : Session) (now : Instant) (count : Meters → Meters) : Session :=
  { s with meters := (count s.meters).observeStatus (w.status s now) }

/-- Runs a security cycle. Only one that completes shows in the meters. -/
def securityCycle (w : Warden) (s : Session) (now : Instant) : Session × Except Fault ThreatReport :=
  let outcome := s.state.securityCycle w.config w.classifier s.asked now
  let s := { s with state := outcome.state, asked := outcome.asked }
  match outcome.report with
  | .ok report => (w.observe s now (·.observeEvents report.events), .ok report)
  | .error fault => (s, .error fault)

/-- Asks the sampler. -/
def sample (w : Warden) (s : Session) : Session × Except Fault HostUsage :=
  ({ s with samples := s.samples + 1 },
   match w.sampler s.samples with
   | .usage u => u.check
   | .crash message => .error (.cycleCrashed "health" message))

/-- The reason given for dropping an evicted peer. -/
def evictionReason : String := "pruned from connection pool"

/-- Runs a health cycle. Without figures of the host it changes nothing. -/
def healthCycle (w : Warden) (s : Session) (now : Instant) : Session × Except Fault HealthReport :=
  let sampled := w.sample s
  match sampled.2 with
  | .error fault => (sampled.1, .error fault)
  | .ok usage =>
    let cycle := s.state.healthCycle w.config usage now
    let evicted := cycle.2.pool.evicted
    -- The connection layer hears of each evicted peer, in the order of the ranking.
    let s :=
      { sampled.1 with
        state := cycle.1
        disconnects := s.disconnects ++ evicted.map fun id => { id, reason := evictionReason } }
    (w.observe s now (·.observeEvictions evicted.length), .ok cycle.2)

/-! ## Runs -/

/-- Executes one operation. -/
def step (w : Warden) (s : Session) : Operation → Session
  | .request r => { s with state := (s.state.serve r).1 }
  | .securityCycle now => (w.securityCycle s now).1
  | .healthCycle now => (w.healthCycle s now).1

/-- Executes some operations in turn. -/
def run (w : Warden) (s : Session) (ops : List Operation) : Session := ops.foldl w.step s

@[simp] theorem run_nil (w : Warden) (s : Session) : w.run s [] = s := rfl

@[simp] theorem run_cons (w : Warden) (s : Session) (op : Operation) (ops : List Operation) :
    w.run s (op :: ops) = w.run (w.step s op) ops := rfl

theorem run_append (w : Warden) (s : Session) (earlier later : List Operation) :
    w.run s (earlier ++ later) = w.run (w.run s earlier) later :=
  List.foldl_append

/-- What every operation of a run preserves holds after the run if it held before. -/
theorem run_preserves {w : Warden} (P : Session → Prop) {ops : List Operation}
    (hstep : ∀ s, P s → ∀ op ∈ ops, P (w.step s op)) {s : Session} (h : P s) : P (w.run s ops) :=
  List.foldlRecOn ops w.step h hstep

end Warden

end PeerWarden
