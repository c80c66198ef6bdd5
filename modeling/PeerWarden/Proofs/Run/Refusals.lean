import PeerWarden.Proofs.Directory.Entries
import PeerWarden.Proofs.Health.HostFigures
import PeerWarden.Proofs.Number.UnitInterval
import PeerWarden.Proofs.Run.RequestScope

/-!
# Refusals

A measurement may make no sense, an attempt may come from a banned address, a demand may find nothing to do, a report
may be about a peer that nobody knows, and a health cycle may be left without figures of the host. What is refused for
one of these reasons changes nothing: every check comes before the first thing that is written.

## Main definitions

- `Number.isUnmeasurable`, `Request.fault?`: the samples that are refused, and the fault that is answered to them
- `State.findsNothing`: the demands with nothing to do
- `State.Refuses`: a request is refused, for one of the four reasons for which requests are
- `Reading.fault?`: what is wrong with the answer of a sampler
- `Warden.UnmovedByRefusals`: when something is refused, and what becomes of the session

## Main statements

- `checkSample_eq`: a sample is refused if it is not a number, or infinite, or negative
- `State.serve_of_refused`: a request that is refused leaves the state as it was
- `refusals_change_nothing`: refused requests and failed health cycles
-/

open Float.Model (UnpackedFloat)

namespace PeerWarden

/-! ## Samples -/

namespace Number

/-- Whether a double cannot be a measurement: it is not a number, or infinite, or negative. -/
def isUnmeasurable (x : Float) : Bool := x.isNaN || x.isInf || decide (x < 0)

theorem isFinite_eq (x : Float) : x.isFinite = !(x.isNaN || x.isInf) := by
  show x.toModel.unpack.isFinite = !(x.toModel.unpack.isNaN || x.toModel.unpack.isInf)
  cases x.toModel.unpack <;> rfl

theorem isUnmeasurable_eq (x : Float) : isUnmeasurable x = !(x.isFinite && decide (0 ≤ x)) := by
  unfold isUnmeasurable
  cases hfin : x.isFinite with
  | false =>
    rw [isFinite_eq, Bool.not_eq_false'] at hfin
    rw [hfin]
    rfl
  | true =>
    -- The sign decides, since neither side of the comparison is NaN.
    have hnum := isNaN_eq_false_of_isFinite hfin
    have hsign : x < 0 ↔ ¬0 ≤ x := by
      rw [lt_iff_value_lt hnum rfl, le_iff_value_le rfl hnum, not_le]
    rw [isFinite_eq, Bool.not_eq_true'] at hfin
    rw [hfin, decide_eq_decide.mpr hsign, decide_not]
    rfl

end Number

/-- A sample is refused if it is not a number, or infinite, or negative. -/
theorem checkSample_eq (peer field : String) (value : Float) : checkSample peer field value =
    if Number.isUnmeasurable value then .error (.sampleRejected field value peer) else .ok () := by
  rw [checkSample, Number.isUnmeasurable_eq]
  cases value.isFinite && decide (0 ≤ value) <;> rfl

namespace Request

/-- The samples that a request brings, under their names and in the order in which they are checked. -/
def samples : Request → List (String × Float)
  | .latency _ ms => [("latency_ms", ms)]
  | .throughput _ mbps => [("throughput_mbps", mbps)]
  | .link _ ms mbps => [("latency_ms", ms), ("throughput_mbps", mbps)]
  | _ => []

/-- What is wrong with the samples of a request: the first one that cannot be a measurement. -/
def fault? (r : Request) : Option Fault :=
  r.peer?.bind fun id => (r.samples.find? fun sample => Number.isUnmeasurable sample.2).map fun sample =>
    .sampleRejected sample.1 sample.2 id

/-- The peer that a request reports about. Such a report makes nobody known. -/
def reportedPeer? : Request → Option String
  | .success id _ | .failure id _ | .latency id _ | .throughput id _ | .link id _ _ => some id
  | _ => none

end Request

/-- Reports about a peer that is not known are ignored. -/
theorem Registry.adjust_of_unknown {r : Registry} {id : String} (h : r.contains id = false) (f : Peer → Peer) :
    r.adjust id f = r := by
  rw [adjust, Directory.adjust_of_absent h]

namespace State

variable {s : State} {r : Request}

/-! ## Replies -/

/-- Whether a demand finds nothing to do. -/
def findsNothing (s : State) : Request → Bool
  | .register id _ _ => s.registry.contains id
  | .blockPeer id _ _ _ => !s.registry.contains id
  | .liftBan address => !s.bans.contains address
  | _ => false

theorem reply_measured {reply : Reply} (result : Except Fault Registry) (hdone : reply ≠ .done)
    (hrefused : ∀ fault, reply ≠ .refused fault) : (s.measured result).2 ≠ reply := by
  cases result with
  | ok registry => exact hdone.symm
  | error fault => exact (hrefused fault).symm

/-- The answer that nothing changed means that there was nothing to do. -/
theorem reply_eq_effect_false_iff : (s.serve r).2 = .effect false ↔ s.findsNothing r = true := by
  cases r with
  | latency | throughput | link =>
    exact iff_of_false (reply_measured _ nofun nofun) Bool.false_ne_true
  | _ => simp [serve, judged, findsNothing]

/-- An attempt is rejected if it comes from a banned address, with or without a peer. -/
theorem reply_eq_rejected_iff : (s.serve r).2 = .admission .rejected ↔
    ∃ source now, r.attempt? = some (source, now) ∧ s.isBanned source now = true := by
  constructor
  · intro h
    cases hattempt : r.attempt? with
    | none =>
      cases r with
      | attempt | peerAttempt => cases hattempt
      | latency | throughput | link => exact absurd h (reply_measured _ nofun nofun)
      | _ => cases h
    | some attempt =>
      obtain ⟨source, now⟩ := attempt
      refine ⟨source, now, rfl, ?_⟩
      -- From an address that is not banned it would have been accepted.
      by_contra hfree
      rw [serve_of_free hattempt (Bool.not_eq_true _ ▸ hfree)] at h
      cases h
  · rintro ⟨source, now, hattempt, hbanned⟩
    rw [serve_of_banned hattempt hbanned]

/-- A sample that is refused keeps the rest from being looked at. -/
theorem measured_check (peer field : String) (value : Float) (rest : Except Fault Registry) :
    s.measured (do checkSample peer field value; rest) =
      if Number.isUnmeasurable value then (s, .refused (.sampleRejected field value peer)) else s.measured rest := by
  rw [checkSample_eq]
  split <;> rfl

/-- What is measured is refused for its samples alone, whoever it is about. -/
theorem reply_eq_refused_iff {fault : Fault} : (s.serve r).2 = .refused fault ↔ r.fault? = some fault := by
  have hok (registry : Registry) : (s.measured (.ok registry)).2 ≠ .refused fault := nofun
  cases r with
  | latency id ms =>
    rw [serve, Registry.recordLatency, measured_check]
    cases hms : Number.isUnmeasurable ms <;>
      simp [Request.fault?, Request.samples, Request.peer?, hms, hok, pure, Except.pure]
  | throughput id mbps =>
    rw [serve, Registry.recordThroughput, measured_check]
    cases hmbps : Number.isUnmeasurable mbps <;>
      simp [Request.fault?, Request.samples, Request.peer?, hmbps, hok, pure, Except.pure]
  | link id ms mbps =>
    rw [serve, Registry.recordLink, measured_check, measured_check]
    -- The first sample that cannot be a measurement is the one that is named.
    cases hms : Number.isUnmeasurable ms <;> cases hmbps : Number.isUnmeasurable mbps <;>
      simp [Request.fault?, Request.samples, Request.peer?, hms, hmbps, hok, pure, Except.pure]
  | _ => simp [serve, judged, Request.fault?, Request.samples]

/-- Of two samples the second may be the only one that is refused. -/
example : (Request.link "p" 10.0 (-1.0)).fault?.any (fun
    | .sampleRejected field _ _ => field = "throughput_mbps"
    | _ => false) = true := by
  decide +kernel

/-! ## Refused requests -/

/-- A request is refused, for one of the reasons for which requests are. -/
inductive Refuses (s : State) : Request → Prop where
  /-- There is something wrong with a sample. -/
  | sample {r : Request} {fault : Fault} : (s.serve r).2 = .refused fault → s.Refuses r
  /-- An attempt comes from a banned address. -/
  | attempt {r : Request} : (s.serve r).2 = .admission .rejected → s.Refuses r
  /-- There is nothing to do. -/
  | idle {r : Request} : (s.serve r).2 = .effect false → s.Refuses r
  /-- The report is about a peer that is not known. -/
  | stranger {r : Request} {id : String} : r.reportedPeer? = some id → s.registry.contains id = false → s.Refuses r

theorem measured_of_refused {result : Except Fault Registry} {fault : Fault}
    (h : (s.measured result).2 = .refused fault) : (s.measured result).1 = s := by
  cases result with
  | ok registry => cases h
  | error fault => rfl

theorem serve_of_findsNothing (h : s.findsNothing r = true) : (s.serve r).1 = s := by
  cases r with
  | register id address now =>
    have hknown : s.registry.register id address now = s.registry := if_pos h
    simp only [serve, hknown]
  | blockPeer id reason duration now =>
    have hunknown : s.registry.contains id = false := by simpa [findsNothing] using h
    simp only [serve, Registry.block, Registry.adjust_of_unknown hunknown]
  | liftBan address =>
    have habsent : s.bans.contains address = false := by simpa [findsNothing] using h
    simp only [serve, liftBan, Directory.erase_of_absent habsent]
  | _ => cases h

theorem serve_of_stranger {id : String} (h : r.reportedPeer? = some id) (hid : s.registry.contains id = false) :
    (s.serve r).1 = s := by
  cases r <;> cases h
  case success now => simp only [serve, Registry.recordSuccess, Registry.adjust_of_unknown hid]
  case failure now => simp only [serve, Registry.recordFailure, Registry.adjust_of_unknown hid]
  case latency ms =>
    -- Refused or not, a measurement of nobody is not noted.
    rw [serve, Registry.recordLatency, measured_check, Registry.adjust_of_unknown hid]
    split <;> rfl
  case throughput mbps =>
    rw [serve, Registry.recordThroughput, measured_check, Registry.adjust_of_unknown hid]
    split <;> rfl
  case link ms mbps =>
    rw [serve, Registry.recordLink, measured_check, measured_check, Registry.adjust_of_unknown hid]
    split_ifs <;> rfl

/-- A request that is refused leaves the state as it was. -/
theorem serve_of_refused (h : s.Refuses r) : (s.serve r).1 = s := by
  -- Each reason says by itself where the request stops.
  cases h with
  | sample hreply =>
    cases r with
    | latency | throughput | link => exact measured_of_refused hreply
    | _ => cases hreply
  | attempt hreply =>
    obtain ⟨source, now, hattempt, hbanned⟩ := reply_eq_rejected_iff.mp hreply
    rw [serve_of_banned hattempt hbanned]
  | idle hreply =>
    apply serve_of_findsNothing
    exact reply_eq_effect_false_iff.mp hreply
  | stranger hreport hid => exact serve_of_stranger hreport hid

end State

/-! ## Failed health cycles -/

/-- What is wrong with the answer of a sampler: it broke off, or gave a figure that is not finite. -/
def Reading.fault? : Reading → Option Fault
  | .usage u => u.malformed?.map fun figure => .readingMalformed figure.1 figure.2
  | .crash message => some (.cycleCrashed "health" message)

namespace Warden

variable (w : Warden) (s : Session)

theorem sample_eq_error_iff {fault : Fault} :
    (w.sample s).2 = .error fault ↔ (w.sampler s.samples).fault? = some fault := by
  rw [sample]
  cases w.sampler s.samples with
  | crash message => simp [Reading.fault?]
  | usage u =>
    cases hfigure : u.malformed? with
    | none => simp [Reading.fault?, HostUsage.check_of_finite hfigure, hfigure]
    | some figure => simp [Reading.fault?, HostUsage.check_of_malformed hfigure, hfigure]

/-- A health cycle fails without figures of the host, and for no other reason. -/
theorem healthCycle_eq_error_iff {now : Instant} {fault : Fault} :
    (w.healthCycle s now).2 = .error fault ↔ (w.sample s).2 = .error fault := by
  cases hsample : (w.sample s).2 with
  | ok usage => simp [healthCycle_of_ok hsample]
  | error found => simp [healthCycle_of_error hsample]

/-- When a warden refuses something in a session, and what becomes of the session. -/
structure UnmovedByRefusals : Prop where
  /-- A request that is refused leaves everything as it was. -/
  requests : ∀ r, s.state.Refuses r → w.step s (.request r) = s
  /-- A health cycle that fails has asked the sampler, and done nothing else. -/
  cycles : ∀ now fault, (w.healthCycle s now).2 = .error fault →
    w.step s (.healthCycle now) = { s with samples := s.samples + 1 }
  /-- Measurements are refused for the first sample that is not a number, or infinite, or negative. -/
  samples : ∀ r fault, (s.state.serve r).2 = .refused fault ↔ r.fault? = some fault
  /-- Attempts are rejected from banned addresses. -/
  attempts : ∀ r, (s.state.serve r).2 = .admission .rejected ↔
    ∃ source now, r.attempt? = some (source, now) ∧ s.state.isBanned source now = true
  /-- The answer that nothing changed is given where there was nothing to do. -/
  demands : ∀ r, (s.state.serve r).2 = .effect false ↔ s.state.findsNothing r = true
  /-- Health cycles fail for what is wrong with the answer of the sampler. -/
  figures : ∀ now fault, (w.healthCycle s now).2 = .error fault ↔ (w.sampler s.samples).fault? = some fault

/-- **Refusals change nothing**, in whatever state a request is refused or a health cycle fails. -/
theorem refusals_change_nothing : w.UnmovedByRefusals s := by
  constructor
  case requests =>
    intro r hrefuses
    show { s with state := (s.state.serve r).1 } = s
    rw [State.serve_of_refused hrefuses]
  case cycles =>
    intro now fault hfault
    have hsample := (w.healthCycle_eq_error_iff s).mp hfault
    exact congrArg Prod.fst (healthCycle_of_error hsample now)
  case samples => exact fun r fault => State.reply_eq_refused_iff
  case attempts => exact fun r => State.reply_eq_rejected_iff
  case demands => exact fun r => State.reply_eq_effect_false_iff
  case figures =>
    intro now fault
    rw [healthCycle_eq_error_iff, sample_eq_error_iff]

end Warden

end PeerWarden
