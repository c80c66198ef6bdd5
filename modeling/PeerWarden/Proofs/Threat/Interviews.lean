import PeerWarden.Proofs.Peer.EarnedTrust
import PeerWarden.Proofs.Threat.Findings

/-!
# Interviews

The classifier stage asks a model about one peer after the other. The model may remember what it was asked, so each
answer may depend on all the questions before it; but no question depends on an answer. Whom the stage asks about, in
which order and with what, is settled when it begins, and an answer concerns the peer that it is about and nobody else.
What is needed for that is a model that does not break off: it may refuse every answer.

## Main definitions

- `Classifier.NeverCrashes`: a model that gives some answer to every question
- `Classifier.Call`: a question about a peer and the answer to it
- `Classifier.calls`: the calls about some peers, in their order
- `Classifier.ConsultsFairly`: what the stage makes of a registry, told by its calls

## Main statements

- `interview_eq_calls`: an interview is its calls
- `lookup_accused_iff`: whom the calls accuse
- `consultsFairly_consult`: the stage on any registry
- `consults_fairly`: the stage by itself, and in a security cycle
-/

namespace PeerWarden

open Number

namespace Classifier

/-- A model that may refuse an answer, but never breaks off. -/
def NeverCrashes (model : Classifier) : Prop := ∀ earlier f message, model earlier f ≠ .crash message

/-- A call of a model: whom it is about, with the record at that time, what was asked, and what was answered. -/
structure Call where
  id : String
  peer : Peer
  question : Features
  answer : Answer

/-- Whether a call warns of a peer with some probability: the answer is a finite score that reaches a threshold once
    it is clamped. -/
def Call.Warns (threshold : Float) (c : Call) (probability : Float) : Prop :=
  ∃ score, c.answer = .score score ∧ score.isFinite = true ∧ probability = clampUnit score ∧
    ¬probability < threshold

/-- The calls about some peers, one after the other. -/
def calls (model : Classifier) (cfg : Config.DosProtection) (rates : Directory String Nat) (asked : List Features) :
    List (String × Peer) → List Call
  | [] => []
  | (id, p) :: rest =>
    let question := features cfg rates p
    { id, peer := p, question, answer := model asked question } ::
      calls model cfg rates (question :: asked) rest

/-- A script without a crash in it never breaks off. -/
theorem neverCrashes_scripted {answers : List Answer} (h : ∀ message, .crash message ∉ answers) :
    (scripted answers).NeverCrashes := by
  intro earlier f message hcrash
  unfold scripted at hcrash
  cases hanswer : answers[min earlier.length (answers.length - 1)]? with
  | none =>
    rw [hanswer] at hcrash
    cases hcrash
  | some answer =>
    rw [hanswer, Option.getD_some] at hcrash
    exact h message (hcrash ▸ List.mem_of_getElem? hanswer)

/-! ## An interview as its calls -/

section Calls

variable (model : Classifier) (cfg : Config.DosProtection) (rates : Directory String Nat) (asked : List Features)
  (entries : List (String × Peer))

theorem map_calls : (calls model cfg rates asked entries).map (fun c => (c.id, c.peer)) = entries := by
  induction entries generalizing asked with
  | nil => rfl
  | cons e rest ih => simp [calls, ih]

/-- What is asked does not depend on the model. -/
theorem questions_calls :
    (calls model cfg rates asked entries).map Call.question = entries.map fun e => features cfg rates e.2 := by
  induction entries generalizing asked with
  | nil => rfl
  | cons e rest ih => simp [calls, ih]

variable {model cfg rates asked entries}

theorem question_of_mem_calls {c : Call} (h : c ∈ calls model cfg rates asked entries) :
    c.question = features cfg rates c.peer := by
  induction entries generalizing asked with
  | nil => cases h
  | cons e rest ih =>
    rcases List.mem_cons.mp h with rfl | hlater
    · rfl
    · exact ih hlater

/-- The model has heard the questions before a call, the latest first, when it answers. -/
theorem answer_of_calls_eq {before after : List Call} {c : Call}
    (h : calls model cfg rates asked entries = before ++ c :: after) :
    c.answer = model ((before.map Call.question).reverse ++ asked) c.question := by
  -- Every call that is passed adds to what was asked before, so the induction is over all of it.
  induction entries generalizing asked before with
  | nil => simp [calls] at h
  | cons e rest ih =>
    cases before with
    | nil =>
      obtain ⟨rfl, -⟩ := List.cons.inj h
      rfl
    | cons first before =>
      obtain ⟨rfl, hrest⟩ := List.cons.inj h
      rw [ih hrest]
      simp

/-- A model that does not break off is asked to the end. -/
theorem interview_eq_calls (hmodel : model.NeverCrashes) :
    interview model asked (entries.map fun e => (e.1, features cfg rates e.2)) =
      { answers := (calls model cfg rates asked entries).map fun c => (c.id, c.answer)
        asked := (entries.map fun e => features cfg rates e.2).reverse ++ asked } := by
  induction entries generalizing asked with
  | nil => rfl
  | cons e rest ih =>
    obtain ⟨id, p⟩ := e
    rw [List.map_cons, interview]
    split
    next message hanswer => exact absurd hanswer (hmodel _ _ _)
    -- A score and a refusal are noted alike, and the rest of the interview goes on after either.
    next => simp [ih, calls]

end Calls

/-! ## Warnings -/

/-- The calls that warn of a peer, with the probabilities. -/
def warnings (threshold : Float) (calls : List Call) : List (Call × Float) :=
  calls.filterMap fun c => (flagged? threshold c.answer).map (c, ·)

theorem mem_warnings {threshold probability : Float} {calls : List Call} {c : Call} :
    (c, probability) ∈ warnings threshold calls ↔ c ∈ calls ∧ c.Warns threshold probability := by
  simp only [warnings, List.mem_filterMap, Option.map_eq_some_iff, Prod.mk.injEq, flagged?_eq_some_iff]
  constructor
  · rintro ⟨c', hmem, probability', hwarns, rfl, rfl⟩
    exact ⟨hmem, hwarns⟩
  · rintro ⟨hmem, hwarns⟩
    exact ⟨c, hmem, probability, hwarns, rfl, rfl⟩

/-- No call warns twice, and the warnings come in the order of the calls. -/
theorem map_fst_warnings_sublist (threshold : Float) (calls : List Call) :
    ((warnings threshold calls).map Prod.fst).Sublist calls := by
  simpa [warnings] using Directory.map_fst_filterMap_sublist id (fun c => flagged? threshold c.answer) calls

/-! ## The peers of a registry -/

section Registry

variable {model : Classifier} (hmodel : model.NeverCrashes) {asked : List Features} {cfg : Config} {now : Instant}
  {rates : Directory String Nat} {r : Registry} {id : String} {p : Peer}

variable (model asked cfg rates r) in
/-- The calls about the peers that are not blocked. -/
def callsAbout : List Call :=
  calls model cfg.dosProtection rates asked (r.peers.entries.filter fun e => !e.2.isBlocked)

theorem exists_call_iff : (∃ c ∈ callsAbout model asked cfg rates r, c.id = id ∧ c.peer = p) ↔
    r.get? id = some p ∧ p.isBlocked = false := by
  have hmem : (id, p) ∈ (callsAbout model asked cfg rates r).map (fun c => (c.id, c.peer)) ↔
      r.get? id = some p ∧ p.isBlocked = false := by
    rw [callsAbout, map_calls, List.mem_filter, Directory.mem_entries_iff, Bool.not_eq_true']
    rfl
  rw [← hmem, List.mem_map]
  simp only [Prod.mk.injEq]

theorem pairwise_callsAbout : ((callsAbout model asked cfg rates r).map Call.id).Pairwise (· < ·) := by
  -- The entries are in ascending order, and the calls are about some of them.
  have hentries : (r.peers.entries.filter fun e => !e.2.isBlocked).Pairwise fun a b => a.1 < b.1 :=
    r.peers.ordered.sublist List.filter_sublist
  rw [← map_calls model cfg.dosProtection rates asked (r.peers.entries.filter _), List.pairwise_map] at hentries
  exact List.pairwise_map.mpr hentries

include hmodel

theorem interview_questions :
    interview model asked (questions cfg.dosProtection rates r) =
      { answers := (callsAbout model asked cfg rates r).map fun c => (c.id, c.answer)
        asked := ((callsAbout model asked cfg rates r).map Call.question).reverse ++ asked } := by
  rw [questions, interview_eq_calls hmodel, callsAbout, questions_calls]

theorem accused_eq : accused (some model) asked cfg rates r =
    (warnings cfg.security.classifierThreshold (callsAbout model asked cfg rates r)).map fun w => (w.1.id, w.2) := by
  rw [accused, interview_questions hmodel, flagged, warnings, List.filterMap_map, List.map_filterMap]
  simp [Function.comp_def]

/-- A peer is accused exactly if the call about it warns. -/
theorem lookup_accused_iff {probability : Float} :
    (accused (some model) asked cfg rates r).lookup id = some probability ↔
      ∃ c ∈ callsAbout model asked cfg rates r, c.id = id ∧ c.Warns cfg.security.classifierThreshold probability := by
  rw [lookup_accused_eq_some_iff, accused_eq hmodel, List.mem_map]
  constructor
  · rintro ⟨⟨c, probability'⟩, hwarning, heq⟩
    obtain ⟨rfl, rfl⟩ := Prod.mk.inj heq
    obtain ⟨hcall, hwarns⟩ := mem_warnings.mp hwarning
    exact ⟨c, hcall, rfl, hwarns⟩
  · rintro ⟨c, hcall, rfl, hwarns⟩
    exact ⟨(c, probability), mem_warnings.mpr ⟨hcall, hwarns⟩, rfl⟩

end Registry

/-! ## The stage -/

/-- What the classifier stage makes of a registry, told by the calls of the model. -/
structure ConsultsFairly (model : Classifier) (asked : List Features) (cfg : Config) (now : Instant)
    (rates : Directory String Nat) (r : Registry) (outcome : Outcome) (calls : List Call) : Prop where
  /-- There is a call about each peer that is not blocked, and about no other. -/
  called_iff : ∀ id p, (∃ c ∈ calls, c.id = id ∧ c.peer = p) ↔ r.get? id = some p ∧ p.isBlocked = false
  /-- Nobody is asked about twice, and the identities ascend. -/
  ascending : (calls.map Call.id).Pairwise (· < ·)
  /-- A question tells the attempts from the address of the peer per second of the window, where a window counts as one
      second at least, the blocks that the peer delivered, and its trust when the stage begins. -/
  questions : ∀ c ∈ calls, c.question =
    { messageRate := Float.ofNat ((rates.get? c.peer.address).getD 0) / atLeast 1.0 cfg.dosProtection.window.toFloat
      history := Float.ofNat (c.peer.validBlocks + c.peer.invalidBlocks)
      reputation := c.peer.trust }
  /-- The model answers with all earlier questions in mind. -/
  answered : ∀ before c after, calls = before ++ c :: after →
    c.answer = model ((before.map Call.question).reverse ++ asked) c.question
  /-- The model has been asked nothing else. -/
  asked_eq : outcome.asked = (calls.map Call.question).reverse ++ asked
  completed : outcome.crash = none
  /-- Any other answers would have left the questions as they are. -/
  isolated : ∀ other : Classifier, other.NeverCrashes →
    (consult (some other) asked cfg now rates r).asked = outcome.asked
  /-- A peer about which there is no call, or none that warns, keeps its record: it is blocked, or the answer was
      refused, or is no finite number, or is below the threshold. -/
  spared : ∀ id p, r.get? id = some p →
    (∀ c ∈ calls, c.id = id → ∀ probability, ¬c.Warns cfg.security.classifierThreshold probability) →
      outcome.registry.get? id = some p
  /-- Any other peer loses what trust it has beyond the complement of the probability, and nothing else. -/
  capped : ∀ c ∈ calls, ∀ probability, c.Warns cfg.security.classifierThreshold probability →
    outcome.registry.get? c.id = some { c.peer with trust := lesser c.peer.trust (1.0 - probability) }
  /-- No peer is forgotten, and none becomes known. -/
  known_iff : ∀ id, outcome.registry.contains id = r.contains id
  connections : outcome.registry.connectionsSucceeded = r.connectionsSucceeded ∧
    outcome.registry.connectionsFailed = r.connectionsFailed
  /-- There is one warning for each call that warns, in the order of the calls. -/
  warnings : ∃ warned : List (Call × Float), (warned.map Prod.fst).Sublist calls ∧
    (∀ c probability, (c, probability) ∈ warned ↔
      c ∈ calls ∧ c.Warns cfg.security.classifierThreshold probability) ∧
    outcome.events = warned.map fun w =>
      { time := now
        attack := .unknown
        subject := w.1.id
        severity := .warning
        description := s!"classifier threat probability {fixed 2 w.2}"
        action := .penalized }

section Stage

variable {model : Classifier} (hmodel : model.NeverCrashes) (asked : List Features) (cfg : Config) (now : Instant)
  (rates : Directory String Nat) (r : Registry)

include hmodel

theorem asked_consult : (consult (some model) asked cfg now rates r).asked =
    ((callsAbout model asked cfg rates r).map Call.question).reverse ++ asked :=
  congrArg Interview.asked (interview_questions hmodel)

theorem crash_consult : (consult (some model) asked cfg now rates r).crash = none :=
  congrArg Interview.crash (interview_questions hmodel)

variable {r}

/-- The stage treats all peers of a registry fairly in which all trust is on the scale. -/
theorem consultsFairly_consult (hunit : ∀ id p, r.get? id = some p → InUnit p.trust) :
    ConsultsFairly model asked cfg now rates r (consult (some model) asked cfg now rates r)
      (callsAbout model asked cfg rates r) := by
  constructor
  case called_iff => exact fun id p => exists_call_iff
  case ascending => exact pairwise_callsAbout
  case questions => exact fun c hcall => question_of_mem_calls hcall
  case answered => exact fun before c after hsplit => answer_of_calls_eq hsplit
  case asked_eq => exact asked_consult hmodel asked cfg now rates r
  case completed => exact crash_consult hmodel asked cfg now rates r
  case isolated =>
    -- The questions are those of the entries, whoever answers them.
    intro other hother
    rw [asked_consult hother, asked_consult hmodel, callsAbout, callsAbout, questions_calls, questions_calls]
  case spared =>
    intro id p hp hsilent
    have hnone : (accused (some model) asked cfg rates r).lookup id = none := by
      refine Option.eq_none_iff_forall_ne_some.mpr fun probability haccused => ?_
      obtain ⟨c, hcall, hid, hwarns⟩ := (lookup_accused_iff hmodel).mp haccused
      exact hsilent c hcall hid probability hwarns
    rw [get?_consult, hp, hnone]
    rfl
  case capped =>
    intro c hcall probability hwarns
    obtain ⟨hp, -⟩ := exists_call_iff.mp ⟨c, hcall, rfl, rfl⟩
    have haccused : (accused (some model) asked cfg rates r).lookup c.id = some probability :=
      (lookup_accused_iff hmodel).mpr ⟨c, hcall, rfl, hwarns⟩
    -- Both the trust and the complement are on the scale, so that writing the smaller one changes nothing.
    obtain ⟨score, -, hfinite, rfl, -⟩ := hwarns
    have hprobability : InUnit (clampUnit score) := inUnit_clampUnit (isNaN_eq_false_of_isFinite hfinite)
    rw [get?_consult, hp, haccused, Option.map_some, Option.elim_some, cap_eq (hunit _ _ hp) hprobability]
  case known_iff =>
    intro id
    show ((consult (some model) asked cfg now rates r).registry.get? id).isSome = (r.get? id).isSome
    rw [get?_consult, Option.isSome_map]
  case connections => exact ⟨rfl, rfl⟩
  case warnings =>
    refine ⟨warnings cfg.security.classifierThreshold (callsAbout model asked cfg rates r),
      map_fst_warnings_sublist _ _, fun c probability => mem_warnings, ?_⟩
    rw [consult_events, accused_eq hmodel, findings, List.map_map]
    rfl

end Stage

end Classifier

/-! ## The stage in a cycle -/

namespace State

variable (s : State) (cfg : Config) (model : Option Classifier) (asked : List Features) (now : Instant)

/-- The classifier is told the rates of the addresses that were counted and not banned. -/
theorem get?_rates_floods (address : String) : (s.floods cfg now).rates.get? address =
    if address ∈ (s.floods cfg now).offenders.keys then none
    else (s.attempts.prune now cfg.dosProtection.window).counts.get? address := by
  have hoffenders : (s.floods cfg now).offenders.get? address =
      ((s.attempts.prune now cfg.dosProtection.window).counts.get? address).filter
        fun n => decide (cfg.dosProtection.rateLimit < n) := Directory.get?_filter ..
  have hrates : (s.floods cfg now).rates.get? address =
      ((s.attempts.prune now cfg.dosProtection.window).counts.get? address).filter
        fun n => decide (n ≤ cfg.dosProtection.rateLimit) := Directory.get?_filter ..
  have hbanned : address ∈ (s.floods cfg now).offenders.keys ↔
      ((s.attempts.prune now cfg.dosProtection.window).counts.get? address).any
        (fun n => decide (cfg.dosProtection.rateLimit < n)) = true := by
    rw [Directory.mem_keys_iff, Directory.contains, hoffenders, Option.isSome_filter]
  simp only [hrates, hbanned]
  -- An address that was counted is over the limit or within it.
  cases (s.attempts.prune now cfg.dosProtection.window).counts.get? address with
  | none => rfl
  | some n =>
    by_cases h : cfg.dosProtection.rateLimit < n
    · simp [Option.filter, h]
    · simp [Option.filter, h, Nat.le_of_not_lt h]

/-- Only the classifier reports attacks of an unknown kind. -/
theorem filter_unknown_events : (s.detect cfg model asked now).events.filter (fun e => e.attack = .unknown) =
    (Classifier.consult model asked cfg now (s.floods cfg now).rates (s.screened cfg now)).events := by
  have hfloods : (s.floods cfg now).events.filter (fun e => e.attack = .unknown) = [] := by
    refine List.filter_eq_nil_iff.mpr fun e he => ?_
    simp [Flood.attack_of_mem _ _ _ _ _ he]
  rw [detect_events, Classifier.consult_events]
  -- The kind of a finding is fixed by its detector, so each of the other filters is all or nothing.
  simp only [List.filter_append, hfloods, Sybil.findings, Detector.findings, Classifier.findings, List.filter_map]
  simp [Function.comp_def, Detector.eclipse, Detector.timing]

variable {s cfg now} in
theorem inUnit_screened (hunit : ∀ id p, s.registry.get? id = some p → InUnit p.trust) {id : String} {p : Peer}
    (h : (s.screened cfg now).get? id = some p) : InUnit p.trust := by
  rw [get?_screened] at h
  obtain ⟨p, hp, rfl⟩ := Option.map_eq_some_iff.mp h
  exact (s.notRaised_screenedPeer cfg now (hunit id p hp)).inUnit

end State

namespace Classifier

/-- What the classifier stage does by itself, and what it does in a security cycle. -/
structure ConsultsFairlyThroughout (model : Classifier) (asked : List Features) (cfg : Config) (now : Instant) :
    Prop where
  stage : ∀ (rates : Directory String Nat) (r : Registry), (∀ id p, r.get? id = some p → InUnit p.trust) →
    ∃ calls, ConsultsFairly model asked cfg now rates r (consult (some model) asked cfg now rates r) calls
  /-- A cycle completes, and its stage works on the registry that the detectors leave, with the rates of the addresses
      that the search for floods counted and did not ban. -/
  cycle : ∀ s : State, (∀ id p, s.registry.get? id = some p → InUnit p.trust) →
    ∃ report rates calls, (s.securityCycle cfg (some model) asked now).report = .ok report ∧
      (∀ address, rates.get? address =
        if address ∈ report.blockedAddresses then none
        else (s.attempts.prune now cfg.dosProtection.window).counts.get? address) ∧
      ConsultsFairly model asked cfg now rates (s.screened cfg now)
        { registry := (s.detect cfg (some model) asked now).registry
          events := report.events.filter fun e => e.attack = .unknown
          asked := (s.securityCycle cfg (some model) asked now).asked } calls

/-- **The classifier stage is fair** to all peers, and no answer concerns any peer but the one that it is about. -/
theorem consults_fairly (model : Classifier) (hmodel : model.NeverCrashes) (asked : List Features) (cfg : Config)
    (now : Instant) : ConsultsFairlyThroughout model asked cfg now := by
  constructor
  case stage => exact fun rates r hunit => ⟨_, consultsFairly_consult hmodel asked cfg now rates hunit⟩
  case cycle =>
    intro s hunit
    have hcrash : (s.detect cfg (some model) asked now).crash = none := crash_consult hmodel asked cfg now _ _
    obtain ⟨report, hreport⟩ := s.securityCycle_report_of_complete cfg (some model) asked now hcrash
    obtain ⟨-, hevents, hblocked, -⟩ := s.securityCycle_eq_ok cfg (some model) asked now hreport
    refine ⟨report, (s.floods cfg now).rates, callsAbout model asked cfg (s.floods cfg now).rates (s.screened cfg now),
      hreport, fun address => ?_, ?_⟩
    · rw [hblocked]
      exact s.get?_rates_floods cfg now address
    · have houtcome : ({ registry := (s.detect cfg (some model) asked now).registry
                         events := report.events.filter fun e => e.attack = .unknown
                         asked := (s.securityCycle cfg (some model) asked now).asked } : Outcome) =
          consult (some model) asked cfg now (s.floods cfg now).rates (s.screened cfg now) := by
        have hasked : (s.securityCycle cfg (some model) asked now).asked =
            (s.detect cfg (some model) asked now).asked := by
          simp only [State.securityCycle, hcrash]
        rw [hevents, s.filter_unknown_events, hasked]
        exact congrArg (Outcome.mk _ _ _) hcrash.symm
      rw [houtcome]
      exact consultsFairly_consult hmodel asked cfg now _ fun id p hp => s.inUnit_screened hunit hp

/-- Four peers behind one address, one of them blocked. -/
def housemates : Registry :=
  Registry.block (["p", "q", "r", "s"].foldl (fun r id => r.register id "a" 0) {}) "q" "spam" none

/-- A model that refuses its first answer, takes the second peer for a threat and the third for none. -/
theorem consults_fairly_scripted :
    let model := scripted [.refused "offline", .score 0.9, .score 0.2]
    let outcome := consult (some model) [] {} 1 ∅ housemates
    model.NeverCrashes ∧ (∀ id p, housemates.get? id = some p → InUnit p.trust) ∧
      ConsultsFairlyThroughout model [] {} 1 ∧ outcome.asked.length = 3 ∧
      outcome.events.map Event.subject = ["r"] ∧
      (outcome.registry.peers.entries.map fun e => (e.1, e.2.trust)) =
        [("p", 0.5), ("q", 0.5), ("r", 1.0 - 0.9), ("s", 0.5)] := by
  intro model outcome
  have hmodel : model.NeverCrashes := neverCrashes_scripted (by simp)
  have hlisted : ∀ e ∈ housemates.peers.entries, InUnit e.2.trust := by decide +kernel
  exact ⟨hmodel, fun id p hp => hlisted (id, p) (Directory.mem_entries_iff.mpr hp),
    consults_fairly model hmodel [] {} 1, by decide +kernel, by decide +kernel, by decide +kernel⟩

end Classifier

end PeerWarden
