import PeerWarden.Proofs.Cycle.SecurityCycle
import PeerWarden.Proofs.Directory.Entries

/-!
# What the Findings Say

A finding of a security cycle is about what its stage saw. Read backwards, it names a peer that a detector
flagged, an address with too many suspects, or a peer for which the classifier gave a high probability.

## Main statements

- `Detector.flags_of_mem_findings`, `Sybil.contains_of_mem_findings`: findings of the detectors
- `Classifier.mem_accused`: on what an accusation rests
- `Classifier.lookup_accused_eq_some_iff`: nobody is accused twice
- `State.stage_of_mem`: the stage that a finding comes from
-/

namespace PeerWarden

/-! ## Detectors -/

/-- A detector of single peers reports peers that it flags. -/
theorem Detector.flags_of_mem_findings {d : Detector} (hsubject : ∀ id p, (d.finding id p).subject = id)
    {r : Registry} {e : Event} (h : e ∈ d.findings r) : ∃ p, r.get? e.subject = some p ∧ d.flags p = true := by
  obtain ⟨⟨id, p⟩, hmem, rfl⟩ := List.mem_map.mp h
  obtain ⟨hentry, hflags⟩ := List.mem_filter.mp hmem
  rw [hsubject]
  exact ⟨p, Directory.mem_entries_iff.mp hentry, hflags⟩

theorem Sybil.contains_of_mem_findings {cfg : Config.Security} {now : Instant} {r : Registry} {e : Event}
    (h : e ∈ findings cfg now r) : (clusters cfg r).contains e.subject = true := by
  obtain ⟨⟨address, n⟩, hentry, rfl⟩ := List.mem_map.mp h
  exact Option.isSome_iff_exists.mpr ⟨n, Directory.mem_entries_iff.mp hentry⟩

/-! ## The classifier -/

namespace Classifier

/-- Each answer is one to the question about that peer. -/
theorem exists_question_of_mem_answers {model : Classifier} {asked : List Features}
    {questions : List (String × Features)} {id : String} {answer : Answer}
    (h : (id, answer) ∈ (interview model asked questions).answers) :
    ∃ f earlier, (id, f) ∈ questions ∧ model earlier f = answer := by
  -- What was asked so far grows with every question, so the induction is over all of it.
  induction questions generalizing asked with
  | nil => cases h
  | cons question rest ih =>
    obtain ⟨name, f⟩ := question
    unfold interview at h
    split at h
    · cases h
    · rcases List.mem_cons.mp h with heq | hlater
      · obtain ⟨rfl, rfl⟩ := Prod.mk.inj heq
        exact ⟨f, asked, List.mem_cons_self, rfl⟩
      · obtain ⟨f', earlier, hmem, hanswer⟩ := ih hlater
        exact ⟨f', earlier, List.mem_cons_of_mem _ hmem, hanswer⟩

/-- Nobody is asked about twice, so nobody is answered for twice. -/
theorem answers_sublist (model : Classifier) (asked : List Features) (questions : List (String × Features)) :
    ((interview model asked questions).answers.map Prod.fst).Sublist (questions.map Prod.fst) := by
  induction questions generalizing asked with
  | nil => exact List.Sublist.refl _
  | cons question rest ih =>
    obtain ⟨name, f⟩ := question
    unfold interview
    split
    · exact List.nil_sublist _
    · exact (ih (f :: asked)).cons_cons name

/-- An answer flags a peer if it gives a finite number that reaches the threshold once clamped. -/
theorem flagged?_eq_some_iff {threshold probability : Float} {answer : Answer} :
    flagged? threshold answer = some probability ↔ ∃ score, answer = .score score ∧ score.isFinite = true ∧
      probability = Number.clampUnit score ∧ ¬probability < threshold := by
  cases answer with
  | score score =>
    unfold flagged?
    by_cases hfinite : score.isFinite = true
    · by_cases hthreshold : Number.clampUnit score < threshold
      · simp only [hfinite, hthreshold, ↓reduceIte, reduceCtorEq, Answer.score.injEq, false_iff]
        rintro ⟨score', rfl, -, rfl, hreached⟩
        exact hreached hthreshold
      · simp only [hfinite, hthreshold, ↓reduceIte, Option.some.injEq, Answer.score.injEq]
        constructor
        · rintro rfl
          exact ⟨score, rfl, hfinite, rfl, hthreshold⟩
        · rintro ⟨score', rfl, -, rfl, -⟩
          rfl
    · simp only [hfinite, Bool.false_eq_true, ↓reduceIte, reduceCtorEq, Answer.score.injEq, false_iff]
      rintro ⟨score', rfl, hfinite', -⟩
      exact hfinite hfinite'
  | refused | crash => simp [flagged?]

variable {model : Option Classifier} {asked : List Features} {cfg : Config} {rates : Directory String Nat}
  {r : Registry} {id : String} {probability : Float}

/-- An accusation rests on the answer to a question about a peer that is not blocked. -/
theorem mem_accused (h : (id, probability) ∈ accused model asked cfg rates r) :
    ∃ classify p earlier score, model = some classify ∧ r.get? id = some p ∧ p.isBlocked = false ∧
      classify earlier (features cfg.dosProtection rates p) = .score score ∧ score.isFinite = true ∧
      probability = Number.clampUnit score ∧ ¬probability < cfg.security.classifierThreshold := by
  cases model with
  | none => cases h
  | some classify =>
    obtain ⟨⟨name, answer⟩, hmem, hflagged⟩ := List.mem_filterMap.mp h
    obtain ⟨probability', hanswer, heq⟩ := Option.map_eq_some_iff.mp hflagged
    obtain ⟨rfl, rfl⟩ := Prod.mk.inj heq
    obtain ⟨score, rfl, hfinite, hclamp, hthreshold⟩ := flagged?_eq_some_iff.mp hanswer
    obtain ⟨f, earlier, hquestion, hscore⟩ := exists_question_of_mem_answers hmem
    obtain ⟨⟨name', p⟩, hentry, heq'⟩ := List.mem_map.mp hquestion
    obtain ⟨rfl, rfl⟩ := Prod.mk.inj heq'
    obtain ⟨hlisted, hfree⟩ := List.mem_filter.mp hentry
    exact ⟨classify, p, earlier, score, rfl, Directory.mem_entries_iff.mp hlisted, by simpa using hfree, hscore,
      hfinite, hclamp, hthreshold⟩

theorem nodup_accused (model : Option Classifier) (asked : List Features) (cfg : Config)
    (rates : Directory String Nat) (r : Registry) : ((accused model asked cfg rates r).map Prod.fst).Nodup := by
  cases model with
  | none => exact List.nodup_nil
  | some classify =>
    have hquestions : ((questions cfg.dosProtection rates r).map Prod.fst).Sublist r.peers.keys := by
      rw [questions, List.map_map]
      exact List.filter_sublist.map Prod.fst
    have hkeys : r.peers.keys.Nodup := r.peers.nodup_keys
    have hflagged := Directory.map_fst_filterMap_sublist Prod.fst
      (fun e : String × Answer => flagged? cfg.security.classifierThreshold e.2)
      (interview classify asked (questions cfg.dosProtection rates r)).answers
    exact (hflagged.trans ((answers_sublist classify asked _).trans hquestions)).nodup hkeys

/-- Every accusation is the one that is found for the peer. -/
theorem lookup_accused_eq_some_iff : (accused model asked cfg rates r).lookup id = some probability ↔
    (id, probability) ∈ accused model asked cfg rates r := by
  constructor
  · intro h
    obtain ⟨before, after, hsplit, -⟩ := List.lookup_eq_some_iff.mp h
    rw [hsplit]
    simp
  · intro h
    have hnodup := nodup_accused model asked cfg rates r
    -- The look-up stops at the first entry of the peer, and there is only one.
    obtain ⟨before, after, hsplit⟩ := List.append_of_mem h
    rw [hsplit, List.map_append, List.nodup_append] at hnodup
    refine List.lookup_eq_some_iff.mpr ⟨before, after, hsplit, fun e he => ?_⟩
    have hne := hnodup.2.2 e.1 (List.mem_map_of_mem he) id (by simp)
    simpa using hne.symm

end Classifier

/-! ## Stages -/

namespace State

variable (s : State) (cfg : Config) (model : Option Classifier) (asked : List Features) (now : Instant)

/-- The stage that a finding comes from. -/
theorem stage_of_mem {e : Event} (h : e ∈ (s.detect cfg model asked now).events) :
    match e.attack with
    | .dos => e ∈ (s.floods cfg now).events
    | .sybil => e ∈ Sybil.findings cfg.security now (s.floods cfg now).registry
    | .eclipse => e ∈ (Detector.eclipse cfg.security now).findings (s.clustered cfg now)
    | .vdfManipulation => e ∈ (Detector.timing cfg.security now).findings (s.eclipsed cfg now)
    | .unknown => e ∈ Classifier.findings now
        (Classifier.accused model asked cfg (s.floods cfg now).rates (s.screened cfg now))
    | .selfishMining | .rateLimit => False := by
  rw [detect_events] at h
  simp only [List.mem_append, or_assoc] at h
  -- Every stage but the first reports one finding for each entry of a list.
  rcases h with h | h | h | h | h
  · rw [Flood.attack_of_mem _ _ _ _ _ h]
    exact h
  all_goals
    obtain ⟨subject, hmem, rfl⟩ := List.mem_map.mp h
    exact h

end State

end PeerWarden
