import PeerWarden.Run.Session

/-!
# Chronological Runs

The instants of a run are given by its operations. Most laws hold whatever these instants are; some need a
clock that never goes back.

## Main definitions

- `Operation.time?`: the instant at which an operation takes place, if it depends on the time
- `Chronological`: the instants of a run never decrease
- `NoLaterThan`, `NoEarlierThan`: bounds on the instants of a run
-/

namespace PeerWarden

/-- The instant that a request carries. -/
def Request.time? : Request → Option Instant
  | .register _ _ now | .attempt _ now | .peerAttempt _ _ now => some now
  | .success _ now | .failure _ now => some now
  | .blockPeer _ _ _ now | .banAddress _ _ _ now => some now
  | .outcome _ | .latency _ _ | .throughput _ _ | .link _ _ _ | .liftBan _ => none

/-- The instant at which an operation takes place. -/
def Operation.time? : Operation → Option Instant
  | .request r => r.time?
  | .securityCycle now | .healthCycle now => some now

/-- The instants of a run in the order of its operations. -/
def instants (ops : List Operation) : List Instant := ops.filterMap Operation.time?

/-- The clock never goes back during a run. -/
def Chronological (ops : List Operation) : Prop := (instants ops).Pairwise (· ≤ ·)

/-- Nothing in a run takes place after an instant. -/
def NoLaterThan (limit : Instant) (ops : List Operation) : Prop := ∀ t ∈ instants ops, t ≤ limit

def NoEarlierThan (limit : Instant) (ops : List Operation) : Prop := ∀ t ∈ instants ops, limit ≤ t

instance (ops : List Operation) : Decidable (Chronological ops) :=
  inferInstanceAs (Decidable (List.Pairwise (· ≤ ·) (instants ops)))

instance (limit : Instant) (ops : List Operation) : Decidable (NoLaterThan limit ops) :=
  inferInstanceAs (Decidable (∀ t ∈ instants ops, t ≤ limit))

/-! ## Runs in parts -/

theorem instants_cons (op : Operation) (ops : List Operation) :
    instants (op :: ops) = op.time?.toList ++ instants ops := by
  cases h : op.time? <;> simp [instants, h]

theorem instants_append (earlier later : List Operation) :
    instants (earlier ++ later) = instants earlier ++ instants later :=
  List.filterMap_append

theorem mem_instants {ops : List Operation} {op : Operation} {t : Instant} (hop : op ∈ ops) (ht : op.time? = some t) :
    t ∈ instants ops :=
  List.mem_filterMap.mpr ⟨op, hop, ht⟩

/-- The clock of a run stands between the clock of its first operation and those that follow. -/
theorem Chronological.cons {op : Operation} {ops : List Operation} (h : Chronological (op :: ops)) :
    Chronological ops ∧ ∀ t, op.time? = some t → NoEarlierThan t ops := by
  unfold Chronological at h
  rw [instants_cons, List.pairwise_append] at h
  refine ⟨h.2.1, fun t ht later hlater => ?_⟩
  exact h.2.2 t (by simp [ht]) later hlater

/-- When the clock never goes back, nothing before a cycle takes place after it. -/
theorem Chronological.noLaterThan {ops : List Operation} {op : Operation} {now : Instant}
    (h : Chronological (ops ++ [op])) (hop : op.time? = some now) : Chronological ops ∧ NoLaterThan now ops := by
  unfold Chronological at h
  rw [instants_append, List.pairwise_append] at h
  refine ⟨h.1, fun t ht => h.2.2 t ht now ?_⟩
  simp [instants, hop]

theorem Chronological.of_append {earlier later : List Operation} (h : Chronological (earlier ++ later)) :
    Chronological earlier ∧ Chronological later := by
  unfold Chronological at h ⊢
  rw [instants_append, List.pairwise_append] at h
  exact ⟨h.1, h.2.1⟩

/-- In a chronological run, what stands before an operation takes place no later. -/
theorem Chronological.noLaterThan_of_split {earlier later : List Operation} {op : Operation} {now : Instant}
    (h : Chronological (earlier ++ op :: later)) (hop : op.time? = some now) : NoLaterThan now earlier := by
  rw [List.append_cons] at h
  exact (h.of_append.1.noLaterThan hop).2

/-- What every operation keeps while the clock moves on to its instant, a chronological run keeps until any
    instant that does not lie before its end. -/
theorem Warden.run_chronological {w : Warden} {P : Session → Instant → Prop} {s : Session} {ops : List Operation}
    {clock now : Instant} (later : ∀ {s clock now}, P s clock → clock ≤ now → P s now)
    (step : ∀ {s clock}, ∀ op ∈ ops, (∀ t, op.time? = some t → clock ≤ t) → P s clock →
      P (w.step s op) (op.time?.getD clock))
    (hops : Chronological ops) (hfrom : NoEarlierThan clock ops) (hto : NoLaterThan now ops) (hnow : clock ≤ now)
    (h : P s clock) : P (w.run s ops) now := by
  -- Each operation may assume a clock that none of those after it comes before.
  induction ops generalizing s clock with
  | nil => exact later h hnow
  | cons op ops ih =>
    obtain ⟨hrest, hbetween⟩ := hops.cons
    have hfirst := step op List.mem_cons_self (fun t ht => hfrom t (by simp [instants_cons, ht])) h
    rw [run_cons]
    apply ih (fun op' hop' => step op' (List.mem_cons_of_mem op hop')) hrest ?_ ?_ ?_ hfirst
    · cases ht : op.time? with
      | none => exact fun t hmem => hfrom t (by simp [instants_cons, hmem])
      | some t => exact hbetween t ht
    · exact fun t hmem => hto t (by simp [instants_cons, hmem])
    · cases ht : op.time? with
      | none => exact hnow
      | some t => exact hto t (by simp [instants_cons, ht])

theorem exists_noEarlierThan (now : Instant) (ops : List Operation) :
    ∃ clock, clock ≤ now ∧ NoEarlierThan clock ops := by
  unfold NoEarlierThan
  induction instants ops with
  | nil => exact ⟨now, Int.le_refl now, by simp⟩
  | cons t rest ih =>
    obtain ⟨clock, hnow, hrest⟩ := ih
    refine ⟨min t clock, Int.le_trans (Int.min_le_right ..) hnow, fun t' ht' => ?_⟩
    rcases List.mem_cons.mp ht' with rfl | ht'
    · exact Int.min_le_left ..
    · exact Int.le_trans (Int.min_le_right ..) (hrest t' ht')

end PeerWarden
