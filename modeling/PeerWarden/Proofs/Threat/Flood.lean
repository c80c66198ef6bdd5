import PeerWarden.Proofs.Directory.Entries
import PeerWarden.Threat.Flood

/-!
# What the Search for Floods Does

The search for floods looks at all addresses at once. Here its outcome is read address by address and peer by
peer: which addresses it finds, what is left of their attempts, which bans it sets, whom it blames and what it
reports.

## Main statements

- `contains_offenders`: an address is found exactly if more attempts than the limit are left in its queue
- `get?_attempts`, `get?_bans`, `get?_registry`: the logs, bans and peers afterwards
- `findings_about`: one critical finding for each address that is found, and none for the others
-/

namespace PeerWarden

/-! ## Queues of attempts -/

namespace AttemptLog

/-- Pruning keeps what is left of a queue, and forgets the address if that is nothing. -/
theorem get?_prune (log : AttemptLog) (now : Instant) (window : Span) (address : String) :
    (log.prune now window).get? address =
      (some (trailing now window (log.of address))).filter fun queue => !queue.isEmpty := by
  unfold prune of
  cases h : log.get? address with
  | none => simp [h, trailing, Option.filter]
  | some queue => simp [h]

theorem get?_counts_prune (log : AttemptLog) (now : Instant) (window : Span) (address : String) :
    (log.prune now window).counts.get? address =
      ((some (trailing now window (log.of address))).filter fun queue => !queue.isEmpty).map List.length := by
  rw [counts, Directory.get?_map, get?_prune]

end AttemptLog

namespace Flood

/-! ## Addresses -/

/-- Banning some addresses replaces their bans and leaves the others. -/
theorem get?_banAll (ban : Ban) (addresses : List String) (bans : BanList) (address : String) :
    (banAll ban addresses bans).get? address = if address ∈ addresses then some ban else bans.get? address := by
  unfold banAll
  induction addresses generalizing bans with
  | nil => simp
  | cons first rest ih =>
    rw [List.foldl_cons, ih, Directory.get?_insert]
    by_cases hrest : address ∈ rest
    · simp [hrest]
    · by_cases hfirst : address = first <;> simp [hrest, hfirst]

variable (cfg : Config.DosProtection) (now : Instant) (registry : Registry) (attempts : AttemptLog)
  (bans : BanList) (address : String)

/-- An address is found exactly if more attempts than the limit are left in its queue. -/
theorem contains_offenders : (detect cfg now registry attempts bans).offenders.contains address =
    decide (cfg.rateLimit < (AttemptLog.trailing now cfg.window (attempts.of address)).length) := by
  have hget : (detect cfg now registry attempts bans).offenders.get? address =
      ((attempts.prune now cfg.window).counts.get? address).filter fun n => decide (cfg.rateLimit < n) := by
    simp [detect]
  rw [Directory.contains, hget, AttemptLog.get?_counts_prune]
  -- An empty queue is not counted at all, which comes to the same as no attempts.
  cases hq : AttemptLog.trailing now cfg.window (attempts.of address) with
  | nil => simp [Option.filter]
  | cons t rest =>
    by_cases h : cfg.rateLimit < (t :: rest).length
    · simp [Option.filter, List.length_cons ▸ h]
    · simp [Option.filter, List.length_cons ▸ h]

/-- An address that is found loses its attempts; the others keep what is left of their queue. -/
theorem get?_attempts : (detect cfg now registry attempts bans).attempts.get? address =
    if (detect cfg now registry attempts bans).offenders.contains address then none
    else (some (AttemptLog.trailing now cfg.window (attempts.of address))).filter fun queue => !queue.isEmpty := by
  have hget : (detect cfg now registry attempts bans).attempts.get? address =
      ((attempts.prune now cfg.window).get? address).filter fun _ =>
        !(detect cfg now registry attempts bans).offenders.contains address := by
    simp [detect]
  rw [hget, AttemptLog.get?_prune]
  cases (detect cfg now registry attempts bans).offenders.contains address <;> simp

/-- An address that is found gets a new ban; the others keep theirs. -/
theorem get?_bans : (detect cfg now registry attempts bans).bans.get? address =
    if (detect cfg now registry attempts bans).offenders.contains address then some (ban cfg now)
    else bans.get? address := by
  have hbans : (detect cfg now registry attempts bans).bans =
      banAll (ban cfg now) (detect cfg now registry attempts bans).offenders.keys bans := rfl
  rw [hbans, get?_banAll]
  simp [Directory.mem_keys_iff]

/-- The addresses that are not found keep their number of attempts as their rate. -/
theorem get?_rates : (detect cfg now registry attempts bans).rates.get? address =
    (((some (AttemptLog.trailing now cfg.window (attempts.of address))).filter fun queue => !queue.isEmpty).map
      List.length).filter fun n => decide (n ≤ cfg.rateLimit) := by
  rw [← AttemptLog.get?_counts_prune]
  exact Directory.get?_filter ..

/-! ## Peers -/

/-- A flood is counted against the peers behind an address that is found. -/
theorem get?_registry (id : String) : (detect cfg now registry attempts bans).registry.get? id =
    (registry.get? id).map fun p =>
      if (detect cfg now registry attempts bans).offenders.contains p.address then p.noteFlood else p :=
  Registry.get?_map ..

/-! ## Findings -/

/-- There is one finding about each address that is found, and none about the others. -/
theorem findings_about : ((detect cfg now registry attempts bans).events.filter fun e => e.subject = address).map
      (fun e => (e.attack, e.severity)) =
    if (detect cfg now registry attempts bans).offenders.contains address then [(.dos, .critical)] else [] := by
  have hevents : (detect cfg now registry attempts bans).events =
      (detect cfg now registry attempts bans).offenders.entries.map fun e => finding cfg now e.1 e.2 := rfl
  rw [hevents, List.filter_map, List.map_map]
  have hsubject : ((fun e : Event => decide (e.subject = address)) ∘
      fun e : String × Nat => finding cfg now e.1 e.2) = fun e => decide (e.1 = address) := rfl
  -- The findings about one address come from the entries under one key.
  rw [hsubject, Directory.filter_key_entries]
  cases h : (detect cfg now registry attempts bans).offenders.get? address with
  | none => simp [Directory.contains, h]
  | some n => simp [Directory.contains, h, finding]

theorem contains_of_mem_events {e : Event} (h : e ∈ (detect cfg now registry attempts bans).events) :
    (detect cfg now registry attempts bans).offenders.contains e.subject = true := by
  obtain ⟨⟨source, n⟩, hentry, rfl⟩ := List.mem_map.mp h
  exact Option.isSome_iff_exists.mpr ⟨n, Directory.mem_entries_iff.mp hentry⟩

theorem attack_of_mem {e : Event} (h : e ∈ (detect cfg now registry attempts bans).events) :
    e.attack = .dos := by
  obtain ⟨entry, -, rfl⟩ := List.mem_map.mp h
  rfl

end Flood

end PeerWarden
