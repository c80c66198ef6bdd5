import PeerWarden.Directory

/-!
# Entries of a Directory

A directory can be looked at in two ways: as the list of its entries, which is what the passes over it and
the reports see, and through look-up, which is how its laws are stated. This module ties the two together.

## Main statements

- `mem_entries_iff`: an entry is listed exactly if it is found under its key
- `mem_keys_iff`, `count_keys`: each key that is found is listed, and listed once
- `filter_key_entries`: the entries under one key
- `filter_filter_of_imp`: a condition after a weaker one
- `adjust_of_absent`, `erase_of_absent`: a key that is missing
- `map_fst_filterMap_sublist`, `lookup_filterMap_entries`: a pass that may leave entries out, in order and by look-up
- `get?_tally`: how often each key was counted
-/

namespace PeerWarden.Directory

variable {κ α β : Type} [LT κ] [LE κ] [DecidableEq κ] [Std.IsLinearOrder κ] [Std.LawfulOrderLT κ]

/-! ## Lists of entries -/

omit [LT κ] [LE κ] [Std.IsLinearOrder κ] [Std.LawfulOrderLT κ] in
theorem mem_of_find? {k : κ} {v : α} {es : List (κ × α)} (h : find? k es = some v) : (k, v) ∈ es := by
  induction es with
  | nil => simp [find?] at h
  | cons e rest ih =>
    obtain ⟨k', v'⟩ := e
    unfold find? at h
    split at h
    · next hk =>
      obtain rfl := Option.some.inj h
      exact hk ▸ List.mem_cons_self
    · exact List.mem_cons_of_mem _ (ih h)

omit [Std.IsLinearOrder κ] in
/-- In an ordered list of entries, those under one key are the one that is found. -/
theorem filter_key_eq {es : List (κ × α)} (h : es.Pairwise fun a b => a.1 < b.1) (k : κ) :
    es.filter (fun e => e.1 = k) = ((find? k es).map (k, ·)).toList := by
  induction es with
  | nil => rfl
  | cons e rest ih =>
    obtain ⟨k', v⟩ := e
    obtain ⟨first, tail⟩ := List.pairwise_cons.mp h
    by_cases hk : k' = k
    · -- All later keys are larger.
      subst hk
      have hrest : rest.filter (fun e => e.1 = k') = [] := by
        refine List.filter_eq_nil_iff.mpr fun e he => ?_
        simpa using (Std.ne_of_lt (first e he)).symm
      simp [find?, hrest]
    · simp [find?, hk, ih tail]

/-! ## Entries and keys of a directory -/

omit [Std.IsLinearOrder κ] in
/-- An entry is listed exactly if it is found under its key. -/
theorem mem_entries_iff {d : Directory κ α} {k : κ} {v : α} : (k, v) ∈ d.entries ↔ d.get? k = some v :=
  ⟨fun h => find?_of_mem d.ordered h, mem_of_find?⟩

omit [Std.IsLinearOrder κ] in
/-- The keys are those under which something is found. -/
theorem mem_keys_iff {d : Directory κ α} {k : κ} : k ∈ d.keys ↔ d.contains k = true := by
  simp only [keys, contains, List.mem_map, Option.isSome_iff_exists]
  constructor
  · rintro ⟨⟨k', v⟩, he, rfl⟩
    exact ⟨v, mem_entries_iff.mp he⟩
  · rintro ⟨v, hv⟩
    exact ⟨(k, v), mem_entries_iff.mpr hv, rfl⟩

omit [Std.IsLinearOrder κ] in
theorem filter_key_entries (d : Directory κ α) (k : κ) :
    d.entries.filter (fun e => e.1 = k) = ((d.get? k).map (k, ·)).toList :=
  filter_key_eq d.ordered k

omit [DecidableEq κ] [Std.IsLinearOrder κ] in
theorem nodup_keys (d : Directory κ α) : d.keys.Nodup := List.pairwise_map.mpr (d.ordered.imp Std.ne_of_lt)

omit [Std.IsLinearOrder κ] in
/-- No key is listed twice. -/
theorem count_keys (d : Directory κ α) (k : κ) : d.keys.count k = if d.contains k then 1 else 0 := by
  have hfilter : d.keys.count k = (d.entries.filter fun e => e.1 = k).length := by
    rw [keys, List.count_eq_length_filter, List.filter_map, List.length_map]
    rfl
  rw [hfilter, filter_key_entries]
  cases h : d.get? k <;> simp [contains, h]

/-! ## Stricter conditions -/

omit [LE κ] [DecidableEq κ] [Std.IsLinearOrder κ] [Std.LawfulOrderLT κ] in
/-- What a condition drops, a stricter one would have dropped as well. -/
theorem filter_filter_of_imp (d : Directory κ α) {p q : κ → α → Bool} (h : ∀ k v, q k v = true → p k v = true) :
    (d.filter p).filter q = d.filter q := by
  apply ext
  show (d.entries.filter _).filter _ = d.entries.filter _
  rw [List.filter_filter]
  refine List.filter_congr fun e _ => ?_
  rw [Bool.and_eq_left_iff_imp]
  exact h e.1 e.2

/-! ## Missing keys -/

section Absent

variable {d : Directory κ α} {k : κ} (h : d.contains k = false)

include h

omit [LE κ] [Std.IsLinearOrder κ] [Std.LawfulOrderLT κ] in
theorem get?_of_absent : d.get? k = none := by
  simpa [contains] using h

/-- There is nothing to change under a key that is missing. -/
theorem adjust_of_absent (f : α → α) : d.adjust k f = d := by
  refine ext_get? fun other => ?_
  rw [get?_adjust]
  split
  · next heq => rw [heq, get?_of_absent h, Option.map_none]
  · rfl

/-- There is nothing to drop under a key that is missing. -/
theorem erase_of_absent : d.erase k = d := by
  refine ext_get? fun other => ?_
  rw [get?_erase]
  split
  · next heq => rw [heq, get?_of_absent h]
  · rfl

end Absent

/-! ## Passes over a directory -/

omit [LT κ] [LE κ] [DecidableEq κ] [Std.IsLinearOrder κ] [Std.LawfulOrderLT κ] in
/-- A pass that may leave elements out keeps the order of the others. -/
theorem map_fst_filterMap_sublist {γ : Type} (key : γ → κ) (g : γ → Option β) (l : List γ) :
    ((l.filterMap fun a => (g a).map (key a, ·)).map Prod.fst).Sublist (l.map key) := by
  induction l with
  | nil => exact List.Sublist.refl _
  | cons a rest ih =>
    cases h : g a with
    | none => simpa [h] using ih.cons (key a)
    | some b => simpa [h] using ih.cons_cons (key a)

omit [LT κ] [LE κ] [Std.IsLinearOrder κ] [Std.LawfulOrderLT κ] in
theorem lookup_filterMap_of_ne {k : κ} {es : List (κ × α)} (h : ∀ e ∈ es, e.1 ≠ k) (g : α → Option β) :
    (es.filterMap fun e => (g e.2).map (e.1, ·)).lookup k = none := by
  refine List.lookup_eq_none_iff.mpr fun found hfound => ?_
  obtain ⟨e, he, hmap⟩ := List.mem_filterMap.mp hfound
  obtain ⟨b, -, rfl⟩ := Option.map_eq_some_iff.mp hmap
  simpa using (h e he).symm

omit [Std.IsLinearOrder κ] in
/-- A pass that may leave entries out gives under each key what it makes of the value there. -/
theorem lookup_filterMap_entries (d : Directory κ α) (g : α → Option β) (k : κ) :
    (d.entries.filterMap fun e => (g e.2).map (e.1, ·)).lookup k = (d.get? k).bind g := by
  obtain ⟨es, hordered⟩ := d
  show _ = (find? k es).bind g
  induction es with
  | nil => rfl
  | cons e rest ih =>
    obtain ⟨k', v⟩ := e
    obtain ⟨first, tail⟩ := List.pairwise_cons.mp hordered
    have hrest := ih tail
    by_cases hk : k' = k
    · -- All later keys are larger, so an entry that is left out is not made up for by another one.
      subst hk
      have hnone := lookup_filterMap_of_ne (fun e he => (Std.ne_of_lt (first e he)).symm) g
      cases hv : g v with
      | none => simpa [find?, hv] using hnone
      | some b => simp [find?, hv]
    · have hne : (k == k') = false := by simpa using Ne.symm hk
      cases hv : g v with
      | none => simpa [find?, hk, hv] using hrest
      | some b => simpa [find?, hk, hv, List.lookup_cons, hne] using hrest

/-! ## Tallies -/

theorem get?_bump [DecidableLT κ] (d : Directory κ Nat) (k k' : κ) :
    (d.bump k).get? k' = if k' = k then some ((d.get? k).getD 0 + 1) else d.get? k' :=
  get?_insert ..

theorem get?_tally [DecidableLT κ] (ks : List κ) (k : κ) :
    (tally ks).get? k = if k ∈ ks then some (ks.count k) else none := by
  -- The counters may have started anywhere, so the induction is over all counters to start with.
  have hfold (d : Directory κ Nat) :
      (ks.foldl bump d).get? k = if k ∈ ks then some ((d.get? k).getD 0 + ks.count k) else d.get? k := by
    induction ks generalizing d with
    | nil => simp
    | cons first rest ih =>
      rw [List.foldl_cons, ih, get?_bump]
      by_cases hfirst : k = first
      · subst hfirst
        by_cases hrest : k ∈ rest
        · simp [hrest, Nat.add_assoc, Nat.add_comm 1]
        · simp [hrest, List.count_eq_zero_of_not_mem hrest]
      · simp [hfirst, List.count_cons_of_ne (Ne.symm hfirst)]
  simpa [tally] using hfold ∅

end PeerWarden.Directory
