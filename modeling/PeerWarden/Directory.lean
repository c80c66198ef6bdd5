/-!
# Directories

A finite map from keys to values that is always listed in ascending order of its keys. Peers, bans, attempts
and counters are kept in directories, so that every pass over them visits the entries in one fixed order.

## Main definitions

- `Directory`: the map, with the order of its entries as part of the type
- `get?`, `insert`, `erase`, `adjust`, `filter`, `map`: look-up and the ways to change a directory

## Main statements

- `get?_insert`, `get?_erase`, `get?_adjust`, `get?_map`: each operation through look-up
- `ext_get?`: a directory is determined by what is found under each key
-/

namespace PeerWarden

/-- A map from keys to values, listed in strictly ascending order of the keys. -/
structure Directory (κ : Type) [LT κ] (α : Type) where
  entries : List (κ × α) := []
  ordered : entries.Pairwise (fun a b => a.1 < b.1) := by exact .nil

namespace Directory

variable {κ α β : Type} [LT κ]

instance [DecidableEq κ] [DecidableEq α] : DecidableEq (Directory κ α) := fun a b =>
  decidable_of_iff (a.entries = b.entries) ⟨fun h => by cases a; cases b; simp_all, fun h => h ▸ rfl⟩

/-- A directory is its list of entries. -/
theorem ext {d₁ d₂ : Directory κ α} (h : d₁.entries = d₂.entries) : d₁ = d₂ := by
  cases d₁; cases d₂; simp_all

instance : EmptyCollection (Directory κ α) := ⟨{}⟩

instance : Inhabited (Directory κ α) := ⟨∅⟩

/-! ## Views -/

/-- The keys in ascending order. -/
def keys (d : Directory κ α) : List κ := d.entries.map Prod.fst

/-- The values in the order of their keys. -/
def values (d : Directory κ α) : List α := d.entries.map Prod.snd

/-- How many keys there are. -/
def size (d : Directory κ α) : Nat := d.entries.length

/-- Whether there is no key at all. -/
def isEmpty (d : Directory κ α) : Bool := d.entries.isEmpty

/-- The value under a key, in any list of entries. -/
def find? [DecidableEq κ] (k : κ) : List (κ × α) → Option α
  | [] => none
  | (k', v) :: rest => if k' = k then some v else find? k rest

/-- The value under a key. -/
def get? [DecidableEq κ] (d : Directory κ α) (k : κ) : Option α := find? k d.entries

/-- Whether a key has a value. -/
def contains [DecidableEq κ] (d : Directory κ α) (k : κ) : Bool := (d.get? k).isSome

/-! ## Changes that keep every key -/

/-- Applies a function to every value. -/
def map (d : Directory κ α) (f : κ → α → β) : Directory κ β where
  entries := d.entries.map fun e => (e.1, f e.1 e.2)
  ordered := d.ordered.map _ fun _ _ h => h

/-- Applies a function to the value under a key, in any list of entries. -/
def adjustEntry [DecidableEq κ] (k : κ) (f : α → α) : List (κ × α) → List (κ × α)
  | [] => []
  | e :: rest => if e.1 = k then (e.1, f e.2) :: rest else e :: adjustEntry k f rest

omit [LT κ] in
/-- Changing a value leaves the keys as they are. -/
theorem keys_adjustEntry [DecidableEq κ] (k : κ) (f : α → α) (es : List (κ × α)) :
    (adjustEntry k f es).map Prod.fst = es.map Prod.fst := by
  induction es with
  | nil => rfl
  | cons e rest ih =>
    obtain ⟨k', v⟩ := e
    by_cases h : k' = k <;> simp [adjustEntry, h, ih]

/-- Applies a function to the value under a key, if there is one. -/
def adjust [DecidableEq κ] (d : Directory κ α) (k : κ) (f : α → α) : Directory κ α where
  entries := adjustEntry k f d.entries
  ordered := by
    rw [← List.pairwise_map (R := (· < ·)), keys_adjustEntry, List.pairwise_map]
    exact d.ordered

/-! ## Changes that drop keys -/

/-- Keeps the entries that satisfy a condition. -/
def filter (d : Directory κ α) (p : κ → α → Bool) : Directory κ α where
  entries := d.entries.filter fun e => p e.1 e.2
  ordered := d.ordered.sublist List.filter_sublist

/-- Drops a key. -/
def erase [DecidableEq κ] (d : Directory κ α) (k : κ) : Directory κ α := d.filter fun k' _ => k' ≠ k

/-! ## Changes that add keys -/

section Insert

variable [DecidableLT κ]

/-- Puts a value at the place of its key, over a value that was there. -/
def insertEntry (k : κ) (v : α) : List (κ × α) → List (κ × α)
  | [] => [(k, v)]
  | e :: rest =>
    if e.1 < k then e :: insertEntry k v rest
    else if k < e.1 then (k, v) :: e :: rest
    else (k, v) :: rest

/-- An entry of the changed list is the new one or an old one. -/
theorem mem_insertEntry {k : κ} {v : α} {e : κ × α} {es : List (κ × α)} :
    e ∈ insertEntry k v es → e = (k, v) ∨ e ∈ es := by
  induction es with
  | nil => simp [insertEntry]
  | cons head rest ih =>
    obtain ⟨k', v'⟩ := head
    unfold insertEntry
    split
    · simp only [List.mem_cons]
      rintro (rfl | h)
      · exact .inr (.inl rfl)
      · exact (ih h).imp_right .inr
    · split
      · simp
      · simp only [List.mem_cons]
        exact fun h => h.imp_right .inr

variable [LE κ] [Std.IsLinearOrder κ] [Std.LawfulOrderLT κ]

omit [DecidableLT κ] in
/-- Two keys of which neither comes first are the same key. -/
theorem eq_of_not_lt {a b : κ} (h₁ : ¬a < b) (h₂ : ¬b < a) : a = b :=
  Std.le_antisymm (Std.not_lt.mp h₂) (Std.not_lt.mp h₁)

/-- The list stays in ascending order. -/
theorem pairwise_insertEntry (k : κ) (v : α) {es : List (κ × α)}
    (h : es.Pairwise fun a b => a.1 < b.1) : (insertEntry k v es).Pairwise fun a b => a.1 < b.1 := by
  induction es with
  | nil => simp [insertEntry]
  | cons head rest ih =>
    obtain ⟨k', v'⟩ := head
    obtain ⟨first, tail⟩ := List.pairwise_cons.mp h
    unfold insertEntry
    split
    · next hgt =>
      refine List.pairwise_cons.mpr ⟨fun e he => ?_, ih tail⟩
      rcases mem_insertEntry he with rfl | he
      · exact hgt
      · exact first e he
    · split
      · next hlt =>
        refine List.pairwise_cons.mpr ⟨fun e he => ?_, h⟩
        rcases List.mem_cons.mp he with rfl | he
        · exact hlt
        · exact Std.lt_trans hlt (first e he)
      · next hgt hlt =>
        obtain rfl := eq_of_not_lt hlt hgt
        exact List.pairwise_cons.mpr ⟨first, tail⟩

/-- Sets the value under a key. -/
def insert (d : Directory κ α) (k : κ) (v : α) : Directory κ α where
  entries := insertEntry k v d.entries
  ordered := pairwise_insertEntry k v d.ordered

/-- Sets the value under a key to a function of what was there. -/
def alter [DecidableEq κ] (d : Directory κ α) (k : κ) (f : Option α → α) : Directory κ α :=
  d.insert k (f (d.get? k))

/-! ## Tallies -/

/-- Raises a counter, which starts at zero. -/
def bump [DecidableEq κ] (d : Directory κ Nat) (k : κ) : Directory κ Nat := d.alter k (·.getD 0 + 1)

/-- How often each key occurs in a list. -/
def tally [DecidableEq κ] (ks : List κ) : Directory κ Nat := ks.foldl bump ∅

end Insert

/-! ## Laws of look-up -/

section Laws

variable [DecidableEq κ]

@[simp] theorem get?_empty (k : κ) : (∅ : Directory κ α).get? k = none := rfl

omit [LT κ] in
/-- A list without a key has nothing under it. -/
theorem find?_eq_none {k : κ} {es : List (κ × α)} (h : ∀ e ∈ es, e.1 ≠ k) : find? k es = none := by
  induction es with
  | nil => rfl
  | cons e rest ih =>
    obtain ⟨k', v⟩ := e
    have hk : k' ≠ k := h (k', v) (by simp)
    simp [find?, hk, ih fun e he => h e (by simp [he])]

omit [LT κ] in
theorem find?_map (k : κ) (f : κ → α → β) (es : List (κ × α)) :
    find? k (es.map fun e => (e.1, f e.1 e.2)) = (find? k es).map (f k) := by
  induction es with
  | nil => rfl
  | cons e rest ih =>
    obtain ⟨k', v⟩ := e
    by_cases h : k' = k
    · subst h; simp [find?]
    · simp [find?, h, ih]

@[simp] theorem get?_map (d : Directory κ α) (f : κ → α → β) (k : κ) :
    (d.map f).get? k = (d.get? k).map (f k) :=
  find?_map k f d.entries

omit [LT κ] in
theorem find?_adjustEntry (k k' : κ) (f : α → α) (es : List (κ × α)) :
    find? k' (adjustEntry k f es) = if k' = k then (find? k' es).map f else find? k' es := by
  induction es with
  | nil => simp [adjustEntry, find?]
  | cons e rest ih =>
    obtain ⟨k₀, v⟩ := e
    by_cases h₀ : k₀ = k
    · by_cases h : k' = k
      · simp [adjustEntry, find?, h₀, h]
      · simp [adjustEntry, find?, h₀, h, Ne.symm h]
    · by_cases h : k₀ = k'
      · subst h; simp [adjustEntry, find?, h₀]
      · simp [adjustEntry, find?, h₀, h, ih]

@[simp] theorem get?_adjust (d : Directory κ α) (k k' : κ) (f : α → α) :
    (d.adjust k f).get? k' = if k' = k then (d.get? k').map f else d.get? k' :=
  find?_adjustEntry k k' f d.entries

variable [LE κ] [Std.IsLinearOrder κ] [Std.LawfulOrderLT κ]

omit [Std.IsLinearOrder κ] in
theorem find?_filter (k : κ) (p : κ → α → Bool) {es : List (κ × α)}
    (h : es.Pairwise fun a b => a.1 < b.1) :
    find? k (es.filter fun e => p e.1 e.2) = (find? k es).filter (p k) := by
  induction es with
  | nil => rfl
  | cons e rest ih =>
    obtain ⟨k', v⟩ := e
    obtain ⟨first, tail⟩ := List.pairwise_cons.mp h
    by_cases hk : k' = k
    · subst hk
      have hrest : find? k' (rest.filter fun e => p e.1 e.2) = none :=
        find?_eq_none fun e he => (Std.ne_of_lt (first e (List.mem_filter.mp he).1)).symm
      cases hp : p k' v <;> simp [find?, hp, hrest, Option.filter]
    · cases hp : p k' v <;> simp [find?, hp, hk, ih tail]

omit [Std.IsLinearOrder κ] in
@[simp] theorem get?_filter (d : Directory κ α) (p : κ → α → Bool) (k : κ) :
    (d.filter p).get? k = (d.get? k).filter (p k) :=
  find?_filter k p d.ordered

omit [Std.IsLinearOrder κ] in
@[simp] theorem get?_erase (d : Directory κ α) (k k' : κ) :
    (d.erase k).get? k' = if k' = k then none else d.get? k' := by
  by_cases h : k' = k
  · cases hd : d.get? k <;> simp [erase, h, hd]
  · cases hd : d.get? k' <;> simp [erase, h, hd]

omit [Std.IsLinearOrder κ] in
/-- Every listed entry is found under its key. -/
theorem find?_of_mem {es : List (κ × α)} (h : es.Pairwise fun a b => a.1 < b.1) {e : κ × α}
    (he : e ∈ es) : find? e.1 es = some e.2 := by
  induction es with
  | nil => simp at he
  | cons e' rest ih =>
    obtain ⟨first, tail⟩ := List.pairwise_cons.mp h
    rcases List.mem_cons.mp he with rfl | he
    · simp [find?]
    · simp [find?, Std.ne_of_lt (first e he), ih tail he]

/-- The entry listed first cannot be missing or later in a list that answers alike. -/
private theorem eq_of_find?_eq {es₁ es₂ : List (κ × α)} (h₁ : es₁.Pairwise fun a b => a.1 < b.1)
    (h₂ : es₂.Pairwise fun a b => a.1 < b.1) (h : ∀ k, find? k es₁ = find? k es₂) : es₁ = es₂ := by
  induction es₁ generalizing es₂ with
  | nil =>
    cases es₂ with
    | nil => rfl
    | cons e rest => simpa [find?] using h e.1
  | cons e₁ rest₁ ih =>
    obtain ⟨first₁, tail₁⟩ := List.pairwise_cons.mp h₁
    cases es₂ with
    | nil => simpa [find?] using h e₁.1
    | cons e₂ rest₂ =>
      obtain ⟨first₂, tail₂⟩ := List.pairwise_cons.mp h₂
      have later {k : κ} {e : κ × α} {rest : List (κ × α)} (hk : k < e.1)
          (first : ∀ e' ∈ rest, e.1 < e'.1) : find? k (e :: rest) = none :=
        find?_eq_none fun e' he' => by
          rcases List.mem_cons.mp he' with rfl | he'
          · exact (Std.ne_of_lt hk).symm
          · exact (Std.ne_of_lt (Std.lt_trans hk (first e' he'))).symm
      have hkey : e₁.1 = e₂.1 := by
        refine eq_of_not_lt (fun hlt => ?_) (fun hlt => ?_)
        · have := h e₁.1
          rw [later hlt first₂] at this
          simp [find?] at this
        · have := h e₂.1
          rw [later hlt first₁] at this
          simp [find?] at this
      have hvalue : e₁.2 = e₂.2 := by simpa [find?, hkey] using h e₁.1
      have hrest : rest₁ = rest₂ := by
        refine ih tail₁ tail₂ fun k => ?_
        by_cases hk : e₁.1 = k
        · rw [find?_eq_none fun e he => hk ▸ (Std.ne_of_lt (first₁ e he)).symm,
            find?_eq_none fun e he => hk ▸ hkey ▸ (Std.ne_of_lt (first₂ e he)).symm]
        · simpa [find?, hk, hkey ▸ hk] using h k
      rw [show e₁ = e₂ from Prod.ext hkey hvalue, hrest]

/-- A directory is determined by what is found under each key. -/
theorem ext_get? {d₁ d₂ : Directory κ α} (h : ∀ k, d₁.get? k = d₂.get? k) : d₁ = d₂ :=
  ext (eq_of_find?_eq d₁.ordered d₂.ordered h)

variable [DecidableLT κ]

theorem find?_insertEntry (k k' : κ) (v : α) (es : List (κ × α)) :
    find? k' (insertEntry k v es) = if k' = k then some v else find? k' es := by
  induction es with
  | nil => simp [insertEntry, find?, eq_comm]
  | cons e rest ih =>
    obtain ⟨k₀, v₀⟩ := e
    unfold insertEntry
    split
    · next hgt =>
      have hne : k₀ ≠ k := Std.ne_of_lt hgt
      by_cases h : k' = k
      · subst h; simp [find?, hne, ih]
      · simp [find?, h, ih]
    · split
      · by_cases h : k' = k
        · simp [find?, h]
        · simp [find?, h, Ne.symm h]
      · next hgt hlt =>
        obtain rfl := eq_of_not_lt hlt hgt
        by_cases h : k' = k
        · simp [find?, h]
        · simp [find?, h, Ne.symm h]

@[simp] theorem get?_insert (d : Directory κ α) (k k' : κ) (v : α) :
    (d.insert k v).get? k' = if k' = k then some v else d.get? k' :=
  find?_insertEntry k k' v d.entries

end Laws

end Directory

end PeerWarden
