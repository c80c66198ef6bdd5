import PeerWarden.Proofs.Toml.Texts

/-!
# Reading Numbers, Dates and Values without Parts

A number is read by its digits, and no number is taken for a date, because a sign or a colon stands behind the leading
digits of a date or a time and behind those of no number.
-/

namespace PeerWarden.Toml.Grammar

open PeerWarden.Number (valueIn)

variable {s ds rest : List Char}

/-! ## What comes behind a value -/

/-- What follows a value: some blanks, and then the end of its line, a comment, or a sign that ends an item. -/
def EndsValue (rest : List Char) : Prop :=
  ∃ b more, Blanks b ∧ rest = b ++ more ∧ ∀ c ∈ more.head?, c ∈ ['#', '\n', '\r', ',', ']', '\x7d']

/-- The characters with which it may start. -/
def isEnd (c : Char) : Bool := c ∈ [' ', '\t', '#', '\n', '\r', ',', ']', '\x7d']

theorem EndsValue.head (h : EndsValue rest) : ∀ c ∈ rest.head?, isEnd c = true := by
  obtain ⟨b, more, hb, rfl, hmore⟩ := h
  intro c hc
  cases b with
  | nil =>
    have := hmore c hc
    simp only [List.mem_cons, List.not_mem_nil, or_false] at this
    obtain rfl | rfl | rfl | rfl | rfl | rfl := this <;> decide
  | cons d b =>
    have hd := hb d List.mem_cons_self
    cases hc
    obtain rfl | rfl := isBlank_iff.mp hd <;> decide

/-- A character that does not end values does not follow one. -/
theorem EndsValue.nextNot (h : EndsValue rest) {p : Char → Prop} (hp : ∀ c, isEnd c = true → ¬p c) : NextNot p rest :=
  fun c hc => hp c (h.head c hc)

theorem forall_isEnd {p : Char → Prop} : (∀ c, isEnd c = true → p c) ↔
    p ' ' ∧ p '\t' ∧ p '#' ∧ p '\n' ∧ p '\r' ∧ p ',' ∧ p ']' ∧ p '\x7d' := by
  simp [isEnd]

/-! ## Digits -/

/-- No digits go on with one of these characters. -/
def EndsDigits (isDigit : Char → Bool) (rest : List Char) : Prop := NextNot (fun c => isDigit c = true ∨ c = '_') rest

theorem moreDigits_append {isDigit : Char → Bool} (hunderscore : isDigit '_' = false) (h : MoreDigits isDigit s ds)
    (hrest : EndsDigits isDigit rest) : moreDigits isDigit (s ++ rest) = some (ds, rest) := by
  induction h with
  | nil =>
    cases rest with
    | nil => rfl
    | cons c rest =>
      obtain ⟨hdigit, hne⟩ := not_or.mp (hrest c rfl)
      simp [moreDigits, hdigit, hne]
  | @digit d s ds hd hs ih =>
    have hne : d ≠ '_' := by
      rintro rfl
      rw [hunderscore] at hd
      cases hd
    simp [moreDigits, hne, hd, ih, consRead]
  | underscore hd hs ih => simp [moreDigits, hd, ih, consRead]

theorem someDigits_append {isDigit : Char → Bool} (hunderscore : isDigit '_' = false) (h : Digits isDigit s ds)
    (hrest : EndsDigits isDigit rest) : someDigits isDigit (s ++ rest) = some (ds, rest) := by
  obtain ⟨hd, hs⟩ := h
  simp [someDigits, hd, moreDigits_append hunderscore hs hrest, consRead]

/-! ## The parts of a number -/

/-- No number in base ten goes on with one of these characters. -/
def EndsNumber (rest : List Char) : Prop :=
  NextNot (fun c => c.isDigit = true ∨ c = '_' ∨ c = '.' ∨ c = 'e' ∨ c = 'E') rest

theorem EndsNumber.endsDigits (h : EndsNumber rest) : EndsDigits Char.isDigit rest :=
  fun c hc hor => h c hc (hor.imp_right .inl)

theorem wholeDigits_append (h : Whole s ds) (hrest : EndsDigits Char.isDigit rest) :
    wholeDigits (s ++ rest) = some (ds, rest) := by
  cases h with
  | zero => rfl
  | digits h hfirst =>
    rw [wholeDigits]
    · exact someDigits_append (by decide) h hrest
    · intro more heq
      cases h with
      | mk hd hs => exact hfirst (by simp_all)

theorem fraction_append {places : Option (List Char)} (h : Fraction s places)
    (hrest : NextNot (fun c => c.isDigit = true ∨ c = '_' ∨ c = '.') rest) :
    fraction (s ++ rest) = some (places, rest) := by
  cases h with
  | none =>
    cases rest with
    | nil => rfl
    | cons c rest =>
      have hne : c ≠ '.' := fun heq => hrest c rfl (.inr (.inr heq))
      simp [fraction, hne]
  | some h =>
    have hdigits : EndsDigits Char.isDigit rest := fun c hc hor => hrest c hc (hor.imp_right .inl)
    simp [fraction, someDigits_append (by decide) h hdigits]

theorem exponentDigits_append {sign : List Char} {negative : Bool} (hsign : Sign sign negative)
    (h : Digits Char.isDigit s ds) (hrest : EndsDigits Char.isDigit rest) :
    exponentDigits (sign ++ (s ++ rest)) = some (if negative then -(valueIn 10 ds : Int) else valueIn 10 ds, rest) := by
  have hread := someDigits_append (by decide) h hrest
  cases hsign with
  | none =>
    obtain ⟨hd, hs⟩ := h
    rw [List.nil_append, exponentDigits, hread]
    · rfl
    · rintro more heq
      cases heq
      cases hd
    · rintro more heq
      cases heq
      cases hd
  | plus => simp [exponentDigits, hread]
  | minus => simp [exponentDigits, hread]

theorem exponent_append {exponent : Option Int} (h : Exponent s exponent) (hrest : EndsNumber rest) :
    Toml.exponent (s ++ rest) = some (exponent, rest) := by
  cases h with
  | none =>
    cases rest with
    | nil => rfl
    | cons c rest =>
      have hc := hrest c rfl
      simp only [not_or] at hc
      simp [Toml.exponent, hc]
  | some hletter hsign h =>
    have hread := exponentDigits_append hsign h hrest.endsDigits
    obtain rfl | rfl := hletter <;> simp [Toml.exponent, hread]

/-- What stands behind the whole part of a number. -/
theorem nextNot_tail {fraction e : List Char} {places : Option (List Char)} {exponent : Option Int}
    (hplaces : Fraction fraction places) (hexponent : Exponent e exponent) (hrest : EndsValue rest) :
    ∀ c ∈ (fraction ++ (e ++ rest)).head?, c = '.' ∨ c = 'e' ∨ c = 'E' ∨ isEnd c = true := by
  intro c hc
  cases hplaces with
  | some => cases hc; exact .inl rfl
  | none =>
    cases hexponent with
    | some hletter => cases hc; exact .inr (hletter.imp_right .inl)
    | none => exact .inr (.inr (.inr (hrest.head c hc)))

theorem decimalNumber_append {negative : Bool} {fraction e : List Char} {places : Option (List Char)}
    {exponent : Option Int} {v : Scalar} (h : Whole s ds) (hplaces : Fraction fraction places)
    (hexponent : Exponent e exponent) (hvalue : assemble? negative ds places exponent = some v)
    (hrest : EndsValue rest) :
    decimalNumber negative (s ++ (fraction ++ (e ++ rest))) = some (v, rest) := by
  have hnumber : EndsNumber rest := hrest.nextNot (forall_isEnd.mpr (by decide))
  have hwhole : EndsDigits Char.isDigit (fraction ++ (e ++ rest)) := by
    intro c hc
    obtain rfl | rfl | rfl | hend := nextNot_tail hplaces hexponent hrest c hc
    · decide
    · decide
    · decide
    · exact (forall_isEnd (p := fun c => ¬(c.isDigit = true ∨ c = '_'))).mpr (by decide) c hend
  have hfraction : NextNot (fun c => c.isDigit = true ∨ c = '_' ∨ c = '.') (e ++ rest) := by
    intro c hc
    cases hexponent with
    | some hletter => cases hc; obtain rfl | rfl := hletter <;> decide
    | none =>
      exact hrest.nextNot (p := fun c => c.isDigit = true ∨ c = '_' ∨ c = '.') (forall_isEnd.mpr (by decide)) c hc
  simp [decimalNumber, wholeDigits_append h hwhole, fraction_append hplaces hfraction,
    exponent_append hexponent hnumber,
    hvalue]

theorem assemble?_integer {negative : Bool} {n : Int}
    (hn : n = if negative then -(valueIn 10 ds : Int) else valueIn 10 ds) (hmin : minInteger ≤ n)
    (hmax : n ≤ maxInteger) :
    assemble? negative ds none none = some (.integer n) := by
  rw [assemble?, ← hn, integer?, if_pos ⟨hmin, hmax⟩]

theorem assemble?_real {negative : Bool} {places : Option (List Char)} {exponent : Option Int}
    (hreal : places.isSome ∨ exponent.isSome)
    (hfits : negative = true ∨ (decimalOf negative ds places exponent).toFloat.isInf = false) :
    assemble? negative ds places exponent = some (.real (decimalOf negative ds places exponent).toFloat) := by
  have hif : ((decimalOf negative ds places exponent).toFloat.isInf && !negative) = false := by
    obtain rfl | hfits := hfits
    · simp
    · simp [hfits]
  have hassemble : assemble? negative ds places exponent =
      if (decimalOf negative ds places exponent).toFloat.isInf && !negative then none
      else some (.real (decimalOf negative ds places exponent).toFloat) := by
    cases places <;> cases exponent <;> first | rfl | simp at hreal
  rw [hassemble, hif]
  rfl

/-! ## Numbers -/

/-- What stands behind the sign of a number in base ten, and its value. -/
inductive Unsigned (negative : Bool) : List Char → Scalar → Prop
  | mk {s ds fraction places e exponent v} (h : Whole s ds) (hplaces : Fraction fraction places)
      (hexponent : Exponent e exponent) (hvalue : assemble? negative ds places exponent = some v) :
      Unsigned negative (s ++ (fraction ++ e)) v

theorem digit_of_whole (h : Whole s ds) : ∃ c tail, s = c :: tail ∧ c.isDigit = true := by
  cases h with
  | zero => exact ⟨_, _, rfl, by decide⟩
  | digits h =>
    obtain ⟨hd, hs⟩ := h
    exact ⟨_, _, rfl, hd⟩

theorem unsignedNumber_append {negative : Bool} {v : Scalar} (h : Unsigned negative s v) (hrest : EndsValue rest) :
    unsignedNumber negative (s ++ rest) = some (v, rest) := by
  obtain ⟨h, hplaces, hexponent, hvalue⟩ := h
  obtain ⟨c, tail, rfl, hc⟩ := digit_of_whole h
  have hread := decimalNumber_append h hplaces hexponent hvalue hrest
  simp only [List.append_assoc]
  rw [unsignedNumber, hread]
  · rintro more heq
    obtain ⟨rfl, -⟩ := List.cons.inj heq
    cases hc
  · rintro more heq
    obtain ⟨rfl, -⟩ := List.cons.inj heq
    cases hc

/-- Behind a single zero no letter of a base follows. -/
theorem number_unsigned {v : Scalar} (h : Unsigned false s v) (hrest : EndsValue rest) :
    number (s ++ rest) = some (v, rest) := by
  rw [← unsignedNumber_append h hrest]
  cases h with
  | @mk s ds fraction places e exponent v h hplaces hexponent hvalue =>
    have htail := nextNot_tail hplaces hexponent hrest
    have hletter : ∀ c ∈ ['x', 'o', 'b'], ¬(c = '.' ∨ c = 'e' ∨ c = 'E' ∨ isEnd c = true) := by simp [isEnd]
    simp only [List.append_assoc]
    cases h with
    | zero =>
      have hbase {c : Char} (hc : c ∈ ['x', 'o', 'b']) (more : List Char) :
          ['0'] ++ (fraction ++ (e ++ rest)) ≠ '0' :: c :: more := by
        intro heq
        have heq : fraction ++ (e ++ rest) = c :: more := (List.cons.inj heq).2
        exact hletter c hc (htail c (by rw [heq]; rfl))
      rw [number]
      · exact hbase (by decide)
      · exact hbase (by decide)
      · exact hbase (by decide)
      all_goals
        intro more heq
        cases heq
    | digits h hfirst =>
      cases h with
      | @mk d s ds hd hs =>
        have hzero : d ≠ '0' := fun heq => hfirst (congrArg some heq)
        have hplus : d ≠ '+' := by rintro rfl; cases hd
        have hminus : d ≠ '-' := by rintro rfl; cases hd
        simp [number, hzero, hplus, hminus]

theorem number_sign {sign : List Char} {negative : Bool} {v : Scalar} (hsign : Sign sign negative)
    (h : Unsigned negative s v) (hrest : EndsValue rest) : number (sign ++ (s ++ rest)) = some (v, rest) := by
  cases hsign with
  | none => exact number_unsigned h hrest
  | plus => exact unsignedNumber_append h hrest
  | minus => exact unsignedNumber_append h hrest

theorem basedInteger_append {letter : Char} {base : Nat} {isDigit : Char → Bool} (hbase : Base letter base isDigit)
    (h : Digits isDigit s ds) (hmax : valueIn base ds ≤ maxInteger) (hrest : EndsValue rest) :
    basedInteger base isDigit (s ++ rest) = some (.integer (valueIn base ds), rest) := by
  have hmin : minInteger ≤ (valueIn base ds : Int) := by
    unfold minInteger
    omega
  have hread : someDigits isDigit (s ++ rest) = some (ds, rest) := by
    cases hbase
    · exact someDigits_append (by decide) h (hrest.nextNot (forall_isEnd.mpr (by decide)))
    · exact someDigits_append (by decide) h (hrest.nextNot (forall_isEnd.mpr (by decide)))
    · exact someDigits_append (by decide) h (hrest.nextNot (forall_isEnd.mpr (by decide)))
  simp [basedInteger, hread, integer?, hmin, hmax]

theorem number_append {v : Scalar} (h : Numeral s v) (hrest : EndsValue rest) :
    number (s ++ rest) = some (v, rest) := by
  cases h with
  | based hbase h hmax =>
    have hread := basedInteger_append hbase h hmax hrest
    cases hbase <;> exact hread
  | integer hsign h hn hmin hmax =>
    have hunsigned := Unsigned.mk h .none .none (assemble?_integer hn hmin hmax)
    simpa using number_sign hsign hunsigned hrest
  | real hsign h hplaces hexponent hreal hfits =>
    have hunsigned := Unsigned.mk h hplaces hexponent (assemble?_real hreal hfits)
    simpa using number_sign hsign hunsigned hrest
  | infinite hsign => cases hsign <;> rfl
  | nan hsign => cases hsign <;> rfl

/-! ## Dates and times -/

theorem fixedDigits_append {count : Nat} (h : Fixed count s) (rest : List Char) :
    fixedDigits count (s ++ rest) = some (valueIn 10 s, rest) := by
  obtain ⟨rfl, hdigits⟩ := h
  simpa [fixedDigits] using hdigits

theorem fixed_of_fixedDigits {count n : Nat} (h : fixedDigits count s = some (n, rest)) :
    ∃ d, Fixed count d ∧ s = d ++ rest := by
  unfold fixedDigits at h
  dsimp only at h
  split at h
  next hdigits =>
    cases h
    exact ⟨s.take count, ⟨hdigits.1, List.all_eq_true.mp hdigits.2⟩, (List.take_append_drop count s).symm⟩
  next => cases h

theorem exactly_cons (c : Char) (rest : List Char) : exactly c (c :: rest) = some ((), rest) := by simp [exactly]

theorem bind_of_eq_some {α β : Type} {x : Option α} {f : α → Option β} {a : α} {result : Option β} (h : x = some a)
    (hf : f a = result) : x.bind f = result := by
  rw [h]
  exact hf

theorem bind_of_eq_none {α β : Type} {x : Option α} {f : α → Option β} (h : x = none) : x.bind f = none := by
  rw [h]
  rfl

theorem date_append (h : DateText s) (rest : List Char) : date (s ++ rest) = some ((), rest) := by
  obtain ⟨hy, hm, hd, hmonth, hday⟩ := h
  simp only [List.append_assoc, List.cons_append]
  refine bind_of_eq_some (fixedDigits_append hy _) (bind_of_eq_some (exactly_cons '-' _) ?_)
  refine bind_of_eq_some (fixedDigits_append hm _) (bind_of_eq_some (exactly_cons '-' _) ?_)
  exact bind_of_eq_some (fixedDigits_append hd _) (bind_of_eq_some (if_pos ⟨hmonth.1, hmonth.2, hday⟩) rfl)

theorem hourMinute_append (h : HourMinute s) (rest : List Char) : hourMinute (s ++ rest) = some ((), rest) := by
  obtain ⟨hh, hm, hhour, hminute⟩ := h
  simp only [List.append_assoc, List.cons_append]
  refine bind_of_eq_some (fixedDigits_append hh _) (bind_of_eq_some (exactly_cons ':' _) ?_)
  exact bind_of_eq_some (fixedDigits_append hm _) (bind_of_eq_some (if_pos ⟨hhour, hminute⟩) rfl)

theorem skipFraction_append (h : SecondFraction s) (hrest : NextNot (fun c => c.isDigit = true ∨ c = '.') rest) :
    skipFraction (s ++ rest) = rest := by
  cases h with
  | none =>
    cases rest with
    | nil => rfl
    | cons c rest =>
      have hne : c ≠ '.' := fun heq => hrest c rfl (.inr heq)
      simp [skipFraction, hne]
  | some hd hs =>
    have hdrop : rest.dropWhile Char.isDigit = rest := by
      cases rest with
      | nil => rfl
      | cons c rest => rw [List.dropWhile_cons_of_neg fun hc => hrest c rfl (.inl hc)]
    simp only [List.cons_append, skipFraction, hd, if_true]
    rw [List.dropWhile_append_of_pos hs, hdrop]

theorem timeOfDay_append (h : TimeText s) (hrest : NextNot (fun c => c.isDigit = true ∨ c = '.') rest) :
    timeOfDay (s ++ rest) = some ((), rest) := by
  obtain ⟨hhm, hs, hsecond, hf⟩ := h
  simp only [List.append_assoc, List.cons_append]
  refine bind_of_eq_some (hourMinute_append hhm _) (bind_of_eq_some (exactly_cons ':' _) ?_)
  refine bind_of_eq_some (fixedDigits_append hs _) (bind_of_eq_some (if_pos hsecond) ?_)
  exact congrArg (fun more => some ((), more)) (skipFraction_append hf hrest)

theorem skipOffset_append (h : Offset s) (hrest : EndsValue rest) : skipOffset (s ++ rest) = rest := by
  cases h with
  | none =>
    cases rest with
    | nil => rfl
    | cons c rest =>
      have hc :=
        hrest.nextNot (p := fun c => c = 'Z' ∨ c = 'z' ∨ c = '+' ∨ c = '-') (forall_isEnd.mpr (by decide)) c rfl
      simp only [not_or] at hc
      simp [skipOffset, hc]
  | universal hc => obtain rfl | rfl := hc <;> rfl
  | fixed hc hhm => obtain rfl | rfl := hc <;> simp [skipOffset, hourMinute_append hhm]

/-! ## What is no date and no time -/

/-- Some digits at the start, and then a given character. -/
def Stamped (c : Char) (s : List Char) : Prop :=
  ∃ d digits more, d.isDigit = true ∧ (∀ x ∈ digits, x.isDigit = true) ∧ s = d :: digits ++ c :: more

theorem stamped_of_fixed {count : Nat} {d more : List Char} (h : Fixed (count + 1) d) (c : Char) :
    Stamped c (d ++ c :: more) := by
  obtain ⟨hlength, hdigits⟩ := h
  obtain ⟨x, d, rfl⟩ := List.exists_cons_of_length_eq_add_one hlength
  obtain ⟨hx, hd⟩ := List.forall_mem_cons.mp hdigits
  exact ⟨x, d, more, hx, hd, rfl⟩

theorem eq_cons_of_exactly {c : Char} {r : Unit × List Char} (h : exactly c s = some r) : s = c :: r.2 := by
  cases s with
  | nil => cases h
  | cons d s =>
    by_cases hd : d = c
    · simp only [exactly, hd, if_true] at h
      cases h
      rw [hd]
    · simp [exactly, hd] at h

theorem stamped_of_fixedDigits {count n : Nat} {c : Char} {more : List Char} {r : Unit × List Char}
    (hdigits : fixedDigits (count + 1) s = some (n, more)) (hc : exactly c more = some r) : Stamped c s := by
  obtain ⟨d, hfixed, rfl⟩ := fixed_of_fixedDigits hdigits
  rw [eq_cons_of_exactly hc]
  exact stamped_of_fixed hfixed c

theorem date_eq_none (h : ¬Stamped '-' s) : date s = none := by
  cases hyear : fixedDigits 4 s with
  | none => exact bind_of_eq_none hyear
  | some year =>
    cases hsign : exactly '-' year.2 with
    | none => exact bind_of_eq_some hyear (bind_of_eq_none hsign)
    | some r => exact absurd (stamped_of_fixedDigits hyear hsign) h

theorem timeOfDay_eq_none (h : ¬Stamped ':' s) : timeOfDay s = none := by
  cases hhour : fixedDigits 2 s with
  | none => exact bind_of_eq_none (bind_of_eq_none hhour)
  | some hour =>
    cases hsign : exactly ':' hour.2 with
    | none => exact bind_of_eq_none (bind_of_eq_some hhour (bind_of_eq_none hsign))
    | some r => exact absurd (stamped_of_fixedDigits hhour hsign) h

theorem moment_eq_none (hdate : ¬Stamped '-' s) (htime : ¬Stamped ':' s) : moment s = none := by
  simp [moment, date_eq_none hdate, timeOfDay_eq_none htime]

/-- Only one character can stand behind the leading digits. -/
theorem stamped_unique {c d : Char} (hc : c.isDigit = false) (hd : d.isDigit = false) (h : Stamped c s)
    (h' : Stamped d s) : c = d := by
  have hdrop {c : Char} (hc : c.isDigit = false) (h : Stamped c s) : (s.dropWhile Char.isDigit).head? = some c := by
    obtain ⟨x, digits, more, hx, hdigits, rfl⟩ := h
    rw [List.dropWhile_append_of_pos (List.forall_mem_cons.mpr ⟨hx, hdigits⟩),
      List.dropWhile_cons_of_neg (by simp [hc])]
    rfl
  exact Option.some.inj ((hdrop hc h).symm.trans (hdrop hd h'))

theorem not_stamped_of_nextNot {c : Char} (h : NextNot (·.isDigit = true) s) : ¬Stamped c s := by
  rintro ⟨d, digits, more, hd, -, rfl⟩
  exact h d rfl hd

/-- What follows a date does not start with a time. -/
theorem skipTime_of_endsValue (hrest : EndsValue rest) : skipTime rest = rest := by
  cases rest with
  | nil => rfl
  | cons c more =>
    have hletter := hrest.nextNot (p := fun c => c = 'T' ∨ c = 't') (forall_isEnd.mpr (by decide)) c rfl
    by_cases hc : c = ' '
    · subst hc
      have hmore : EndsValue more := by
        obtain ⟨b, ends, hb, heq, hends⟩ := hrest
        cases b with
        | nil =>
          have := hends ' ' (by rw [← List.nil_append ends, ← heq]; rfl)
          simp at this
        | cons d b => exact ⟨b, ends, (List.forall_mem_cons.mp hb).2, (List.cons.inj heq).2, hends⟩
      have htime : timeOfDay more = none :=
        timeOfDay_eq_none (not_stamped_of_nextNot (hmore.nextNot (forall_isEnd.mpr (by decide))))
      simp [skipTime, htime]
    · simp [skipTime, hc, not_or.mp hletter]

theorem moment_append (h : Moment s) (hrest : EndsValue rest) : moment (s ++ rest) = some (.moment, rest) := by
  have hdigits : NextNot (fun c => c.isDigit = true ∨ c = '.') rest := hrest.nextNot (forall_isEnd.mpr (by decide))
  cases h with
  | date hd => simp [moment, date_append hd, skipTime_of_endsValue hrest]
  | @both d c t o hd hc ht ho =>
    have hoffset : NextNot (fun c => c.isDigit = true ∨ c = '.') (o ++ rest) := by
      cases ho with
      | none => exact hdigits
      | universal hc => obtain rfl | rfl := hc <;> exact nextNot_cons (by decide)
      | fixed hc => obtain rfl | rfl := hc <;> exact nextNot_cons (by decide)
    simp only [moment, List.append_assoc, List.cons_append, date_append hd, skipTime, hc, if_true,
      timeOfDay_append ht hoffset, Option.map_some, Option.getD_some, skipOffset_append ho hrest]
  | time ht =>
    have hdate : date (s ++ rest) = none := by
      refine date_eq_none fun hdate => ?_
      have htime : Stamped ':' (s ++ rest) := by
        obtain ⟨⟨hh, hm, -, -⟩, hs, -, hf⟩ := ht
        simp only [List.append_assoc, List.cons_append]
        exact stamped_of_fixed hh ':'
      exact absurd (stamped_unique (by decide) (by decide) hdate htime) (by decide)
    simp [moment, hdate, timeOfDay_append ht hdigits]

/-! ## Values without parts -/

theorem stamped_cons {c d : Char} (h : Stamped c (d :: s)) : Stamped c s ∨ s.head? = some c := by
  obtain ⟨x, digits, more, -, hdigits, heq⟩ := h
  obtain ⟨rfl, rfl⟩ := List.cons.inj heq
  cases digits with
  | nil => exact .inr rfl
  | cons y digits =>
    obtain ⟨hy, hdigits⟩ := List.forall_mem_cons.mp hdigits
    exact .inl ⟨y, digits, more, hy, hdigits, rfl⟩

/-- Behind the leading digits of a number stands neither a sign nor a colon. -/
theorem not_stamped_moreDigits {c : Char} (hc : c ≠ '_') (hdigit : c.isDigit = false) (h : MoreDigits Char.isDigit s ds)
    (hrest : NextNot (fun x => x.isDigit = true ∨ x = c) rest) :
    ¬Stamped c (s ++ rest) ∧ (s ++ rest).head? ≠ some c := by
  induction h with
  | nil => exact ⟨not_stamped_of_nextNot fun x hx hd => hrest x hx (.inl hd), fun heq => hrest c heq (.inr rfl)⟩
  | @digit d s ds hd hs ih =>
    refine ⟨fun hstamped => ?_, fun heq => ?_⟩
    · exact (stamped_cons hstamped).elim ih.1 ih.2
    · obtain rfl := Option.some.inj heq
      rw [hdigit] at hd
      cases hd
  | underscore hd hs ih =>
    refine ⟨not_stamped_of_nextNot (nextNot_cons (by decide)), fun heq => hc (Option.some.inj heq).symm⟩

theorem not_stamped_whole {c : Char} (hc : c = '-' ∨ c = ':') (h : Whole s ds)
    (hrest : NextNot (fun x => x.isDigit = true ∨ x = c) rest) : ¬Stamped c (s ++ rest) := by
  have hne : c ≠ '_' := by obtain rfl | rfl := hc <;> decide
  have hdigit : c.isDigit = false := by obtain rfl | rfl := hc <;> decide
  intro hstamped
  cases h with
  | zero =>
    obtain ⟨hnot, hhead⟩ := not_stamped_moreDigits hne hdigit .nil hrest
    exact (stamped_cons hstamped).elim hnot hhead
  | digits h =>
    obtain ⟨hd, hs⟩ := h
    obtain ⟨hnot, hhead⟩ := not_stamped_moreDigits hne hdigit hs hrest
    exact (stamped_cons hstamped).elim hnot hhead

theorem not_stamped_sign {sign : List Char} {negative : Bool} {c : Char} (hsign : Sign sign negative)
    (h : ¬Stamped c s) : ¬Stamped c (sign ++ s) := by
  cases hsign with
  | none => exact h
  | plus => exact not_stamped_of_nextNot (nextNot_cons (by decide))
  | minus => exact not_stamped_of_nextNot (nextNot_cons (by decide))

theorem not_stamped_numeral {c : Char} {v : Scalar} (hc : c = '-' ∨ c = ':') (h : Numeral s v)
    (hrest : EndsValue rest) :
    ¬Stamped c (s ++ rest) := by
  have htail {fraction e : List Char} {places : Option (List Char)} {exponent : Option Int}
      (hplaces : Fraction fraction places) (hexponent : Exponent e exponent) :
      NextNot (fun x => x.isDigit = true ∨ x = c) (fraction ++ (e ++ rest)) := by
    intro x hx
    obtain rfl | rfl | rfl | hend := nextNot_tail hplaces hexponent hrest x hx
    · obtain rfl | rfl := hc <;> decide
    · obtain rfl | rfl := hc <;> decide
    · obtain rfl | rfl := hc <;> decide
    · refine (forall_isEnd (p := fun x => ¬(x.isDigit = true ∨ x = c))).mpr ?_ x hend
      obtain rfl | rfl := hc <;> decide
  cases h with
  | @based letter base isDigit s ds hbase h hmax =>
    have hletter : letter.isDigit = false ∧ letter ≠ c := by
      obtain rfl | rfl := hc <;> cases hbase <;> decide
    intro hstamped
    obtain hstamped | hhead := stamped_cons hstamped
    · exact not_stamped_of_nextNot (nextNot_cons (by simp [hletter.1])) hstamped
    · exact hletter.2 (Option.some.inj hhead)
  | integer hsign h =>
    rw [List.append_assoc]
    exact not_stamped_sign hsign (not_stamped_whole hc h (htail .none .none))
  | real hsign h hplaces hexponent =>
    simp only [List.append_assoc]
    exact not_stamped_sign hsign (not_stamped_whole hc h (htail hplaces hexponent))
  | infinite hsign =>
    rw [List.append_assoc]
    exact not_stamped_sign hsign (not_stamped_of_nextNot (nextNot_cons (by decide)))
  | nan hsign =>
    rw [List.append_assoc]
    exact not_stamped_sign hsign (not_stamped_of_nextNot (nextNot_cons (by decide)))

/-- A sign or a digit. -/
def Leads (c : Char) : Prop := c = '+' ∨ c = '-' ∨ c.isDigit = true

theorem leads_of_sign {sign : List Char} {negative : Bool} (hsign : Sign sign negative) {c : Char} (hc : Leads c)
    (rest : List Char) : ∃ d more, sign ++ c :: rest = d :: more ∧ Leads d := by
  cases hsign with
  | none => exact ⟨c, rest, rfl, hc⟩
  | plus => exact ⟨_, _, rfl, .inl rfl⟩
  | minus => exact ⟨_, _, rfl, .inr (.inl rfl)⟩

/-- A number starts with a sign or a digit, unless it is one of the two names without a sign. -/
theorem head_of_numeral {v : Scalar} (h : Numeral s v) :
    ∃ c more, s = c :: more ∧ (Leads c ∨ c = 'i' ∨ c = 'n') := by
  have hwhole {sign t ds : List Char} {negative : Bool} (hsign : Sign sign negative) (h : Whole t ds)
      (tail : List Char) : ∃ c more, sign ++ (t ++ tail) = c :: more ∧ (Leads c ∨ c = 'i' ∨ c = 'n') := by
    obtain ⟨c, t, rfl, hc⟩ := digit_of_whole h
    obtain ⟨d, more, heq, hd⟩ := leads_of_sign hsign (.inr (.inr hc)) (t ++ tail)
    exact ⟨d, more, heq, .inl hd⟩
  cases h with
  | based => exact ⟨_, _, rfl, .inl (.inr (.inr rfl))⟩
  | integer hsign h => simpa using hwhole hsign h []
  | real hsign h => exact hwhole hsign h _
  | infinite hsign =>
    cases hsign with
    | none => exact ⟨_, _, rfl, .inr (.inl rfl)⟩
    | plus => exact ⟨_, _, rfl, .inl (.inl rfl)⟩
    | minus => exact ⟨_, _, rfl, .inl (.inr (.inl rfl))⟩
  | nan hsign =>
    cases hsign with
    | none => exact ⟨_, _, rfl, .inr (.inr rfl)⟩
    | plus => exact ⟨_, _, rfl, .inl (.inl rfl)⟩
    | minus => exact ⟨_, _, rfl, .inl (.inr (.inl rfl))⟩

theorem digit_of_moment (h : Moment s) : ∃ c more, s = c :: more ∧ c.isDigit = true := by
  have hfixed {count : Nat} {d tail : List Char} (hd : Fixed (count + 1) d) :
      ∃ c more, d ++ tail = c :: more ∧ c.isDigit = true := by
    obtain ⟨hlength, hdigits⟩ := hd
    obtain ⟨x, d, rfl⟩ := List.exists_cons_of_length_eq_add_one hlength
    exact ⟨x, d ++ tail, rfl, hdigits x List.mem_cons_self⟩
  cases h with
  | date hd =>
    obtain ⟨hy, -, -⟩ := hd
    exact hfixed hy
  | both hd =>
    obtain ⟨hy, -, -⟩ := hd
    simpa using hfixed hy
  | time ht =>
    obtain ⟨⟨hh, -, -, -⟩, -, -, -⟩ := ht
    simpa using hfixed hh

theorem quote_of_text (h : Text s ds) : ∃ c more, s = c :: more ∧ (c = '"' ∨ c = '\'') := by
  cases h with
  | line h => cases h <;> exact ⟨_, _, rfl, by decide⟩
  | basicBlock => exact ⟨_, _, rfl, by decide⟩
  | literalBlock => exact ⟨_, _, rfl, by decide⟩

theorem scalar_of_leads {c : Char} (hc : Leads c) (rest : List Char) :
    scalar (c :: rest) = (moment (c :: rest)).or (number (c :: rest)) := by
  have hquotes : ¬(c = '"' ∨ c = '\'') := by
    rintro (rfl | rfl) <;> exact absurd hc (by unfold Leads; decide)
  have hleads : c = '+' ∨ c = '-' ∨ c.isDigit = true := hc
  rw [scalar, if_neg hquotes, if_pos hleads]

theorem scalar_append {v : Scalar} (h : ScalarText s v) (hrest : EndsValue rest) :
    scalar (s ++ rest) = some (v, rest) := by
  cases h with
  | text h =>
    have hread := text_append h (hrest.nextNot (p := fun c => c = '"' ∨ c = '\'') (forall_isEnd.mpr (by decide)))
    obtain ⟨c, more, rfl, hc⟩ := quote_of_text h
    rw [List.cons_append, scalar, if_pos hc, ← List.cons_append, hread]
    rfl
  | number h =>
    have hread := number_append h hrest
    have hmoment : moment (s ++ rest) = none :=
      moment_eq_none (not_stamped_numeral (.inl rfl) h hrest) (not_stamped_numeral (.inr rfl) h hrest)
    obtain ⟨c, more, rfl, hc⟩ := head_of_numeral h
    obtain hc | hc := hc
    · rw [List.cons_append, scalar_of_leads hc, ← List.cons_append, hmoment, hread]
      rfl
    · rw [← hread]
      obtain rfl | rfl := hc <;> rfl
  | moment h =>
    have hread := moment_append h hrest
    obtain ⟨c, more, rfl, hc⟩ := digit_of_moment h
    rw [List.cons_append, scalar_of_leads (.inr (.inr hc)), ← List.cons_append, hread]
    rfl
  | on => rfl
  | off => rfl

/-- The characters with which a value without parts may start. -/
theorem head_of_scalar {v : Scalar} (h : ScalarText s v) :
    ∃ c more, s = c :: more ∧ (Leads c ∨ c ∈ ['"', '\'', 'i', 'n', 't', 'f']) := by
  cases h with
  | text h =>
    obtain ⟨c, more, rfl, hc⟩ := quote_of_text h
    exact ⟨c, more, rfl, .inr (by obtain rfl | rfl := hc <;> decide)⟩
  | number h =>
    obtain ⟨c, more, rfl, hc⟩ := head_of_numeral h
    exact ⟨c, more, rfl, hc.imp_right (by rintro (rfl | rfl) <;> decide)⟩
  | moment h =>
    obtain ⟨c, more, rfl, hc⟩ := digit_of_moment h
    exact ⟨c, more, rfl, .inl (.inr (.inr hc))⟩
  | on => exact ⟨_, _, rfl, .inr (by decide)⟩
  | off => exact ⟨_, _, rfl, .inr (by decide)⟩

end PeerWarden.Toml.Grammar
