import PeerWarden.Proofs.Number.ReadBack
import PeerWarden.Proofs.Toml.Documents
import PeerWarden.Toml.Writer

/-!
# Written Values

Whatever value is written is spelled as the grammar asks, in each of the forms of a text and for every real.

## Main statements

- `text_quote`: a text is spelled in the form that is chosen for it
- `numeral_real`: a real is spelled by its shortest decimal
- `scalarText_scalarText?`: a value is spelled by what is written for it
-/

namespace PeerWarden.Toml.Grammar

open PeerWarden.Number (Binary64 Decimal valueIn)
open Writer

/-! ## Texts -/

theorem hexDigit_upper : ∀ d < 16,
    Number.isHexDigit d.digitChar.toUpper = true ∧ Number.digitValue d.digitChar.toUpper = d := by
  decide

/-- The four digits with which a control character is written. -/
theorem codeEscape_eq {c : Char} (h : c.toNat < 256) :
    codeEscape c = ['\\', 'u', '0', '0', (c.toNat / 16).digitChar.toUpper, (c.toNat % 16).digitChar.toUpper] := by
  unfold codeEscape
  by_cases hsmall : c.toNat < 16
  · rw [Nat.toDigits_of_lt_base hsmall, Nat.div_eq_of_lt hsmall, Nat.mod_eq_of_lt hsmall]
    rfl
  · rw [Nat.toDigits_of_base_le (by decide) (by omega), Nat.toDigits_of_lt_base (by omega)]
    rfl

theorem escape_codeEscape {c : Char} (h : isControl c = true) : ∃ s, codeEscape c = '\\' :: s ∧ Escape s c := by
  have hcode : c.toNat < 256 := by
    simp only [isControl, Bool.or_eq_true, Bool.and_eq_true, decide_eq_true_eq] at h
    obtain ⟨h, -⟩ | rfl := h
    · omega
    · decide
  obtain ⟨hhigh, hhighValue⟩ := hexDigit_upper (c.toNat / 16) (by omega)
  obtain ⟨hlow, hlowValue⟩ := hexDigit_upper (c.toNat % 16) (by omega)
  refine ⟨_, codeEscape_eq hcode, .short rfl ?_ ?_⟩
  · have hzero : Number.isHexDigit '0' = true := by decide
    simp [hhigh, hlow, hzero]
  · simp only [valueIn, List.foldl, hhighValue, hlowValue]
    have : Number.digitValue '0' = 0 := rfl
    omega

/-- A character other than a quote or a line break is written as one between double quotes. -/
theorem basicChar_escapeChar {c : Char} (hquote : c ≠ '"') (hfeed : c ≠ '\n') : BasicChar (escapeChar c) c := by
  unfold escapeChar
  split_ifs with h1 h2 h3 h4 h5 h6
  · subst h1
    exact .escape (.named rfl)
  · subst h2
    exact .escape (.named rfl)
  · subst h3
    exact .escape (.named rfl)
  · subst h4
    exact .escape (.named rfl)
  · subst h5
    exact .escape (.named rfl)
  · obtain ⟨s, heq, h⟩ := escape_codeEscape h6
    rw [heq]
    exact .escape h
  · exact .plain (by simpa using h6) hquote h1

theorem basicLine_escapeLine (cs : List Char) : BasicLine (escapeLine cs) cs := by
  induction cs with
  | nil => exact .nil
  | cons c cs ih =>
    by_cases hfeed : c = '\n'
    · subst hfeed
      exact .cons (.escape (.named rfl)) ih
    · by_cases hquote : c = '"'
      · subst hquote
        exact .cons (.escape (.named rfl)) ih
      · rw [escapeLine]
        · exact .cons (basicChar_escapeChar hquote hfeed) ih
        · exact fun h => hfeed h
        · exact fun h => hquote h

/-- Of three quotes in a row the third is escaped, so that no three are left. -/
theorem basicBlock_escapeBlock (cs : List Char) {quotes : Nat} (h : quotes ≤ 2) :
    BasicBlock quotes (escapeBlock quotes cs) cs := by
  induction cs generalizing quotes with
  | nil => exact .nil
  | cons c cs ih =>
    by_cases hfeed : c = '\n'
    · subst hfeed
      exact .lineBreak .feed (ih (Nat.zero_le 2))
    · by_cases hquote : c = '"'
      · subst hquote
        rw [escapeBlock]
        split_ifs with htwo
        · exact .char (.escape (.named rfl)) (ih (Nat.zero_le 2))
        · exact .quote (by omega) (ih (by omega))
      · rw [escapeBlock]
        · exact .char (basicChar_escapeChar hquote hfeed) (ih (Nat.zero_le 2))
        · exact fun h => hfeed h
        · exact fun h => hquote h

theorem hasTriple_cons {q a : Char} {cs : List Char} (h : hasTriple q (a :: cs) = false) : hasTriple q cs = false := by
  match cs, h with
  | [], _ => rfl
  | [_], _ => rfl
  | b :: c :: rest, h =>
    rw [hasTriple, Bool.or_eq_false_iff] at h
    exact h.2

/-- A text without three quotes in a row stands between three quotes as it is. -/
theorem literalBlock_self (cs : List Char) {quotes : Nat} (hquotes : quotes ≤ 2)
    (htriple : hasTriple '\'' (List.replicate quotes '\'' ++ cs) = false)
    (hcontrol : ∀ c ∈ cs, isControl c = true → c = '\n') : LiteralBlock quotes cs cs := by
  induction cs generalizing quotes with
  | nil => exact .nil
  | cons c cs ih =>
    obtain ⟨hc, hcs⟩ := List.forall_mem_cons.mp hcontrol
    have hrest : hasTriple '\'' (c :: cs) = false := by
      clear ih
      induction quotes with
      | zero => exact htriple
      | succ n ih => exact ih (by omega) (hasTriple_cons htriple)
    by_cases hfeed : c = '\n'
    · subst hfeed
      exact .lineBreak .feed (ih (Nat.zero_le 2) (hasTriple_cons hrest) hcs)
    · by_cases hquote : c = '\''
      · subst hquote
        have htwo : quotes ≠ 2 := by
          rintro rfl
          simp [hasTriple, List.replicate] at htriple
        have hmove : List.replicate quotes '\'' ++ '\'' :: cs = List.replicate (quotes + 1) '\'' ++ cs := by
          rw [List.replicate_succ', List.append_assoc, List.singleton_append]
        rw [hmove] at htriple
        exact .quote (by omega) (ih (by omega) htriple hcs)
      · have hplain : isControl c = false := Bool.eq_false_iff.mpr fun h => hfeed (hc h)
        exact .char hplain hquote (ih (Nat.zero_le 2) (hasTriple_cons hrest) hcs)

/-- The first character of a text between three quotes is no line break unless one was written in front of it. -/
theorem firstBreak_blockStart {cs s : List Char}
    (h : cs.contains '\n' = false → ∀ c ∈ s.head?, c ≠ '\n' ∧ c ≠ '\r') : FirstBreak (blockStart cs) s := by
  unfold blockStart
  split_ifs with hfeed
  · exact .inl .feed
  · exact .inr ⟨rfl, h (by simpa using hfeed)⟩

theorem head_escapeBlock {cs : List Char} (h : cs.contains '\n' = false) :
    ∀ c ∈ (escapeBlock 0 cs).head?, c ≠ '\n' ∧ c ≠ '\r' := by
  have hchar {p : List Char} {c : Char} (hp : BasicChar p c) (rest : List Char) :
      ∀ d ∈ (p ++ rest).head?, d ≠ '\n' ∧ d ≠ '\r' := by
    intro d hd
    cases hp with
    | plain hcontrol =>
      obtain rfl := Option.some.inj hd
      exact ne_lineBreak_of_not_isControl hcontrol
    | escape =>
      obtain rfl := Option.some.inj hd
      decide
  cases cs with
  | nil => simp [escapeBlock]
  | cons c cs =>
    by_cases hquote : c = '"'
    · subst hquote
      simp [escapeBlock]
    · have hfeed : c ≠ '\n' := by
        rintro rfl
        simp at h
      rw [escapeBlock]
      · exact hchar (basicChar_escapeChar hquote hfeed) _
      · exact fun h => hfeed h
      · exact fun h => hquote h

theorem needsEscape_of {c : Char} (h : needsEscape c = false) (hcontrol : isControl c = true) : c = '\n' := by
  simpa [needsEscape, hcontrol] using h

/-- What the choice of a form says about a text. -/
theorem form_literal {cs : List Char} (h : Form.of cs = .literal) : LiteralLine cs := by
  unfold Form.of at h
  dsimp only at h
  split_ifs at h with h1 h2
  simp only [Bool.and_eq_true, Bool.not_eq_true', List.any_eq_false, List.contains_eq_mem,
    decide_eq_false_iff_not] at h2
  obtain ⟨⟨hescape, hquote⟩, hfeed⟩ := h2
  intro c hc
  refine ⟨Bool.eq_false_iff.mpr fun hcontrol => hfeed ?_, fun heq => hquote (heq ▸ hc)⟩
  rw [← needsEscape_of (by simpa using hescape c hc) hcontrol]
  exact hc

theorem form_literalBlock {cs : List Char} (h : Form.of cs = .literalBlock) :
    hasTriple '\'' cs = false ∧ ∀ c ∈ cs, isControl c = true → c = '\n' := by
  unfold Form.of at h
  dsimp only at h
  split_ifs at h with h1 h2 h3 h4
  simp only [Bool.and_eq_true, Bool.not_eq_true', List.any_eq_false] at h4
  exact ⟨h4.2, fun c hc hcontrol => needsEscape_of (by simpa using h4.1 c hc) hcontrol⟩

/-- A text is spelled in the form that is chosen for it. -/
theorem text_quote (cs : List Char) : Text (quoteAs cs (.of cs)) cs := by
  cases hform : Form.of cs with
  | basic => exact .line (.basic (basicLine_escapeLine cs))
  | literal => exact .line (.literal (form_literal hform))
  | basicBlock =>
    have hbreak := firstBreak_blockStart (s := escapeBlock 0 cs) head_escapeBlock
    simpa [quoteAs] using Text.basicBlock hbreak (basicBlock_escapeBlock cs (Nat.zero_le 2))
  | literalBlock =>
    obtain ⟨htriple, hcontrol⟩ := form_literalBlock hform
    have hbreak : FirstBreak (blockStart cs) cs := by
      refine firstBreak_blockStart fun hfeed => ?_
      have hfeed : '\n' ∉ cs := by simpa using hfeed
      intro c hc
      have hmem := List.mem_of_head? hc
      refine ⟨fun heq => hfeed (heq ▸ hmem), ?_⟩
      rintro rfl
      cases hcontrol _ hmem (by decide)
    simpa [quoteAs] using Text.literalBlock hbreak (literalBlock_self cs (Nat.zero_le 2) htriple hcontrol)

theorem nameText_nameText (n : String) : NameText (nameText n).toList n := by
  unfold nameText
  split_ifs with h
  · obtain ⟨hbare, hne⟩ := Bool.and_eq_true_iff.mp h
    have hne : n.toList ≠ [] := by simpa using hne
    simpa using NameText.bare hne (List.all_eq_true.mp hbare)
  · rw [String.toList_ofList]
    simpa using NameText.quoted (.basic (basicLine_escapeLine n.toList))

/-! ## Digits -/

theorem valueIn_eq {ds : List Char} (h : ∀ d ∈ ds, d.isDigit = true) (n : ℕ) :
    ds.foldl (fun n c => 10 * n + Number.digitValue c) n = Nat.ofDigitChars 10 ds n := by
  induction ds generalizing n with
  | nil => rfl
  | cons d ds ih =>
    obtain ⟨hd, hds⟩ := List.forall_mem_cons.mp h
    rw [List.foldl_cons, Nat.ofDigitChars_cons, ← ih hds, Number.digitValue, if_pos hd]

/-- The value of a run of decimal digits that other digits follow. -/
theorem valueIn_append {ds ds' : List Char} (h : ∀ d ∈ ds, d.isDigit = true) (h' : ∀ d ∈ ds', d.isDigit = true) :
    valueIn 10 (ds ++ ds') = valueIn 10 ds * 10 ^ ds'.length + valueIn 10 ds' := by
  rw [valueIn, List.foldl_append, valueIn_eq h', valueIn, valueIn_eq h, Nat.ofDigitChars_eq_ofDigitChars_zero, valueIn,
    valueIn_eq h', Nat.mul_comm]

theorem isDigit_toDigits {n : ℕ} : ∀ d ∈ Nat.toDigits 10 n, d.isDigit = true :=
  fun _ hd => Nat.isDigit_of_mem_toDigits (by decide) (by decide) hd

theorem valueIn_toDigits (n : ℕ) : valueIn 10 (Nat.toDigits 10 n) = n := by
  rw [valueIn, valueIn_eq isDigit_toDigits, Nat.ofDigitChars_toDigits (by decide) (by decide)]

theorem head_toDigits {n : ℕ} (hn : 0 < n) : (Nat.toDigits 10 n).head? ≠ some '0' := by
  induction n using Nat.strong_induction_on with
  | _ n ih =>
    rcases Nat.lt_or_ge n 10 with hlt | hge
    · rw [Nat.toDigits_of_lt_base hlt]
      interval_cases n <;> decide
    · rw [Nat.toDigits_of_base_le (by decide) hge, List.head?_append_of_ne_nil _ Nat.toDigits_ne_nil]
      exact ih (n / 10) (by omega) (by omega)

theorem moreDigits_self {ds : List Char} (h : ∀ d ∈ ds, d.isDigit = true) : MoreDigits Char.isDigit ds ds := by
  induction ds with
  | nil => exact .nil
  | cons d ds ih =>
    obtain ⟨hd, hds⟩ := List.forall_mem_cons.mp h
    exact .digit hd (ih hds)

theorem digits_self {ds : List Char} (hne : ds ≠ []) (h : ∀ d ∈ ds, d.isDigit = true) : Digits Char.isDigit ds ds := by
  obtain ⟨d, ds, rfl⟩ := List.exists_cons_of_ne_nil hne
  obtain ⟨hd, hds⟩ := List.forall_mem_cons.mp h
  exact .mk hd (moreDigits_self hds)

theorem whole_toDigits (n : ℕ) : Whole (Nat.toDigits 10 n) (Nat.toDigits 10 n) := by
  rcases Nat.eq_zero_or_pos n with rfl | hn
  · exact .zero
  · exact .digits (digits_self Nat.toDigits_ne_nil isDigit_toDigits) (head_toDigits hn)

theorem toList_toString_nat (n : ℕ) : (toString n).toList = Nat.toDigits 10 n := by
  simp [Nat.repr_eq_ofList_toDigits]

/-! ## Numbers -/

theorem numeral_integer {n : ℤ} (hmin : minInteger ≤ n) (hmax : n ≤ maxInteger) :
    Numeral (toString n).toList (.integer n) := by
  obtain ⟨k, rfl⟩ | ⟨k, rfl⟩ : (∃ k : ℕ, n = k) ∨ ∃ k : ℕ, n = -(k + 1 : ℕ) := by
    cases n with
    | ofNat k => exact .inl ⟨k, rfl⟩
    | negSucc k => exact .inr ⟨k, rfl⟩
  · have h := Numeral.integer (n := (k : ℤ)) .none (whole_toDigits k) (by simp [valueIn_toDigits]) hmin hmax
    have htext : (toString (k : ℤ)).toList = Nat.toDigits 10 k := by
      rw [Int.toString_eq_repr, Int.repr_eq_if]
      simp [Nat.repr_eq_ofList_toDigits]
    rw [htext]
    exact h
  · have h := Numeral.integer (n := -((k + 1 : ℕ) : ℤ)) .minus (whole_toDigits (k + 1))
      (by simp [valueIn_toDigits]) hmin
      hmax
    have htext : (toString (-((k + 1 : ℕ) : ℤ))).toList = '-' :: Nat.toDigits 10 (k + 1) := by
      rw [Int.toString_eq_repr, Int.repr_eq_if, if_neg (by omega), neg_neg, Int.toNat_natCast]
      simp [Nat.repr_eq_ofList_toDigits]
    rw [htext]
    exact h

theorem toList_pushn (c : Char) (n : ℕ) : ("".pushn c n).toList = List.replicate n c := by
  rw [String.pushn_eq_repeat_push]
  induction n with
  | zero => rfl
  | succ n ih =>
    show (((n.repeat (fun s => s.push c) "")).push c).toList = _
    rw [String.toList_push, ih, List.replicate_succ']

theorem valueIn_zeros (n : ℕ) : valueIn 10 (List.replicate n '0') = 0 := by
  have hzeros : ∀ d ∈ List.replicate n '0', d.isDigit = true := by
    rintro d hd
    rw [List.eq_of_mem_replicate hd]
    decide
  rw [valueIn, valueIn_eq hzeros, Nat.ofDigitChars_replicate_zero, Nat.mul_zero]

/-- The text of a number with a point has digits on both sides of it. -/
theorem toList_positional (digits n : ℕ) : ∃ places : List Char,
    places.length = n + 1 ∧ (∀ d ∈ places, d.isDigit = true) ∧
      (Decimal.positional digits (.negSucc n)).toList =
        Nat.toDigits 10 (digits / Number.tenTo (n + 1)) ++ '.' :: places ∧
      valueIn 10 (Nat.toDigits 10 (digits / Number.tenTo (n + 1)) ++ places) = digits := by
  set behind := Nat.toDigits 10 (digits % Number.tenTo (n + 1)) with hbehind
  have hlength : behind.length ≤ n + 1 :=
    (Nat.length_toDigits_le_iff (by decide) (Nat.succ_pos n)).mpr (Nat.mod_lt _ (Number.tenTo_pos _))
  have hzeros : ∀ d ∈ List.replicate (n + 1 - behind.length) '0', d.isDigit = true := by
    rintro d hd
    rw [List.eq_of_mem_replicate hd]
    decide
  have hplaces : ∀ d ∈ List.replicate (n + 1 - behind.length) '0' ++ behind, d.isDigit = true := fun d hd =>
    (List.mem_append.mp hd).elim (hzeros d) (isDigit_toDigits d)
  refine ⟨List.replicate (n + 1 - behind.length) '0' ++ behind, ?_, hplaces, ?_, ?_⟩
  · rw [List.length_append, List.length_replicate]
    omega
  · have hlen : (toString (digits % Number.tenTo (n + 1))).length = behind.length := by
      rw [← String.length_toList, toList_toString_nat]
    simp only [Decimal.positional, String.toList_append, toList_toString_nat, toList_pushn, hlen, List.append_assoc]
    rfl
  · have hlen : (List.replicate (n + 1 - behind.length) '0' ++ behind).length = n + 1 := by
      rw [List.length_append, List.length_replicate]
      omega
    rw [valueIn_append isDigit_toDigits hplaces, valueIn_append hzeros isDigit_toDigits, valueIn_zeros,
      valueIn_toDigits,
      valueIn_toDigits, hlen, Nat.zero_mul, Nat.zero_add]
    exact Nat.div_add_mod' digits (Number.tenTo (n + 1))

/-- The number that the shortest text of a double stands for, apart from its sign. -/
def shortest (m : ℕ) (q : ℤ) : ℚ := if m = 0 then 0 else (Number.Shortest.decimal m q).magnitude

/-- Every decimal for this number is read as the double. -/
theorem toFloat_of_shortest {x : Float} {d : Decimal} {m : ℕ} {q : ℤ}
    (h : Binary64.ofFloat x = .finite d.negative m q) (hvalue : d.magnitude = shortest m q) : d.toFloat = x := by
  obtain ⟨hgrid, hq⟩ := Binary64.onGrid_of_finite h
  rw [← Binary64.toFloat_of_finite h]
  unfold shortest at hvalue
  split_ifs at hvalue with hm
  · have hdigits : d.digits = 0 := by
      have : (10 : ℚ) ^ d.exponent ≠ 0 := by positivity
      simpa [Decimal.magnitude, this] using hvalue
    have hzero : q = Binary64.minExponent := hgrid.full.resolve_left (by omega)
    rw [Decimal.toFloat_of_zero hdigits, hm, hzero]
  · have hpos := Nat.pos_of_ne_zero hm
    exact Decimal.toFloat_of_readsAs (hvalue ▸ Number.Shortest.readsAs_decimal hpos q) hpos hgrid hq

/-- The digits of the shortest text, with a point between them or without one. -/
theorem exists_shortestText (m : ℕ) (q : ℤ) {text : String}
    (htext : text = if m = 0 then "0" else
      Decimal.positional (Number.Shortest.decimal m q).digits (Number.Shortest.decimal m q).exponent) :
    (∃ n : ℕ, text.toList = Nat.toDigits 10 n ∧ shortest m q = n) ∨
      ∃ digits n : ℕ, text = Decimal.positional digits (.negSucc n) ∧
        shortest m q = digits * 10 ^ (-((n + 1 : ℕ) : ℤ)) := by
  subst htext
  unfold shortest
  split_ifs with hm
  · exact .inl ⟨0, rfl, rfl⟩
  · generalize Number.Shortest.decimal m q = d
    obtain ⟨negative, digits, exponent⟩ := d
    cases exponent with
    | ofNat zeros =>
      refine .inl ⟨digits * Number.tenTo zeros, toList_toString_nat _, ?_⟩
      rw [Nat.cast_mul, Number.cast_tenTo]
      exact congrArg _ (zpow_natCast (10 : ℚ) zeros)
    | negSucc n => exact .inr ⟨digits, n, rfl, rfl⟩

theorem magnitude_decimalOf (negative : Bool) (whole places : List Char) :
    (decimalOf negative whole (some places) none).magnitude =
      valueIn 10 (whole ++ places) * 10 ^ (-(places.length : ℤ)) := by
  simp [decimalOf, Decimal.magnitude]

/-- The sign of a number, and whether it has one. -/
def signText (negative : Bool) : List Char := if negative then ['-'] else []

theorem sign_signText (negative : Bool) : Sign (signText negative) negative := by
  cases negative
  · exact .none
  · exact .minus

theorem toList_signed (negative : Bool) (text : String) :
    (Number.signed negative text).toList = signText negative ++ text.toList := by
  cases negative
  · simp [Number.signed, signText]
  · simp [Number.signed, signText]

/-- The sign, the digits in front of the point and those behind it in the text of a real. -/
theorem exists_realText {x : Float} {negative : Bool} {m : ℕ} {q : ℤ} (h : Binary64.ofFloat x = .finite negative m q) :
    ∃ (n : ℕ) (places : List Char), places ≠ [] ∧ (∀ d ∈ places, d.isDigit = true) ∧
      (realText x).toList = signText negative ++ (Nat.toDigits 10 n ++ '.' :: places) ∧
      (decimalOf negative (Nat.toDigits 10 n) (some places) none).toFloat = x := by
  obtain ⟨hnan, hinf⟩ := Binary64.flags_of_finite h
  set text : String := if m = 0 then "0" else
    Decimal.positional (Number.Shortest.decimal m q).digits (Number.Shortest.decimal m q).exponent with htext
  have hplain : (Number.plain x).toList = signText negative ++ text.toList := by
    rw [Number.plain, Number.textWith, h, ← toList_signed]
  have hreal : realText x =
      if (Number.plain x).toList.contains '.' then Number.plain x else Number.plain x ++ ".0" := by
    simp only [realText, hnan, hinf, Bool.false_or, Bool.false_eq_true, if_false]
  obtain ⟨n, hdigits, hvalue⟩ | ⟨digits, n, hpoint, hvalue⟩ := exists_shortestText m q htext
  · -- An integral value is written without a point, and one is added.
    have hnone : (Number.plain x).toList.contains '.' = false := by
      rw [hplain, hdigits, List.contains_eq_mem, decide_eq_false_iff_not, List.mem_append]
      rintro (hmem | hmem)
      · unfold signText at hmem
        split_ifs at hmem <;> simp at hmem
      · cases isDigit_toDigits '.' hmem
    have hzero : ∀ d ∈ ['0'], d.isDigit = true := by simp
    refine ⟨n, ['0'], by simp, hzero, ?_, toFloat_of_shortest h ?_⟩
    · rw [hreal, hnone]
      simp [hplain, hdigits]
    · have hlast : valueIn 10 ['0'] = 0 := rfl
      rw [magnitude_decimalOf, hvalue, valueIn_append isDigit_toDigits hzero, valueIn_toDigits, hlast]
      norm_num
      ring
  · obtain ⟨places, hlength, hplaces, hlist, hdigits⟩ := toList_positional digits n
    have hsome : (Number.plain x).toList.contains '.' = true := by
      rw [hplain, hpoint, hlist]
      simp
    refine ⟨digits / Number.tenTo (n + 1), places, ?_, hplaces, ?_, toFloat_of_shortest h ?_⟩
    · rintro rfl
      cases hlength
    · rw [hreal, hsome, if_pos rfl, hplain, hpoint, hlist]
    · rw [magnitude_decimalOf, hvalue, hdigits, hlength]

/-- A real is spelled by a decimal that is read as it, or by its name. -/
theorem numeral_real (x : Float) : Numeral (realText x).toList (.real x) := by
  cases hx : Binary64.ofFloat x with
  | nan =>
    obtain rfl := Binary64.eq_of_nan hx
    exact .nan .none
  | infinite negative =>
    have hinfinite := Binary64.eq_of_infinite hx
    have htext : (realText x).toList = signText negative ++ ['i', 'n', 'f'] := by
      have hplain : Number.plain x = Number.signed negative "inf" := by rw [Number.plain, Number.textWith, hx]
      have hflags : x.isNaN = false ∧ x.isInf = true := by
        rw [hinfinite]
        cases negative <;> decide
      simp only [realText, hflags.1, hflags.2, hplain, Bool.true_or, Bool.false_eq_true, if_false, if_true]
      rw [toList_signed]
      rfl
    have h := Numeral.infinite (sign_signText negative)
    rw [htext, hinfinite]
    exact h
  | finite negative m q =>
    obtain ⟨n, places, hne, hplaces, htext, hvalue⟩ := exists_realText hx
    have hfits := (Binary64.flags_of_finite hx).2
    have h := Numeral.real (sign_signText negative) (whole_toDigits n) (.some (digits_self hne hplaces)) .none
      (.inl rfl)
      (.inr (hvalue.symm ▸ hfits))
    rw [htext]
    rw [hvalue, List.append_nil] at h
    exact h

theorem scalarText_scalarText? {v : Scalar} {text : String} (h : scalarText? v = some text) :
    ScalarText text.toList v := by
  cases v with
  | text s =>
    cases h
    rw [quote, String.toList_ofList]
    simpa using ScalarText.text (text_quote s.toList)
  | integer n =>
    simp only [scalarText?] at h
    split_ifs at h with hrange
    cases h
    exact .number (numeral_integer hrange.1 hrange.2)
  | real x =>
    cases h
    exact .number (numeral_real x)
  | flag b =>
    cases h
    cases b
    · exact .off
    · exact .on
  | moment => cases h

end PeerWarden.Toml.Grammar
