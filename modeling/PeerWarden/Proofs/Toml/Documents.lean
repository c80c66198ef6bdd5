import PeerWarden.Proofs.Toml.Numerals

/-!
# Reading Documents

Whatever the grammar spells is read. The rounds and the sizes with which the readers are called suffice, because each
round takes at least one character.

## Main statements

- `expr_append`: values are read, with all that stands inside them
- `read?_of_spelled`: documents are read
-/

namespace PeerWarden.Toml.Grammar

variable {s rest : List Char} {size : Nat}

/-! ## What stands around a value -/

theorem endsValue_of_head (h : ∀ c ∈ rest.head?, c ∈ ['#', '\n', '\r', ',', ']', '\x7d']) : EndsValue rest :=
  ⟨[], rest, blanks_nil, rfl, h⟩

theorem endsValue_blanks {b : List Char} (hb : Blanks b) (h : EndsValue rest) : EndsValue (b ++ rest) := by
  obtain ⟨b', more, hb', rfl, hmore⟩ := h
  refine ⟨b ++ b', more, fun c hc => ?_, (List.append_assoc b b' more).symm, hmore⟩
  exact (List.mem_append.mp hc).elim (hb c) (hb' c)

theorem endsValue_lineBreak {br : List Char} (hbr : LineBreak br) (rest : List Char) : EndsValue (br ++ rest) := by
  cases hbr <;> exact endsValue_of_head (by simp)

theorem endsValue_comment {comment : List Char} (h : Comment comment) (hrest : EndsValue rest) :
    EndsValue (comment ++ rest) := by
  cases h with
  | none => exact hrest
  | some => exact endsValue_of_head (by simp)

theorem endsValue_lineEnd (h : LineEnd rest) : EndsValue rest := by
  obtain rfl | ⟨br, more, hbr, rfl⟩ := h
  · exact endsValue_of_head (by simp)
  · exact endsValue_lineBreak hbr more

theorem endsValue_layout {l : List Char} (hl : Layout l) (hrest : EndsValue rest) : EndsValue (l ++ rest) := by
  induction hl with
  | nil => exact hrest
  | @blank c s hc hs ih => exact endsValue_blanks (b := [c]) (by simpa [Blanks] using hc) ih
  | line hcomment hbr hs ih =>
    rw [List.append_assoc, List.append_assoc]
    exact endsValue_comment hcomment (endsValue_lineBreak hbr _)

/-- The characters with which no value starts. -/
def NoStart (c : Char) : Prop := isBlank c = true ∨ c ∈ ['\n', '\r', '#', ']', '\x7d']

theorem not_noStart_of_leads {c : Char} (h : Leads c) : ¬NoStart c := by
  unfold NoStart
  simp only [isBlank_iff, List.mem_cons, List.not_mem_nil, or_false]
  rintro ((rfl | rfl) | rfl | rfl | rfl | rfl | rfl) <;> exact absurd h (by unfold Leads; decide)

theorem nextNot_scalar {v : Scalar} (h : ScalarText s v) (rest : List Char) :
    NextNot (fun c => NoStart c ∨ c = '[' ∨ c = '\x7b') (s ++ rest) := by
  obtain ⟨c, more, rfl, hc⟩ := head_of_scalar h
  refine nextNot_cons (not_or.mpr ⟨?_, ?_⟩)
  · obtain hc | hc := hc
    · exact not_noStart_of_leads hc
    · simp only [List.mem_cons, List.not_mem_nil, or_false] at hc
      unfold NoStart
      obtain rfl | rfl | rfl | rfl | rfl | rfl := hc <;> decide
  · rintro (rfl | rfl) <;> exact absurd hc (by unfold Leads; decide)

theorem nextNot_expr {levels : Nat} {e : Expr} (h : ExprText levels s e) (rest : List Char) :
    NextNot NoStart (s ++ rest) := by
  have hscalar {v : Scalar} (h : ScalarText s v) : NextNot NoStart (s ++ rest) :=
    fun c hc hno => nextNot_scalar h rest c hc (.inl hno)
  cases levels with
  | zero =>
    obtain ⟨v, -, h⟩ := h
    exact hscalar h
  | succ levels =>
    cases h with
    | scalar h => exact hscalar h
    | array => exact nextNot_cons (by unfold NoStart; decide)
    | empty => exact nextNot_cons (by unfold NoStart; decide)
    | inline => exact nextNot_cons (by unfold NoStart; decide)

/-- The characters with which no path starts, blanks aside. -/
def NoName (c : Char) : Prop := c ∈ ['#', '[', '\x7d', '\n', '\r', '\uFEFF']

theorem nextNot_path {p : List Char} {path : Path} (h : PathText p path) (rest : List Char) :
    NextNot (fun c => isBlank c = true ∨ NoName c) (p ++ rest) := by
  cases h with
  | single h => exact nextNot_nameText h rest
  | cons h =>
    rw [List.append_assoc]
    exact nextNot_nameText h _

theorem nextNot_blanks {p : Char → Prop} {b : List Char} (hb : Blanks b) (hblank : ∀ c, isBlank c = true → ¬p c)
    (h : NextNot p rest) : NextNot p (b ++ rest) := by
  cases b with
  | nil => exact h
  | cons c b => exact nextNot_cons (hblank c (hb c List.mem_cons_self))

/-- Blanks aside, a path starts with a name. -/
theorem nextNot_place {p : List Char} {path : Path} (h : Place p path) (rest : List Char) :
    NextNot NoName (p ++ rest) ∧ NextNot NoName (skipBlanks (p ++ rest)) := by
  obtain ⟨hb, h, hb', -⟩ := h
  simp only [List.append_assoc]
  have hpath (rest : List Char) := nextNot_path h rest
  have hname (rest : List Char) : NextNot NoName (_ ++ rest) := fun c hc hno => hpath rest c hc (.inr hno)
  refine ⟨nextNot_blanks hb (fun c hc => ?_) (hname _), ?_⟩
  · obtain rfl | rfl := isBlank_iff.mp hc <;> (unfold NoName; decide)
  · rw [skipBlanks_append hb, skipBlanks_of_nextNot fun c hc hblank => hpath _ c hc (.inl hblank)]
    exact hname _

/-! ## Values -/

/-- A reader takes what a relation spells in at most so many characters. -/
def Takes (reader : Reader Expr) (item : List Char → Expr → Prop) (size : Nat) : Prop :=
  ∀ s e, item s e → s.length ≤ size → ∀ rest, EndsValue rest → reader (s ++ rest) = some (e, rest)

section

variable {reader : Reader Expr} {item : List Char → Expr → Prop}

/-- One item with the layout around it is read up to what follows. -/
theorem items_step {l t l' : List Char} {e : Expr} (hreader : Takes reader item size)
    (hstart : ∀ s e, item s e → ∀ rest, NextNot NoStart (s ++ rest)) (hl : Layout l) (ht : item t e) (hl' : Layout l')
    (hlength : t.length ≤ size) (rounds : Nat) (more : List Char) :
    items reader (rounds + 1) (l ++ (t ++ (l' ++ ']' :: more))) = some ([e], more) ∧
      items reader (rounds + 1) (l ++ (t ++ (l' ++ ',' :: more))) = (items reader rounds more).map (consRead e) := by
  have hfirst (next : List Char) : skipLayout false (l ++ (t ++ next)) = t ++ next := by
    rw [skipLayout_append hl]
    refine skipLayout_of_nextNot fun c hc hlayout => hstart t e ht _ c hc (hlayout.imp_right ?_)
    rintro (rfl | rfl | rfl) <;> decide
  have hopen (next tail : List Char) : t ++ next ≠ ']' :: tail := fun heq =>
    hstart t e ht next ']' (by rw [heq]; rfl) (.inr (by decide))
  have hread {c : Char} (hc : c = ']' ∨ c = ',') :
      reader (t ++ (l' ++ c :: more)) = some (e, l' ++ c :: more) ∧ skipLayout false (l' ++ c :: more) = c :: more := by
    have hends : EndsValue (c :: more) := endsValue_of_head (by obtain rfl | rfl := hc <;> simp)
    refine ⟨hreader t e ht hlength _ (endsValue_layout hl' hends), ?_⟩
    rw [skipLayout_append hl']
    exact skipLayout_of_nextNot (nextNot_cons (by obtain rfl | rfl := hc <;> decide))
  constructor
  · obtain ⟨hread, hskip⟩ := hread (.inl rfl)
    simp [items, hfirst, hopen, hread, hskip]
  · obtain ⟨hread, hskip⟩ := hread (.inr rfl)
    simp [items, hfirst, hopen, hread, hskip]

theorem items_append {es : List Expr} (hreader : Takes reader item size)
    (hstart : ∀ s e, item s e → ∀ rest, NextNot NoStart (s ++ rest)) (h : Items item s es) (hsize : s.length ≤ size)
    {rounds : Nat} (hrounds : s.length ≤ rounds) (rest : List Char) :
    items reader rounds (s ++ rest) = some (es, rest) := by
  induction h generalizing rounds with
  | @nil l hl =>
    obtain ⟨k, rfl⟩ : ∃ k, rounds = k + 1 := ⟨rounds - 1, by simp at hrounds; omega⟩
    have hskip : skipLayout false (l ++ (']' :: rest)) = ']' :: rest := by
      rw [skipLayout_append hl]
      exact skipLayout_of_nextNot (nextNot_cons (by decide))
    simp [items, hskip]
  | @last l t e l' hl ht hl' =>
    obtain ⟨k, rfl⟩ : ∃ k, rounds = k + 1 := ⟨rounds - 1, by simp at hrounds; omega⟩
    have hlength : t.length ≤ size := by simp at hsize; omega
    simpa using (items_step hreader hstart hl ht hl' hlength k rest).1
  | @cons l t e l' more es hl ht hl' hmore ih =>
    obtain ⟨k, rfl⟩ : ∃ k, rounds = k + 1 := ⟨rounds - 1, by simp at hrounds; omega⟩
    have hlength : t.length ≤ size := by simp at hsize; omega
    have hk : more.length ≤ k := by simp at hrounds; omega
    have hread := ih (by simp at hsize; omega) hk
    have hstep := (items_step hreader hstart hl ht hl' hlength k (more ++ rest)).2
    rw [hread] at hstep
    simpa [consRead] using hstep

theorem pair_append {p b t b' more : List Char} {path : Path} {e : Expr} (hreader : Takes reader item size)
    (hstart : ∀ s e, item s e → ∀ rest, NextNot NoStart (s ++ rest)) (hp : Place p path) (hb : Blanks b) (ht : item t e)
    (hb' : Blanks b') (hlength : t.length ≤ size) (hends : EndsValue more) (hskip : skipBlanks more = more) :
    pair reader (p ++ '=' :: (b ++ (t ++ (b' ++ more)))) = some ((path, e), more) := by
  have hpath := path_append hp (endsPath_assign (b ++ (t ++ (b' ++ more))))
  have hfirst : skipBlanks (b ++ (t ++ (b' ++ more))) = t ++ (b' ++ more) := by
    rw [skipBlanks_append hb]
    exact skipBlanks_of_nextNot fun c hc hblank => hstart t e ht _ c hc (.inl hblank)
  have hread := hreader t e ht hlength _ (endsValue_blanks hb' hends)
  simp [pair, hpath, exactly_cons, hfirst, hread, skipBlanks_append hb', hskip]

theorem pairs_append {ps : List (Path × Expr)} (hreader : Takes reader item size)
    (hstart : ∀ s e, item s e → ∀ rest, NextNot NoStart (s ++ rest)) (h : Pairs item s ps) (hsize : s.length ≤ size)
    {rounds : Nat} (hrounds : s.length ≤ rounds) (rest : List Char) :
    pairs reader rounds (s ++ rest) = some (ps, rest) := by
  induction h generalizing rounds with
  | @last p path b t e b' hp hb ht hb' =>
    obtain ⟨k, rfl⟩ : ∃ k, rounds = k + 1 := ⟨rounds - 1, by simp at hrounds; omega⟩
    have hlength : t.length ≤ size := by simp at hsize; omega
    have hends : EndsValue ('\x7d' :: rest) := endsValue_of_head (by simp)
    have hread := pair_append hreader hstart hp hb ht hb' hlength hends
      (skipBlanks_of_nextNot (nextNot_cons (by decide)))
    simp [pairs, hread]
  | @cons p path b t e b' more ps hp hb ht hb' hmore ih =>
    obtain ⟨k, rfl⟩ : ∃ k, rounds = k + 1 := ⟨rounds - 1, by simp at hrounds; omega⟩
    have hlength : t.length ≤ size := by simp at hsize; omega
    have hk : more.length ≤ k := by simp at hrounds; omega
    have hmore := ih (by simp at hsize; omega) hk
    have hends : EndsValue (',' :: (more ++ rest)) := endsValue_of_head (by simp)
    have hread := pair_append hreader hstart hp hb ht hb' hlength hends
      (skipBlanks_of_nextNot (nextNot_cons (by decide)))
    simp [pairs, hread, hmore, consRead]

theorem nextNot_pairs {ps : List (Path × Expr)} (h : Pairs item s ps) (rest : List Char) :
    NextNot NoName (skipBlanks (s ++ rest)) := by
  cases h with
  | last hp =>
    rw [List.append_assoc]
    exact (nextNot_place hp _).2
  | cons hp =>
    rw [List.append_assoc]
    exact (nextNot_place hp _).2

end

theorem expr_append (size levels : Nat) : Takes (expr size levels) (ExprText levels) size := by
  have hscalar {s : List Char} {v : Scalar} (h : ScalarText s v) {rest : List Char} (hrest : EndsValue rest)
      (levels : Nat) : expr size levels (s ++ rest) = some (.scalar v, rest) := by
    have hread := scalar_append h hrest
    have hopen := nextNot_scalar h rest
    rw [expr, hread]
    · rfl
    · intro k more _ heq
      exact hopen '[' (by rw [heq]; rfl) (.inr (.inl rfl))
    · intro k more _ heq
      exact hopen '\x7b' (by rw [heq]; rfl) (.inr (.inr rfl))
  induction levels with
  | zero =>
    rintro s e ⟨v, rfl, h⟩ - rest hrest
    exact hscalar h hrest 0
  | succ levels ih =>
    rintro s e h hsize rest hrest
    have hstart : ∀ s e, ExprText levels s e → ∀ rest, NextNot NoStart (s ++ rest) := fun _ _ h => nextNot_expr h
    cases h with
    | scalar h => exact hscalar h hrest (levels + 1)
    | array h =>
      have hlength := Nat.le_of_succ_le hsize
      simp [expr, items_append ih hstart h hlength hlength]
    | @empty b hb =>
      have hskip : skipBlanks (b ++ '\x7d' :: rest) = '\x7d' :: rest := by
        rw [skipBlanks_append hb]
        exact skipBlanks_of_nextNot (nextNot_cons (by decide))
      simp [expr, hskip]
    | inline h =>
      have hlength := Nat.le_of_succ_le hsize
      have hopen := nextNot_pairs h rest
      have hread := pairs_append ih hstart h hlength hlength rest
      rw [List.cons_append, expr]
      split
      next tail heq => exact absurd (by unfold NoName; decide) (hopen '\x7d' (by rw [heq]; rfl))
      next => rw [hread]; rfl

/-! ## Statements and lines -/

theorem statement_append {st : Statement} (h : StatementText s st) (hsize : s.length ≤ size) (hrest : EndsValue rest) :
    statement size (s ++ rest) = some (st, rest) := by
  cases h with
  | @table p path hp =>
    have hread := path_append hp (endsPath_close rest)
    have hopen := (nextNot_place hp (']' :: rest)).1
    have hone : ∀ more, p ++ ']' :: rest ≠ '[' :: more := fun more heq =>
      hopen '[' (by rw [heq]; rfl) (by unfold NoName; decide)
    simp [statement, hread, exactly_cons]
  | @element p path hp =>
    have hread := path_append hp (endsPath_close (']' :: rest))
    simp [statement, hread, exactly_cons]
  | @assign p path b b' t e hs hlength hb hb' ht =>
    have hplace : Place (p ++ b) path := .mk blanks_nil hs hb hlength
    have hpath := path_append hplace (endsPath_assign (b' ++ (t ++ rest)))
    have hfirst : skipBlanks (b' ++ (t ++ rest)) = t ++ rest := by
      rw [skipBlanks_append hb']
      exact skipBlanks_of_nextNot fun c hc hblank => nextNot_expr ht rest c hc (.inl hblank)
    have hread := expr_append size maxNesting t e ht (by simp at hsize; omega) rest hrest
    have hopen := nextNot_path hs (b ++ '=' :: (b' ++ (t ++ rest)))
    simp only [List.append_assoc, List.cons_append] at hpath ⊢
    rw [statement]
    · simp [hpath, exactly_cons, hfirst, hread]
    · intro more heq
      exact hopen '[' (by rw [heq]; rfl) (.inr (by unfold NoName; decide))
    · intro more heq
      exact hopen '[' (by rw [heq]; rfl) (.inr (by unfold NoName; decide))

/-- A statement starts neither with a blank nor as a line does that says nothing. -/
theorem nextNot_statement {st : Statement} (h : StatementText s st) (rest : List Char) :
    s ++ rest ≠ [] ∧ NextNot (fun c => isBlank c = true ∨ c ∈ ['#', '\n', '\r', '\uFEFF']) (s ++ rest) := by
  cases h with
  | table => exact ⟨by simp, nextNot_cons (by decide)⟩
  | element => exact ⟨by simp, nextNot_cons (by decide)⟩
  | assign hs =>
    rw [List.append_assoc]
    refine ⟨by simp, fun c hc hno => nextNot_path hs _ c hc (hno.imp_right fun hmem => ?_)⟩
    simp only [List.mem_cons, List.not_mem_nil, or_false] at hmem
    unfold NoName
    obtain rfl | rfl | rfl | rfl := hmem <;> decide

theorem skipBlanks_lineEnd (h : LineEnd rest) : skipBlanks rest = rest := by
  obtain rfl | ⟨br, more, hbr, rfl⟩ := h
  · rfl
  · cases hbr <;> exact skipBlanks_of_nextNot (nextNot_cons (by decide))

theorem skipBlanks_comment {comment : List Char} (h : Comment comment) (hrest : LineEnd rest) :
    skipBlanks (comment ++ rest) = comment ++ rest := by
  cases h with
  | none => exact skipBlanks_lineEnd hrest
  | some => exact skipBlanks_of_nextNot (nextNot_cons (by decide))

theorem isSilent_comment {comment : List Char} (h : Comment comment) (hrest : LineEnd rest) :
    isSilent (comment ++ rest) = true := by
  cases h with
  | some => simp [isSilent]
  | none =>
    obtain rfl | ⟨br, more, hbr, rfl⟩ := hrest
    · rfl
    · simp [isSilent, lineBreak?_append hbr]

theorem isSilent_statement {st : Statement} (h : StatementText s st) (rest : List Char) :
    isSilent (s ++ rest) = false := by
  obtain ⟨hne, hnext⟩ := nextNot_statement h rest
  cases heq : s ++ rest with
  | nil => exact absurd heq hne
  | cons c more =>
    rw [heq] at hnext
    have hc := hnext c rfl
    simp only [List.mem_cons, List.not_mem_nil, or_false, not_or] at hc
    simp [isSilent, lineBreak?, hc]

/-- A line is read up to its comment. -/
theorem line_append {said : Option Statement} (h : LineOf s said) (hsize : s.length ≤ size) (hrest : LineEnd rest) :
    ∃ more, line size (s ++ rest) = some (said, more) ∧ skipComment (skipBlanks more) = rest := by
  cases h with
  | @silent b comment hb hcomment =>
    have hskip : skipBlanks (b ++ (comment ++ rest)) = comment ++ rest := by
      rw [skipBlanks_append hb, skipBlanks_comment hcomment hrest]
    refine ⟨comment ++ rest, ?_, ?_⟩
    · rw [List.append_assoc, line, hskip, if_pos (isSilent_comment hcomment hrest)]
    · rw [skipBlanks_comment hcomment hrest, skipComment_append hcomment hrest]
  | @statement b t st b' comment hb ht hb' hcomment =>
    have hends : EndsValue (b' ++ (comment ++ rest)) :=
      endsValue_blanks hb' (endsValue_comment hcomment (endsValue_lineEnd hrest))
    have hlength : t.length ≤ size := by simp at hsize; omega
    have hread := statement_append ht hlength hends
    have hskip : skipBlanks (b ++ (t ++ (b' ++ (comment ++ rest)))) = t ++ (b' ++ (comment ++ rest)) := by
      rw [skipBlanks_append hb]
      exact skipBlanks_of_nextNot fun c hc hblank => (nextNot_statement ht _).2 c hc (.inl hblank)
    refine ⟨b' ++ (comment ++ rest), ?_, ?_⟩
    · simp only [List.append_assoc]
      rw [line, hskip, isSilent_statement ht, hread]
      rfl
    · rw [skipBlanks_append hb', skipBlanks_comment hcomment hrest, skipComment_append hcomment hrest]

theorem statements_lines {sts : List Statement} (h : Lines s sts) (hsize : s.length ≤ size) {rounds : Nat}
    (hrounds : s.length < rounds) : statements size rounds s = some sts := by
  induction h generalizing rounds with
  | @last l said hl =>
    obtain ⟨k, rfl⟩ : ∃ k, rounds = k + 1 := ⟨rounds - 1, by omega⟩
    obtain ⟨more, hline, hmore⟩ := line_append hl hsize lineEnd_nil
    rw [List.append_nil] at hline
    simp [statements, hline, hmore]
  | @cons l said br s sts hl hbr hs ih =>
    obtain ⟨k, rfl⟩ : ∃ k, rounds = k + 1 := ⟨rounds - 1, by omega⟩
    have hlength : l.length ≤ size := by simp at hsize; omega
    obtain ⟨more, hline, hmore⟩ := line_append hl hlength (lineEnd_lineBreak hbr s)
    have hbreak : 0 < br.length := by cases hbr <;> decide
    have hk : s.length < k := by simp at hrounds; omega
    have hread := ih (by simp at hsize; omega) hk
    have hdrop := lineBreak?_append hbr s
    obtain ⟨c, tail, rfl⟩ : ∃ c tail, br = c :: tail := by cases hbr <;> exact ⟨_, _, rfl⟩
    rw [statements, hline]
    simp only [hmore, List.cons_append]
    rw [← List.cons_append, hdrop, Option.bind_some, hread]
    rfl

/-! ## Documents -/

theorem nextNot_line {said : Option Statement} (h : LineOf s said) (hrest : LineEnd rest) :
    NextNot (· = '\uFEFF') (s ++ rest) := by
  have hblank (c : Char) (hc : isBlank c = true) : ¬c = '\uFEFF' := by
    rintro rfl
    cases hc
  cases h with
  | silent hb hcomment =>
    rw [List.append_assoc]
    refine nextNot_blanks hb hblank ?_
    cases hcomment with
    | some => exact nextNot_cons (by decide)
    | none =>
      obtain rfl | ⟨br, more, hbr, rfl⟩ := hrest
      · exact nextNot_nil
      · cases hbr <;> exact nextNot_cons (by decide)
  | statement hb ht =>
    rw [List.append_assoc, List.append_assoc]
    refine nextNot_blanks hb hblank fun c hc heq => (nextNot_statement ht _).2 c hc (.inr ?_)
    simp [heq]

theorem nextNot_lines {sts : List Statement} (h : Lines s sts) : NextNot (· = '\uFEFF') s := by
  cases h with
  | last hl => simpa using nextNot_line hl lineEnd_nil
  | cons hl hbr => exact nextNot_line hl (lineEnd_lineBreak hbr _)

/-- Every document of the grammar is read. -/
theorem read?_of_spelled {text : String} {sts : List Statement} (h : Spelled text sts) : read? text = some sts := by
  have hdrop : ∃ s, dropMark text.toList = s ∧ Lines s sts := by
    obtain h | ⟨s, heq, h⟩ := h
    · refine ⟨text.toList, ?_, h⟩
      have hmark := nextNot_lines h
      rw [dropMark]
      rintro rest heq
      exact hmark '\uFEFF' (by rw [heq]; rfl) rfl
    · exact ⟨s, by rw [heq]; rfl, h⟩
  obtain ⟨s, heq, h⟩ := hdrop
  rw [read?, heq]
  exact statements_lines h (Nat.le_refl _) (Nat.lt_succ_self _)

end PeerWarden.Toml.Grammar
