import PeerWarden.Proofs.Toml.Grammar

/-!
# Reading Texts and Names

Every reader takes what the grammar spells, whatever comes behind it, as long as that cannot be taken for a
continuation.
-/

namespace PeerWarden.Toml.Grammar

variable {s rest : List Char}

/-! ## What comes behind -/

/-- The next character, if there is one, is none of some characters. -/
def NextNot (p : Char → Prop) (rest : List Char) : Prop := ∀ c ∈ rest.head?, ¬p c

/-- The end of a line: its break, or the end of the document. -/
def LineEnd (rest : List Char) : Prop := rest = [] ∨ ∃ br more, LineBreak br ∧ rest = br ++ more

theorem lineEnd_nil : LineEnd [] := .inl rfl

theorem lineEnd_lineBreak {br : List Char} (hbr : LineBreak br) (rest : List Char) : LineEnd (br ++ rest) :=
  .inr ⟨br, rest, hbr, rfl⟩

theorem nextNot_nil {p : Char → Prop} : NextNot p [] := by simp [NextNot]

theorem nextNot_cons {p : Char → Prop} {c : Char} (h : ¬p c) : NextNot p (c :: s) := by simpa [NextNot] using h

/-! ## Blanks, line breaks and comments -/

theorem blanks_nil : Blanks [] := by simp [Blanks]

theorem skipBlanks_append {b : List Char} (hb : Blanks b) (rest : List Char) :
    skipBlanks (b ++ rest) = skipBlanks rest := List.dropWhile_append_of_pos hb

theorem skipBlanks_of_nextNot (h : NextNot (isBlank · = true) rest) : skipBlanks rest = rest := by
  cases rest with
  | nil => rfl
  | cons c rest =>
    have hc : ¬isBlank c = true := h c rfl
    rw [skipBlanks, List.dropWhile_cons_of_neg hc]

theorem lineBreak?_append {br : List Char} (h : LineBreak br) (rest : List Char) :
    lineBreak? (br ++ rest) = some rest := by
  cases h <;> rfl

theorem skipComment_append {comment : List Char} (h : Comment comment) (hrest : LineEnd rest) :
    skipComment (comment ++ rest) = rest := by
  obtain rfl | ⟨br, more, hbr, rfl⟩ := hrest
  · cases h with
    | none => rfl
    | some h => rw [List.cons_append, skipComment, List.dropWhile_append_of_pos (by simpa using h), List.dropWhile_nil]
  · have hhead : ∃ c tail, br = c :: tail ∧ isControl c = true ∧ c ≠ '#' := by
      cases hbr
      · exact ⟨_, _, rfl, by decide, by decide⟩
      · exact ⟨_, _, rfl, by decide, by decide⟩
    obtain ⟨c, tail, rfl, hcontrol, hne⟩ := hhead
    cases h with
    | none => simp [skipComment, hne]
    | some h =>
      rw [List.cons_append, skipComment, List.dropWhile_append_of_pos (by simpa using h), List.cons_append,
        List.dropWhile_cons_of_neg (by simp [hcontrol])]

theorem skipLayout_lineBreak {br : List Char} (hbr : LineBreak br) (inComment : Bool) (rest : List Char) :
    skipLayout inComment (br ++ rest) = skipLayout false rest := by
  cases hbr <;> cases inComment <;> rfl

/-- A comment inside an array ends with its line. -/
theorem skipLayout_comment {s br : List Char} (hs : ∀ c ∈ s, isControl c = false) (hbr : LineBreak br)
    (rest : List Char) : skipLayout true (s ++ (br ++ rest)) = skipLayout false rest := by
  induction s with
  | nil => exact skipLayout_lineBreak hbr true rest
  | cons c s ih =>
    obtain ⟨hc, hs⟩ := List.forall_mem_cons.mp hs
    rw [List.cons_append, skipLayout_inComment hc]
    exact ih hs

theorem skipLayout_append {l : List Char} (h : Layout l) (rest : List Char) :
    skipLayout false (l ++ rest) = skipLayout false rest := by
  induction h with
  | nil => rfl
  | @blank c s hc hs ih =>
    rw [List.cons_append, skipLayout_blank hc]
    exact ih
  | @line comment br s hcomment hbr hs ih =>
    rw [List.append_assoc, List.append_assoc, ← ih]
    cases hcomment with
    | none => exact skipLayout_lineBreak hbr false (s ++ rest)
    | some hcomment =>
      rw [List.cons_append, skipLayout_hash]
      exact skipLayout_comment hcomment hbr (s ++ rest)

theorem skipLayout_of_nextNot
    (h : NextNot (fun c => isBlank c = true ∨ c = '\n' ∨ c = '\r' ∨ c = '#') rest) : skipLayout false rest = rest := by
  cases rest with
  | nil => rfl
  | cons c rest =>
    have hc := h c rfl
    simp only [not_or] at hc
    obtain ⟨hblank, hfeed, hreturn, hhash⟩ := hc
    exact skipLayout_stop hblank hfeed hreturn hhash

/-! ## Escapes -/

theorem codedEscape?_of {digits : List Char} {c : Char} (hdigits : ∀ d ∈ digits, Number.isHexDigit d = true)
    (hcode : Number.valueIn 16 digits = c.toNat) : codedEscape? digits = some c := by
  have hvalid : c.toNat.isValidChar := c.valid
  rw [codedEscape?, if_pos (List.all_eq_true.mpr hdigits), hcode, dif_pos hvalid]
  rfl

theorem escape?_append {c : Char} (h : Escape s c) (rest : List Char) :
    escape? (s ++ rest) = some (c, s.length) := by
  cases h with
  | @named letter _ h =>
    have hshort : letter ≠ 'u' := by rintro rfl; cases h
    have hlong : letter ≠ 'U' := by rintro rfl; cases h
    simp [escape?, h]
  | @short digits _ hlength hdigits hcode =>
    simp [escape?, codedChar?, ← hlength, codedEscape?_of hdigits hcode]
  | @long digits _ hlength hdigits hcode =>
    simp [escape?, codedChar?, ← hlength, codedEscape?_of hdigits hcode]

/-! ## Texts on one line -/

theorem basicText_skip (s rest : List Char) : basicText s.length (s ++ rest) = basicText 0 rest := by
  induction s with
  | nil => rfl
  | cons c s ih => exact ih

theorem basicText_append {cs : List Char} (h : BasicLine s cs) (rest : List Char) :
    basicText 0 (s ++ '"' :: rest) = some (cs, rest) := by
  induction h with
  | nil => exact basicText_quote
  | @cons p c s cs hp hs ih =>
    rw [List.append_assoc]
    cases hp with
    | plain hcontrol hquote hslash => simp [basicText_plain hcontrol hquote hslash, ih, consRead]
    | escape h => simp [basicText_backslash, escape?_append h, basicText_skip, ih, consRead]

theorem literalText_append (h : LiteralLine s) (rest : List Char) :
    literalText (s ++ '\'' :: rest) = some (s, rest) := by
  induction s with
  | nil => rfl
  | cons c s ih =>
    obtain ⟨⟨hcontrol, hquote⟩, hs⟩ := List.forall_mem_cons.mp h
    simp [literalText_plain hcontrol hquote, ih hs, consRead]

theorem lineText_append {cs : List Char} (h : LineText s cs) (rest : List Char) :
    lineText (s ++ rest) = some (cs, rest) := by
  cases h with
  | basic h => simpa [lineText] using basicText_append h rest
  | literal h => simpa [lineText] using literalText_append h rest

/-! ## Texts over several lines -/

theorem blockText_skip (s rest : List Char) : blockText s.length (s ++ rest) = blockText 0 rest := by
  induction s with
  | nil => rfl
  | cons c s ih => exact ih

/-- A reader takes a quote into the text if no two others follow. -/
def TakesQuote (q : Char) (reader : Reader (List Char)) : Prop :=
  ∀ rest, (∀ more, rest ≠ q :: q :: more) → reader (q :: rest) = (reader rest).map (consRead q)

/-- At most two quotes in front of something else belong to the text. -/
theorem TakesQuote.quotes {q : Char} {reader : Reader (List Char)} (hreader : TakesQuote q reader) {n : Nat}
    (hn : n ≤ 2) (h : NextNot (· = q) rest) :
    reader (List.replicate n q ++ rest) = (reader rest).map fun r => (List.replicate n q ++ r.1, r.2) := by
  have hone : reader (q :: rest) = (reader rest).map (consRead q) :=
    hreader rest fun more heq => h q (by simp [heq]) rfl
  have htwo : reader (q :: q :: rest) = (reader (q :: rest)).map (consRead q) :=
    hreader (q :: rest) fun more heq => h q (by simp_all) rfl
  obtain rfl | rfl | rfl : n = 0 ∨ n = 1 ∨ n = 2 := by omega
  · simp
  · exact hone
  · rw [hone, Option.map_map] at htwo
    exact htwo

theorem replicate_append_cons (n : Nat) (q : Char) (rest : List Char) :
    List.replicate n q ++ q :: rest = List.replicate (n + 1) q ++ rest := by
  rw [List.replicate_succ', List.append_assoc, List.singleton_append]

theorem takesQuote_blockText : TakesQuote '"' (blockText 0) := fun _ => blockText_quote

/-- The quotes that end a text, behind at most two that belong to it. -/
theorem blockText_close {n : Nat} (hn : n ≤ 2) (h : NextNot (· = '"') rest) :
    blockText 0 (List.replicate n '"' ++ '"' :: '"' :: '"' :: rest) = some (List.replicate n '"', rest) := by
  obtain rfl | rfl | rfl : n = 0 ∨ n = 1 ∨ n = 2 := by omega
  · exact blockText_three h
  · exact blockText_four h
  · rfl

theorem nextNot_lineBreak {br : List Char} (hbr : LineBreak br) (s : List Char) : NextNot (· = '"') (br ++ s) := by
  cases hbr <;> exact nextNot_cons (by decide)

theorem joined?_eq_none {c : Char} (h : Escape s c) (rest : List Char) : joined? (s ++ rest) = none := by
  have hhead : ∃ letter tail, s = letter :: tail ∧ isBlank letter = false ∧ letter ≠ '\n' ∧ letter ≠ '\r' := by
    cases h with
    | @named letter _ h =>
      refine ⟨letter, [], rfl, ?_, ?_, ?_⟩
      · rw [← Bool.not_eq_true, isBlank_iff]
        rintro (rfl | rfl) <;> cases h
      · rintro rfl; cases h
      · rintro rfl; cases h
    | short => exact ⟨_, _, rfl, by decide, by decide, by decide⟩
    | long => exact ⟨_, _, rfl, by decide, by decide, by decide⟩
  obtain ⟨letter, tail, rfl, hblank, hfeed, hreturn⟩ := hhead
  have hskip : skipBlanks (letter :: (tail ++ rest)) = letter :: (tail ++ rest) :=
    skipBlanks_of_nextNot (nextNot_cons (by simp [hblank]))
  have hnone : lineBreak? (letter :: (tail ++ rest)) = none := lineBreak?_eq_none hfeed hreturn
  rw [List.cons_append, joined?, hskip, hnone]
  rfl

theorem leadingLayout_blanks {b : List Char} (hb : Blanks b) (rest : List Char) :
    leadingLayout (b ++ rest) = b.length + leadingLayout rest := by
  induction b with
  | nil => simp
  | cons c b ih =>
    obtain ⟨hc, hb⟩ := List.forall_mem_cons.mp hb
    rw [List.cons_append, leadingLayout_blank hc, ih hb, List.length_cons]
    omega

theorem leadingLayout_lineBreak {br : List Char} (hbr : LineBreak br) (rest : List Char) :
    leadingLayout (br ++ rest) = br.length + leadingLayout rest := by
  cases hbr with
  | feed => exact Nat.add_comm (leadingLayout rest) 1
  | returnFeed => exact Nat.add_comm (leadingLayout rest) 2

theorem leadingLayout_gap {gap : List Char} (h : Gap gap) (rest : List Char) :
    leadingLayout (gap ++ rest) = gap.length + leadingLayout rest := by
  induction h with
  | nil => simp
  | blank hc hs ih =>
    rw [List.cons_append, leadingLayout_blank hc, ih, List.length_cons]
    omega
  | lineBreak hbr hs ih =>
    rw [List.append_assoc, leadingLayout_lineBreak hbr, ih, List.length_append, Nat.add_assoc]

theorem leadingLayout_eq_zero (h : NextNot (fun c => isBlank c = true ∨ c = '\n' ∨ c = '\r') rest) :
    leadingLayout rest = 0 := by
  cases rest with
  | nil => rfl
  | cons c rest =>
    have hc := h c rfl
    simp only [not_or] at hc
    obtain ⟨hblank, hfeed, hreturn⟩ := hc
    exact leadingLayout_stop hblank hfeed hreturn

/-- A joint takes everything up to the next character that is neither blank nor a line break. -/
theorem joined?_append {b br gap : List Char} (hb : Blanks b) (hbr : LineBreak br) (hgap : Gap gap)
    (h : NextNot (fun c => isBlank c = true ∨ c = '\n' ∨ c = '\r') rest) :
    joined? (b ++ (br ++ (gap ++ rest))) = some (b ++ (br ++ gap)).length := by
  have hnext : skipBlanks (br ++ (gap ++ rest)) = br ++ (gap ++ rest) := by
    cases hbr <;> exact skipBlanks_of_nextNot (nextNot_cons (by decide))
  have hcount : leadingLayout (b ++ (br ++ (gap ++ rest))) = (b ++ (br ++ gap)).length := by
    rw [leadingLayout_blanks hb, leadingLayout_lineBreak hbr, leadingLayout_gap hgap, leadingLayout_eq_zero h,
      List.length_append, List.length_append]
    omega
  rw [joined?, skipBlanks_append hb, hnext, lineBreak?_append hbr, hcount]
  rfl

theorem nextNot_basicChar {p : List Char} {c : Char} (h : BasicChar p c) (rest : List Char) :
    NextNot (· = '"') (p ++ rest) := by
  cases h with
  | plain _ hquote _ => exact nextNot_cons hquote
  | escape => exact nextNot_cons (by decide)

theorem blockText_char {p : List Char} {c : Char} (h : BasicChar p c) (rest : List Char) :
    blockText 0 (p ++ rest) = (blockText 0 rest).map (consRead c) := by
  cases h with
  | plain hcontrol hquote hslash => exact blockText_plain hcontrol hquote hslash
  | escape h => simp [blockText_backslash, joined?_eq_none h, escape?_append h, blockText_skip]

theorem blockText_lineBreak {br : List Char} (hbr : LineBreak br) (rest : List Char) :
    blockText 0 (br ++ rest) = (blockText 0 rest).map (consRead '\n') := by
  cases hbr <;> rfl

theorem blockText_joint {b br gap : List Char} (hb : Blanks b) (hbr : LineBreak br) (hgap : Gap gap)
    (h : NextNot (fun c => isBlank c = true ∨ c = '\n' ∨ c = '\r') rest) :
    blockText 0 ('\\' :: (b ++ (br ++ (gap ++ rest)))) = blockText 0 rest := by
  have hskip := blockText_skip (b ++ (br ++ gap)) rest
  rw [List.append_assoc, List.append_assoc] at hskip
  rw [blockText_backslash, joined?_append hb hbr hgap h]
  exact hskip

/-- A text in three double quotes is read from any of the quotes in front of it on. -/
theorem blockText_append {n : Nat} {cs : List Char} (h : BasicBlock n s cs) (hn : n ≤ 2)
    (hrest : NextNot (· = '"') rest) :
    blockText 0 (List.replicate n '"' ++ (s ++ '"' :: '"' :: '"' :: rest)) =
      some (List.replicate n '"' ++ cs, rest) := by
  induction h with
  | nil =>
    rw [List.nil_append, List.append_nil]
    exact blockText_close hn hrest
  | @quote n s cs hlt hs ih =>
    rw [List.cons_append, replicate_append_cons, replicate_append_cons]
    exact ih (by omega)
  | char hp hs ih =>
    rw [List.append_assoc, takesQuote_blockText.quotes hn (nextNot_basicChar hp _), blockText_char hp]
    exact congrArg (Option.map _ <| Option.map _ ·) (ih (Nat.zero_le 2))
  | lineBreak hbr hs ih =>
    rw [List.append_assoc, takesQuote_blockText.quotes hn (nextNot_lineBreak hbr _), blockText_lineBreak hbr]
    exact congrArg (Option.map _ <| Option.map _ ·) (ih (Nat.zero_le 2))
  | @joint _ b br gap s cs hb hbr hgap hnext hs ih =>
    have hnext' : NextNot (fun c => isBlank c = true ∨ c = '\n' ∨ c = '\r') (s ++ '"' :: '"' :: '"' :: rest) := by
      cases s with
      | nil => exact nextNot_cons (by decide)
      | cons c s =>
        have hc := hnext c rfl
        exact nextNot_cons (by simp [hc])
    simp only [List.cons_append, List.append_assoc]
    rw [takesQuote_blockText.quotes hn (nextNot_cons (by decide)), blockText_joint hb hbr hgap hnext']
    exact congrArg (Option.map _) (ih (Nat.zero_le 2))

/-! ## Texts over several lines in single quotes -/

theorem takesQuote_literalBlock : TakesQuote '\'' literalBlock := fun _ => literalBlock_quote

theorem literalBlock_close {n : Nat} (hn : n ≤ 2) (h : NextNot (· = '\'') rest) :
    literalBlock (List.replicate n '\'' ++ '\'' :: '\'' :: '\'' :: rest) = some (List.replicate n '\'', rest) := by
  obtain rfl | rfl | rfl : n = 0 ∨ n = 1 ∨ n = 2 := by omega
  · exact literalBlock_three h
  · exact literalBlock_four h
  · rfl

theorem literalBlock_append {n : Nat} {cs : List Char} (h : LiteralBlock n s cs) (hn : n ≤ 2)
    (hrest : NextNot (· = '\'') rest) :
    literalBlock (List.replicate n '\'' ++ (s ++ '\'' :: '\'' :: '\'' :: rest)) =
      some (List.replicate n '\'' ++ cs, rest) := by
  induction h with
  | nil =>
    rw [List.nil_append, List.append_nil]
    exact literalBlock_close hn hrest
  | @quote n s cs hlt hs ih =>
    rw [List.cons_append, replicate_append_cons, replicate_append_cons]
    exact ih (by omega)
  | @char _ c s cs hcontrol hquote hs ih =>
    rw [List.cons_append, takesQuote_literalBlock.quotes hn (nextNot_cons hquote),
      literalBlock_plain hcontrol hquote]
    exact congrArg (Option.map _ <| Option.map _ ·) (ih (Nat.zero_le 2))
  | @lineBreak _ br s cs hbr hs ih =>
    have hbreak (t : List Char) : literalBlock (br ++ t) = (literalBlock t).map (consRead '\n') := by
      cases hbr <;> rfl
    have hnext (t : List Char) : NextNot (· = '\'') (br ++ t) := by
      cases hbr <;> exact nextNot_cons (by decide)
    rw [List.append_assoc, takesQuote_literalBlock.quotes hn (hnext _), hbreak]
    exact congrArg (Option.map _ <| Option.map _ ·) (ih (Nat.zero_le 2))

/-! ## All texts -/

theorem dropFirstBreak_append {br : List Char} (h : FirstBreak br s)
    (hne : NextNot (fun c => c = '\n' ∨ c = '\r') rest) :
    dropFirstBreak (br ++ (s ++ rest)) = s ++ rest := by
  obtain hbr | ⟨rfl, hs⟩ := h
  · rw [dropFirstBreak, lineBreak?_append hbr]
    rfl
  · have hnext : NextNot (fun c => c = '\n' ∨ c = '\r') (s ++ rest) := by
      cases s with
      | nil => exact hne
      | cons c s => exact nextNot_cons (not_or.mpr (hs c rfl))
    cases heq : s ++ rest with
    | nil => rfl
    | cons c t =>
      have hc := hnext c (by rw [heq]; rfl)
      simp only [not_or] at hc
      rw [List.nil_append, dropFirstBreak, lineBreak?_eq_none hc.1 hc.2]
      rfl

/-- What does not start with three quotes is on one line. -/
theorem text_eq_lineText (hdouble : ∀ more, s ≠ '"' :: '"' :: '"' :: more)
    (hsingle : ∀ more, s ≠ '\'' :: '\'' :: '\'' :: more) : text s = lineText s := by
  rw [text]
  · exact hdouble
  · exact hsingle

/-- A text is read if no quote follows that could belong to it. -/
theorem text_append {cs : List Char} (h : Text s cs) (hrest : NextNot (fun c => c = '"' ∨ c = '\'') rest) :
    text (s ++ rest) = some (cs, rest) := by
  have hdouble : NextNot (· = '"') rest := fun c hc => (not_or.mp (hrest c hc)).1
  have hsingle : NextNot (· = '\'') rest := fun c hc => (not_or.mp (hrest c hc)).2
  cases h with
  | basicBlock hbr h =>
    have hclose : NextNot (fun c => c = '\n' ∨ c = '\r') ('"' :: '"' :: '"' :: rest) := nextNot_cons (by decide)
    have hread := blockText_append h (Nat.zero_le 2) hdouble
    simpa [text, List.append_assoc, dropFirstBreak_append hbr hclose] using hread
  | literalBlock hbr h =>
    have hclose : NextNot (fun c => c = '\n' ∨ c = '\r') ('\'' :: '\'' :: '\'' :: rest) := nextNot_cons (by decide)
    have hread := literalBlock_append h (Nat.zero_le 2) hsingle
    simpa [text, List.append_assoc, dropFirstBreak_append hbr hclose] using hread
  | line h =>
    -- A text on one line is not followed by a third quote.
    rw [← lineText_append h rest]
    cases h with
    | basic h =>
      refine text_eq_lineText (fun more heq => ?_) (fun more heq => by cases heq)
      cases h with
      | nil => exact hdouble '"' (by simp_all) rfl
      | @cons p c s cs hp hs =>
        have heq' : p ++ (s ++ '"' :: rest) = '"' :: '"' :: more := by simpa using heq
        exact nextNot_basicChar hp (s ++ '"' :: rest) '"' (by simp [heq']) rfl
    | literal h =>
      refine text_eq_lineText (fun more heq => by cases heq) (fun more heq => ?_)
      cases cs with
      | nil => exact hsingle '\'' (by simp_all) rfl
      | cons c cs => exact (List.forall_mem_cons.mp h).1.2 (by simp_all)

/-! ## Names and paths -/

/-- No name goes on with one of these characters. -/
def EndsName (rest : List Char) : Prop := NextNot (isBare · = true) rest

theorem name_append {n : String} (h : NameText s n) (hrest : EndsName rest) : name (s ++ rest) = some (n, rest) := by
  cases h with
  | quoted h =>
    have hread := lineText_append h rest
    cases h with
    | basic h => simp_all [name, lineText]
    | literal h => simp_all [name, lineText]
  | bare hne h =>
    obtain ⟨c, s, rfl⟩ := List.exists_cons_of_ne_nil hne
    have hdouble : c ≠ '"' := by rintro rfl; exact absurd (h _ List.mem_cons_self) (by decide)
    have hsingle : c ≠ '\'' := by rintro rfl; exact absurd (h _ List.mem_cons_self) (by decide)
    have htake : ((c :: s) ++ rest).takeWhile isBare = c :: s := by
      rw [List.takeWhile_append_of_pos h]
      cases rest with
      | nil => simp
      | cons d rest => rw [List.takeWhile_cons_of_neg (hrest d rfl), List.append_nil]
    have hdrop : ((c :: s) ++ rest).dropWhile isBare = rest := by
      rw [List.dropWhile_append_of_pos h]
      cases rest with
      | nil => rfl
      | cons d rest => rw [List.dropWhile_cons_of_neg (hrest d rfl)]
    rw [name, bareName, htake, hdrop]
    · rfl
    all_goals simp_all

theorem nextNot_nameText {n : String} (h : NameText s n) (rest : List Char) :
    NextNot (fun c => isBlank c = true ∨ c ∈ ['#', '[', '\x7d', '\n', '\r', '\uFEFF']) (s ++ rest) := by
  cases h with
  | quoted h => cases h <;> exact nextNot_cons (by decide)
  | bare hne h =>
    obtain ⟨c, s, rfl⟩ := List.exists_cons_of_ne_nil hne
    have hc := h c List.mem_cons_self
    refine nextNot_cons ?_
    simp only [isBlank_iff, List.mem_cons, List.not_mem_nil, or_false]
    rintro ((rfl | rfl) | rfl | rfl | rfl | rfl | rfl | rfl) <;> exact absurd hc (by decide)

theorem endsName_blanks {b : List Char} (hb : Blanks b) (h : EndsName rest) : EndsName (b ++ rest) := by
  cases b with
  | nil => exact h
  | cons c b =>
    refine nextNot_cons ?_
    obtain rfl | rfl := isBlank_iff.mp (hb c List.mem_cons_self) <;> decide

theorem skipBlanks_nameText {n : String} (h : NameText s n) {b : List Char} (hb : Blanks b) (rest : List Char) :
    skipBlanks (b ++ (s ++ rest)) = s ++ rest := by
  rw [skipBlanks_append hb]
  exact skipBlanks_of_nextNot fun c hc hblank => nextNot_nameText h rest c hc (.inl hblank)

/-- What follows a path: the sign of an assignment, or the end of a header. -/
def EndsPath (rest : List Char) : Prop := ∃ c more, rest = c :: more ∧ (c = '=' ∨ c = ']')

theorem endsPath_assign (rest : List Char) : EndsPath ('=' :: rest) := ⟨_, _, rfl, .inl rfl⟩

theorem endsPath_close (rest : List Char) : EndsPath (']' :: rest) := ⟨_, _, rfl, .inr rfl⟩

/-- A path with blanks around it is read with them. -/
theorem names_append {p : List Char} {path : Path} (h : PathText p path) {limit : Nat} (hlimit : path.length ≤ limit)
    {b b' : List Char} (hb : Blanks b) (hb' : Blanks b') (hrest : EndsPath rest) :
    names limit (b ++ (p ++ (b' ++ rest))) = some (path, rest) := by
  obtain ⟨c, more, rfl, hc⟩ := hrest
  have hbare : isBare c = false := by obtain rfl | rfl := hc <;> decide
  have hblank : isBlank c = false := by obtain rfl | rfl := hc <;> decide
  have hdot : c ≠ '.' := by obtain rfl | rfl := hc <;> decide
  induction h generalizing limit b with
  | @single s n h =>
    obtain ⟨limit, rfl⟩ : ∃ k, limit = k + 1 := ⟨limit - 1, by simp at hlimit; omega⟩
    have hends : EndsName (b' ++ c :: more) := endsName_blanks hb' (nextNot_cons (by simp [hbare]))
    have hskip : skipBlanks (b' ++ c :: more) = c :: more := by
      rw [skipBlanks_append hb']
      exact skipBlanks_of_nextNot (nextNot_cons (by simp [hblank]))
    rw [names, skipBlanks_nameText h hb, name_append h hends]
    simp [hskip, hdot]
  | @cons s n b₁ b₂ rest path h hb₁ hb₂ hmore ih =>
    obtain ⟨limit, rfl⟩ : ∃ k, limit = k + 1 := ⟨limit - 1, by simp at hlimit; omega⟩
    have hlimit' : path.length ≤ limit := by simpa using hlimit
    have hread := ih hlimit' hb₂
    have hends : EndsName (b₁ ++ '.' :: (b₂ ++ (rest ++ (b' ++ c :: more)))) :=
      endsName_blanks hb₁ (nextNot_cons (by decide))
    have hskip : skipBlanks (b₁ ++ '.' :: (b₂ ++ (rest ++ (b' ++ c :: more)))) =
        '.' :: (b₂ ++ (rest ++ (b' ++ c :: more))) := by
      rw [skipBlanks_append hb₁]
      exact skipBlanks_of_nextNot (nextNot_cons (by decide))
    simp only [List.append_assoc, List.cons_append]
    rw [names, skipBlanks_nameText h hb, name_append h hends]
    simp [hskip, hread, consRead]

theorem path_append {p : List Char} {path : Path} (h : Place p path) (hrest : EndsPath rest) :
    Toml.path (p ++ rest) = some (path, rest) := by
  obtain ⟨hb, h, hb', hlength⟩ := h
  simpa [Toml.path] using names_append h hlength hb hb' hrest

end PeerWarden.Toml.Grammar
