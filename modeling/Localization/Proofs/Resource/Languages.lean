import Localization.Proofs.Resource.Folding
import Mathlib.Computability.Language

/-!
# The languages of the lookahead

Each question about the lines ahead asks whether the text behind the peek position belongs to a
regular language over the characters as the grammar sees them, with a line feed for each line break.
The languages are put together here from single characters by concatenation, choice and repetition.

Every question takes the peek position back to the committed one and leaves everything else alone,
wherever the peek position stood.

## Main definitions

* `Text.blankLine`, `Text.indent` — a line without content, and what leads to an indented line
* `Text.patternAhead`, `Text.attributeAhead`, `Text.variantAhead`, `Text.valueAhead`,
  `Text.commentAhead`, `Text.legacyCommentAhead`, `Text.numberAhead` — the texts that get a positive
  answer

## Main statements

* `Text.indent_mul_iff` — an indent is a gap that ends a line and indents another
* `Cursor.lookahead_answers` — what each question answers, and that it moves nothing
-/

namespace Localization

open scoped Computability

open Text (foldBreaks)

namespace Text

/-! ### Languages -/

/-- The texts of one character out of a set. -/
def oneOf (chars : Set Char) : Language Char := {text | ∃ ch ∈ chars, text = [ch]}

/-- One blank within a line. -/
def inlineBlank : Language Char := oneOf {' ', '\t'}

/-- One line feed. -/
def lineFeed : Language Char := oneOf {'\n'}

/-- A line of blanks. -/
def blankLine : Language Char := inlineBlank∗ * lineFeed

/-- The end of a line, blank lines, and at least one blank in front of the next line's content. -/
def indent : Language Char := lineFeed * (blankLine∗ * (inlineBlank * inlineBlank∗))

/-- An indented line that starts with none of `}`, `.`, `[` and `*`. -/
def patternAhead : Language Char := indent * (oneOf {' ', '\t', '\n', '}', '.', '[', '*'}ᶜ * ⊤)

/-- An indented line that starts with a dot. -/
def attributeAhead : Language Char := indent * (oneOf {'.'} * ⊤)

/-- The end of a line and an indented line that starts with a bracket, perhaps behind a star, and
not with two brackets. -/
def variantAhead : Language Char :=
  inlineBlank∗ * (indent * ((1 + oneOf {'*'}) * (oneOf {'['} * (1 + oneOf {'['}ᶜ * ⊤))))

/-- Behind all blanks, a character of this line or an indented line that goes on with a pattern. -/
def valueAhead : Language Char := inlineBlank∗ * (oneOf {' ', '\t', '\n'}ᶜ * ⊤ + patternAhead)

/-- The next line starts with a number of `#`, behind which it ends or goes on with a space. -/
def commentAhead (level : ℕ) : Language Char :=
  lineFeed * (oneOf {'#'} ^ level * (1 + oneOf {' ', '\n'} * ⊤))

/-- The next line starts with two slashes. -/
def legacyCommentAhead : Language Char := lineFeed * (oneOf {'/'} * (oneOf {'/'} * ⊤))

/-- A digit, perhaps behind a minus sign. -/
def numberAhead : Language Char := (1 + oneOf {'-'}) * (oneOf {ch | ch.isDigit} * ⊤)

variable {chars : Set Char} {l : Language Char} {text gap rest : List Char} {ch : Char}

theorem oneOf_mul_iff : text ∈ oneOf chars * l ↔ ∃ ch ∈ chars, ∃ rest ∈ l, text = ch :: rest := by
  rw [Language.mem_mul]
  constructor
  · rintro ⟨_, ⟨ch, hch, rfl⟩, rest, hrest, rfl⟩
    exact ⟨ch, hch, rest, hrest, rfl⟩
  · rintro ⟨ch, hch, rest, hrest, rfl⟩
    exact ⟨[ch], ⟨ch, hch, rfl⟩, rest, hrest, rfl⟩

theorem singleton_mul_iff : text ∈ oneOf {ch} * l ↔ ∃ rest ∈ l, text = ch :: rest := by
  rw [oneOf_mul_iff]
  exact exists_eq_left

theorem optional_mul_iff :
    text ∈ (1 + oneOf {ch}) * l ↔ text ∈ l ∨ ∃ rest ∈ l, text = ch :: rest := by
  rw [add_mul, one_mul, Language.mem_add, singleton_mul_iff]

theorem end_or_iff : text ∈ 1 + l ↔ text = [] ∨ text ∈ l := by
  rw [Language.mem_add, Language.mem_one]

/-- A repetition is empty or goes round once more. -/
theorem kstar_iff : text ∈ l∗ ↔ text = [] ∨ text ∈ l * l∗ := by
  rw [← end_or_iff, Language.one_add_self_mul_kstar_eq_kstar]

/-! ### Blanks and indents -/

theorem mem_blanks_iff : ch ∈ ({' ', '\t'} : Set Char) ↔ isInlineBlank ch := by
  rw [isInlineBlank_iff]
  rfl

theorem mem_inlineBlank_kstar : text ∈ inlineBlank∗ ↔ IsBlanks text := by
  induction text with
  | nil => exact iff_of_true (Language.nil_mem_kstar inlineBlank) isBlanks_nil
  | cons ch text ih =>
    rw [kstar_iff, isBlanks_cons, ← ih, ← mem_blanks_iff]
    constructor
    · intro h
      obtain ⟨first, hfirst, rest, hrest, heq⟩ := oneOf_mul_iff.1 (h.resolve_left (by simp))
      obtain ⟨rfl, rfl⟩ := List.cons.inj heq
      exact ⟨hfirst, hrest⟩
    · rintro ⟨hch, htext⟩
      exact .inr (oneOf_mul_iff.2 ⟨ch, hch, text, htext, rfl⟩)

/-- Any number of blanks in front of a language are blanks in front of one of its texts. -/
theorem blanks_mul_iff : text ∈ inlineBlank∗ * l ↔ ∃ blanks, IsBlanks blanks ∧ ∃ rest ∈ l,
    text = blanks ++ rest := by
  rw [Language.mem_mul]
  constructor
  · rintro ⟨blanks, hblanks, rest, hrest, rfl⟩
    exact ⟨blanks, mem_inlineBlank_kstar.1 hblanks, rest, hrest, rfl⟩
  · rintro ⟨blanks, hblanks, rest, hrest, rfl⟩
    exact ⟨blanks, mem_inlineBlank_kstar.2 hblanks, rest, hrest, rfl⟩

/-- A blank in front of blank lines belongs to the first of them, if there is one. -/
theorem exists_blankLines (hgap : IsGap gap) (hreturn : '\r' ∉ gap) :
    ∃ lines ∈ blankLine∗, ∃ blanks, IsBlanks blanks ∧ gap = lines ++ blanks := by
  induction gap with
  | nil => exact ⟨[], Language.nil_mem_kstar _, [], isBlanks_nil, rfl⟩
  | cons ch gap ih =>
    obtain ⟨hch, hgap⟩ := isGap_cons.1 hgap
    rw [List.mem_cons, not_or] at hreturn
    obtain ⟨lines, hlines, blanks, hblanks, rfl⟩ := ih hgap hreturn.2
    rcases isVisible_eq_false_iff.1 hch with hblank | hbreak
    · rcases kstar_iff.1 hlines with rfl | hfirst
      · exact ⟨[], hlines, ch :: blanks, isBlanks_cons.2 ⟨hblank, hblanks⟩, rfl⟩
      · -- the first blank line starts with one more blank
        obtain ⟨line, hline, more, hmore, rfl⟩ := Language.mem_mul.1 hfirst
        obtain ⟨lead, hlead, feed, hfeed, rfl⟩ := blanks_mul_iff.1 hline
        have hlonger : ch :: (lead ++ feed) ∈ blankLine :=
          blanks_mul_iff.2 ⟨ch :: lead, isBlanks_cons.2 ⟨hblank, hlead⟩, feed, hfeed, rfl⟩
        exact ⟨_, kstar_iff.2 (.inr (Language.append_mem_mul hlonger hmore)), blanks, hblanks, rfl⟩
    · -- a line feed is a blank line of its own
      obtain rfl : ch = '\n' := (isLineBreak_iff.1 hbreak).resolve_right (Ne.symm hreturn.1)
      have hfeed : ['\n'] ∈ blankLine :=
        blanks_mul_iff.2 ⟨[], isBlanks_nil, ['\n'], ⟨'\n', rfl, rfl⟩, rfl⟩
      exact ⟨_, kstar_iff.2 (.inr (Language.append_mem_mul hfeed hlines)), blanks, hblanks, rfl⟩

/-- Blank lines are a gap. -/
theorem isGap_of_mem_blankLines (h : text ∈ blankLine∗) : IsGap text := by
  obtain ⟨lines, rfl, hlines⟩ := Language.mem_kstar.1 h
  intro ch hch
  obtain ⟨line, hline, hmem⟩ := List.mem_flatten.1 hch
  obtain ⟨blanks, hblanks, _, ⟨_, rfl, rfl⟩, rfl⟩ := blanks_mul_iff.1 (hlines line hline)
  rcases List.mem_append.1 hmem with hblank | hfeed
  · exact not_isVisible_of_isInlineBlank (hblanks ch hblank)
  · rw [List.mem_singleton.1 hfeed]
    decide

/-- Behind blank lines a line starts. -/
theorem endsLine_of_mem_blankLines (h : text ∈ blankLine∗) : text = [] ∨ EndsLine text := by
  obtain ⟨lines, rfl, hlines⟩ := Language.mem_kstar.1 h
  cases List.eq_nil_or_concat lines with
  | inl hnil => exact .inl (by rw [hnil]; rfl)
  | inr hlast =>
    obtain ⟨before, line, rfl⟩ := hlast
    rw [List.concat_eq_append] at hlines ⊢
    obtain ⟨blanks, -, _, ⟨_, rfl, rfl⟩, rfl⟩ := blanks_mul_iff.1 (hlines line (by simp))
    exact .inr ⟨'\n', by simp, by decide⟩

/-- In a text without carriage returns, an indent is a gap that ends a line and indents another. -/
theorem indent_mul_iff (h : '\r' ∉ text) :
    text ∈ indent * l ↔ ∃ gap, IsIndent gap ∧ ∃ rest ∈ l, text = gap ++ rest := by
  rw [indent, mul_assoc, lineFeed, singleton_mul_iff]
  constructor
  · rintro ⟨_, hbehind, rfl⟩
    obtain ⟨gap, hgap, rest, hrest, rfl⟩ := Language.mem_mul.1 hbehind
    obtain ⟨lines, hlines, blanks, hblanks, rfl⟩ := Language.mem_mul.1 hgap
    obtain ⟨first, hfirst, more, hmore, rfl⟩ := oneOf_mul_iff.1 hblanks
    have hblanks : IsBlanks (first :: more) :=
      isBlanks_cons.2 ⟨mem_blanks_iff.1 hfirst, mem_inlineBlank_kstar.1 hmore⟩
    refine ⟨'\n' :: (lines ++ first :: more), ?_, rest, hrest, rfl⟩
    -- blank lines and blanks are a gap, which ends with the blanks behind its last line feed
    refine @IsEnding.isIndent_of_gap (lines ++ first :: more) ['\n'] (.inl rfl) ?_ ?_
    · exact isGap_append.2 ⟨isGap_of_mem_blankLines hlines, hblanks.isGap⟩
    · rw [rtakeWhile_ne_nil_iff, List.getLast?_append_of_ne_nil _ (List.cons_ne_nil _ _),
        ← rtakeWhile_ne_nil_iff, hblanks.rtakeWhile]
      exact List.cons_ne_nil _ _
  · rintro ⟨gap, hindent, rest, hrest, rfl⟩
    -- the gap starts with a line feed, and it ends with blanks behind its last one
    cases gap with
    | nil => exact absurd rfl hindent.ne_nil
    | cons ch gap =>
      rw [List.cons_append, List.mem_cons, List.mem_append, not_or, not_or] at h
      obtain ⟨hch, hgap, -⟩ := h
      obtain rfl : ch = '\n' :=
        (isLineBreak_iff.1 (startsBreak_cons.1 hindent.startsBreak)).resolve_right (Ne.symm hch)
      obtain ⟨lines, hlines, blanks, hblanks, rfl⟩ :=
        exists_blankLines (isGap_cons.1 hindent.isGap).2 hgap
      refine ⟨_, Language.append_mem_mul (Language.append_mem_mul hlines ?_) hrest, rfl⟩
      cases blanks with
      | nil =>
        -- without blanks the gap would end with a line feed
        obtain ⟨last, hlast, hblank⟩ := hindent.endsBlank
        rw [List.append_nil] at hlast
        have hends : EndsLine ('\n' :: lines) := by
          rcases endsLine_of_mem_blankLines hlines with rfl | hends
          · exact ⟨'\n', rfl, by decide⟩
          · exact (@endsLine_append ['\n'] lines hends.ne_nil).2 hends
        obtain ⟨last', hlast', hbreak⟩ := hends
        obtain rfl : last = last' := Option.some.inj (hlast.symm.trans hlast')
        rw [not_isInlineBlank_of_isLineBreak hbreak] at hblank
        cases hblank
      | cons first more =>
        obtain ⟨hfirst, hmore⟩ := isBlanks_cons.1 hblanks
        exact oneOf_mul_iff.2
          ⟨first, mem_blanks_iff.2 hfirst, more, mem_inlineBlank_kstar.2 hmore, rfl⟩

/-! ### Positive answers -/

/-- No CR is left when line breaks are folded. -/
theorem not_mem_foldBreaks (text : List Char) : '\r' ∉ foldBreaks text := by
  fun_induction foldBreaks text with
  | case1 => exact List.not_mem_nil
  | case2 text ih => simpa using ih
  | case3 ch text _ ih =>
    rw [List.mem_cons, not_or]
    refine ⟨?_, ih⟩
    split
    · decide
    · next hbreak =>
      rintro rfl
      exact hbreak (by decide)

/-- Without CRs, the visible characters are all but the space, the tab and the line feed. -/
theorem mem_content_iff (h : ch ≠ '\r') :
    ch ∈ ({' ', '\t', '\n'} : Set Char)ᶜ ↔ isVisible ch := by
  simp [isVisible, isInlineBlank, isLineBreak, h, and_assoc]

/-- Without CRs, a line of a pattern starts with any visible character but the four that end a
pattern. -/
theorem mem_patternStart_iff (h : ch ≠ '\r') :
    ch ∈ ({' ', '\t', '\n', '}', '.', '[', '*'} : Set Char)ᶜ ↔
      isVisible ch ∧ Cursor.endsPattern ch = false := by
  simp [isVisible, isInlineBlank, isLineBreak, Cursor.endsPattern, h]
  tauto

/-- Where a pattern goes on is described by a language. -/
theorem startsPattern_iff_mem (h : '\r' ∉ text) : startsPattern text ↔ text ∈ patternAhead := by
  rw [startsPattern_iff, patternAhead, indent_mul_iff h]
  constructor
  · rintro ⟨gap, ch, rest, hindent, hvisible, hends, rfl⟩
    have hreturn : ch ≠ '\r' := by
      rintro rfl
      exact h (by simp)
    exact ⟨gap, hindent, _, oneOf_mul_iff.2
      ⟨ch, (mem_patternStart_iff hreturn).2 ⟨hvisible, hends⟩, rest, trivial, rfl⟩, rfl⟩
  · rintro ⟨gap, hindent, _, hcontent, rfl⟩
    obtain ⟨ch, hch, rest, -, rfl⟩ := oneOf_mul_iff.1 hcontent
    have hreturn : ch ≠ '\r' := by
      rintro rfl
      exact h (by simp)
    obtain ⟨hvisible, hends⟩ := (mem_patternStart_iff hreturn).1 hch
    exact ⟨gap, ch, rest, hindent, hvisible, hends, rfl⟩

/-- Where an attribute follows is described by a language. -/
theorem startsAttribute_iff_mem (h : '\r' ∉ text) :
    startsAttribute text ↔ text ∈ attributeAhead := by
  rw [startsAttribute_iff, attributeAhead, indent_mul_iff h]
  constructor
  · rintro ⟨gap, rest, hindent, rfl⟩
    exact ⟨gap, hindent, _, singleton_mul_iff.2 ⟨rest, trivial, rfl⟩, rfl⟩
  · rintro ⟨gap, hindent, _, hcontent, rfl⟩
    obtain ⟨rest, -, rfl⟩ := singleton_mul_iff.1 hcontent
    exact ⟨gap, rest, hindent, rfl⟩

/-- A bracket that is not followed by another one. -/
theorem startsBracket_iff_mem :
    startsBracket text ↔ text ∈ oneOf {'['} * (1 + oneOf {'['}ᶜ * ⊤) := by
  rw [singleton_mul_iff]
  constructor
  · intro h
    unfold startsBracket at h
    split at h
    · next rest =>
      refine ⟨rest, end_or_iff.2 ?_, rfl⟩
      cases rest with
      | nil => exact .inl rfl
      | cons ch rest =>
        exact .inr (oneOf_mul_iff.2 ⟨ch, by simpa using h, rest, trivial, rfl⟩)
    · cases h
  · rintro ⟨rest, hrest, rfl⟩
    rcases end_or_iff.1 hrest with rfl | hnext
    · rfl
    · obtain ⟨ch, hch, rest, -, rfl⟩ := oneOf_mul_iff.1 hnext
      simpa [startsBracket] using hch

theorem startsBracket_behindStar_iff_mem : startsBracket (behindStar text) ↔
    text ∈ (1 + oneOf {'*'}) * (oneOf {'['} * (1 + oneOf {'['}ᶜ * ⊤)) := by
  rw [optional_mul_iff, ← startsBracket_iff_mem]
  constructor
  · intro h
    unfold behindStar at h
    split at h
    · next rest => exact .inr ⟨rest, startsBracket_iff_mem.1 h, rfl⟩
    · exact .inl h
  · rintro (hbracket | ⟨rest, hrest, rfl⟩)
    · -- a text that starts with a bracket does not start with a star
      obtain ⟨rest, -, rfl⟩ := singleton_mul_iff.1 (startsBracket_iff_mem.1 hbracket)
      rwa [behindStar_cons_of_ne (by decide)]
    · exact startsBracket_iff_mem.2 hrest

/-- Where a variant follows is described by a language. -/
theorem startsVariant_iff_mem (h : '\r' ∉ text) : startsVariant text ↔ text ∈ variantAhead := by
  rw [startsVariant_iff, variantAhead, blanks_mul_iff]
  constructor
  · rintro ⟨blanks, gap, rest, hblanks, hindent, -, hbracket, rfl⟩
    -- the indent is read from what is left behind the blanks
    have hreturn : '\r' ∉ gap ++ rest := fun hmem => h (List.mem_append_right _ hmem)
    exact ⟨blanks, hblanks, _, (indent_mul_iff hreturn).2
      ⟨gap, hindent, rest, startsBracket_behindStar_iff_mem.1 hbracket, rfl⟩, rfl⟩
  · rintro ⟨blanks, hblanks, line, hline, rfl⟩
    have hreturn : '\r' ∉ line := fun hmem => h (List.mem_append_right _ hmem)
    obtain ⟨gap, hindent, rest, hrest, rfl⟩ := (indent_mul_iff hreturn).1 hline
    have hbracket := startsBracket_behindStar_iff_mem.2 hrest
    refine ⟨blanks, gap, rest, hblanks, hindent, ?_, hbracket, rfl⟩
    -- neither a star nor a bracket is blank
    rcases optional_mul_iff.1 hrest with hopen | ⟨tail, -, rfl⟩
    · obtain ⟨tail, -, rfl⟩ := singleton_mul_iff.1 hopen
      exact startsVisible_cons.2 (by decide)
    · exact startsVisible_cons.2 (by decide)

/-- Where a value follows is described by a language. -/
theorem startsValue_iff_mem (h : '\r' ∉ text) : startsValue text ↔ text ∈ valueAhead := by
  rw [startsValue_iff, valueAhead, blanks_mul_iff]
  constructor
  · rintro ⟨blanks, gap, ch, rest, hblanks, hvisible, hgap, rfl⟩
    have hreturn : '\r' ∉ gap ++ ch :: rest := fun hmem => h (List.mem_append_right _ hmem)
    refine ⟨blanks, hblanks, _, ?_, rfl⟩
    rcases hgap with rfl | ⟨hindent, hends⟩
    · have hch : ch ≠ '\r' := by
        rintro rfl
        exact hreturn (by simp)
      exact .inl (oneOf_mul_iff.2 ⟨ch, (mem_content_iff hch).2 hvisible, rest, trivial, rfl⟩)
    · exact .inr ((startsPattern_iff_mem hreturn).1
        (startsPattern_iff.2 ⟨gap, ch, rest, hindent, hvisible, hends, rfl⟩))
  · rintro ⟨blanks, hblanks, line, hline, rfl⟩
    have hreturn : '\r' ∉ line := fun hmem => h (List.mem_append_right _ hmem)
    rcases hline with hcontent | hpattern
    · obtain ⟨ch, hch, rest, -, rfl⟩ := oneOf_mul_iff.1 hcontent
      have hne : ch ≠ '\r' := by
        rintro rfl
        exact hreturn (by simp)
      exact ⟨blanks, [], ch, rest, hblanks, (mem_content_iff hne).1 hch, .inl rfl, rfl⟩
    · obtain ⟨gap, ch, rest, hindent, hvisible, hends, rfl⟩ :=
        startsPattern_iff.1 ((startsPattern_iff_mem hreturn).2 hpattern)
      exact ⟨blanks, gap, ch, rest, hblanks, hvisible, .inr ⟨hindent, hends⟩, rfl⟩

/-- Without carriage returns, the only line break is the line feed. -/
theorem afterBreak?_eq_some_iff_cons (h : '\r' ∉ text) :
    afterBreak? text = some rest ↔ text = '\n' :: rest := by
  cases text with
  | nil => exact iff_of_false (by simp [afterBreak?]) (by simp)
  | cons ch text =>
    by_cases hch : ch = '\n'
    · subst hch
      simp [afterBreak?]
    · have hreturn : ch ≠ '\r' := by
        rintro rfl
        exact h (by simp)
      rw [afterBreak?_cons_of_not (by simp [isLineBreak, hch, hreturn])]
      simp [hch]

theorem any_afterBreak?_iff (h : '\r' ∉ text) {q : List Char → Bool} :
    (afterBreak? text).any q ↔ ∃ rest, q rest ∧ text = '\n' :: rest := by
  rw [Option.any_eq_true]
  constructor
  · rintro ⟨rest, hrest, hq⟩
    exact ⟨rest, hq, (afterBreak?_eq_some_iff_cons h).1 hrest⟩
  · rintro ⟨rest, hq, hrest⟩
    exact ⟨rest, (afterBreak?_eq_some_iff_cons h).2 hrest, hq⟩

/-- The markers in front of a line of a comment are described by a language. -/
theorem startsMarked_iff_mem (h : '\r' ∉ text) {level : ℕ} :
    startsMarked level text ↔ text ∈ oneOf {'#'} ^ level * (1 + oneOf {' ', '\n'} * ⊤) := by
  induction level generalizing text with
  | zero =>
    rw [pow_zero, one_mul, end_or_iff, oneOf_mul_iff]
    cases text with
    | nil => exact iff_of_true rfl (.inl rfl)
    | cons ch rest =>
      have hreturn : ch ≠ '\r' := by
        rintro rfl
        exact h (by simp)
      have hends : startsMarked 0 (ch :: rest) ↔ ch ∈ ({' ', '\n'} : Set Char) := by
        simp [startsMarked, isLineBreak, hreturn]
      rw [hends]
      constructor
      · intro hch
        exact .inr ⟨ch, hch, rest, trivial, rfl⟩
      · rintro (hnil | ⟨_, hch, _, -, heq⟩)
        · cases hnil
        · rwa [(List.cons.inj heq).1]
  | succ level ih =>
    rw [pow_succ', mul_assoc, singleton_mul_iff]
    constructor
    -- each level takes one mark off the front
    · intro hmarked
      unfold startsMarked at hmarked
      split at hmarked
      · next hzero => cases hzero
      · next rest hlevel =>
        obtain rfl := Nat.succ.inj hlevel
        exact ⟨rest, (ih fun hmem => h (List.mem_cons_of_mem _ hmem)).1 hmarked, rfl⟩
      · cases hmarked
    · rintro ⟨rest, hrest, rfl⟩
      rw [startsMarked]
      exact (ih fun hmem => h (List.mem_cons_of_mem _ hmem)).2 hrest

/-- Where a comment of a level goes on is described by a language. -/
theorem startsComment_iff_mem (h : '\r' ∉ text) {level : ℕ} :
    startsComment level text ↔ text ∈ commentAhead level := by
  rw [startsComment, any_afterBreak?_iff h, commentAhead, lineFeed, singleton_mul_iff]
  constructor
  · rintro ⟨rest, hmarked, rfl⟩
    exact ⟨rest, (startsMarked_iff_mem fun hmem => h (List.mem_cons_of_mem _ hmem)).1 hmarked, rfl⟩
  · rintro ⟨rest, hrest, rfl⟩
    exact ⟨rest, (startsMarked_iff_mem fun hmem => h (List.mem_cons_of_mem _ hmem)).2 hrest, rfl⟩

/-- Where a comment with slashes goes on is described by a language. -/
theorem startsLegacyComment_iff_mem (h : '\r' ∉ text) :
    startsLegacyComment text ↔ text ∈ legacyCommentAhead := by
  rw [startsLegacyComment, any_afterBreak?_iff h, legacyCommentAhead, lineFeed, singleton_mul_iff]
  constructor
  · rintro ⟨line, hslashes, rfl⟩
    obtain ⟨rest, rfl⟩ := startsSlashes_iff.1 hslashes
    have hsecond : '/' :: rest ∈ oneOf {'/'} * ⊤ := singleton_mul_iff.2 ⟨rest, trivial, rfl⟩
    exact ⟨_, singleton_mul_iff.2 ⟨_, hsecond, rfl⟩, rfl⟩
  · rintro ⟨line, hline, rfl⟩
    obtain ⟨_, hsecond, rfl⟩ := singleton_mul_iff.1 hline
    obtain ⟨rest, -, rfl⟩ := singleton_mul_iff.1 hsecond
    exact ⟨_, startsSlashes_iff.2 ⟨rest, rfl⟩, rfl⟩

/-- Where a number follows is described by a language. -/
theorem startsNumber_iff_mem : startsNumber text ↔ text ∈ numberAhead := by
  rw [numberAhead, optional_mul_iff]
  constructor
  · intro h
    unfold startsNumber at h
    split at h
    · next rest =>
      obtain ⟨digit, hdigit, hchar⟩ := Option.any_eq_true _ _ |>.1 h
      obtain ⟨rest, rfl⟩ := List.head?_eq_some_iff.1 hdigit
      exact .inr ⟨_, oneOf_mul_iff.2 ⟨digit, hchar, rest, trivial, rfl⟩, rfl⟩
    · next digit rest _ => exact .inl (oneOf_mul_iff.2 ⟨digit, h, rest, trivial, rfl⟩)
    · cases h
  · rintro (hdigits | ⟨_, hdigits, rfl⟩)
    · obtain ⟨digit, hdigit, rest, -, rfl⟩ := oneOf_mul_iff.1 hdigits
      -- a minus sign is no digit
      have hminus : digit ≠ '-' := by
        rintro rfl
        cases hdigit
      rw [startsNumber]
      · exact hdigit
      · exact hminus
    · obtain ⟨digit, hdigit, rest, -, rfl⟩ := oneOf_mul_iff.1 hdigits
      exact hdigit

end Text

/-! ### What the questions answer -/

namespace Cursor

open Text

/-- Asked where no lookahead is pending, each question tells whether the text behind the cursor,
with a line feed for each line break, is in its language. Asked anywhere, it does nothing but to
take the peek position back to the committed one. -/
theorem lookahead_answers (c : Cursor) :
    (c.ahead = c.here →
      (c.isNextLinePattern.1 ↔ foldBreaks c.here.rest ∈ patternAhead) ∧
      (c.isNextLineAttribute.1 ↔ foldBreaks c.here.rest ∈ attributeAhead) ∧
      (c.isNextLineVariant.1 ↔ foldBreaks c.here.rest ∈ variantAhead) ∧
      (c.isValueStart.1 ↔ foldBreaks c.here.rest ∈ valueAhead) ∧
      (∀ level, (c.isNextLineComment level).1 ↔ foldBreaks c.here.rest ∈ commentAhead level) ∧
      (c.isNextLineLegacyComment.1 ↔ foldBreaks c.here.rest ∈ legacyCommentAhead) ∧
      (c.isNumberStart.1 ↔ foldBreaks c.here.rest ∈ numberAhead)) ∧
    c.isNextLinePattern.2 = { c with ahead := c.here } ∧
    c.isNextLineAttribute.2 = { c with ahead := c.here } ∧
    c.isNextLineVariant.2 = { c with ahead := c.here } ∧
    c.isValueStart.2 = { c with ahead := c.here } ∧
    (∀ level, (c.isNextLineComment level).2 = { c with ahead := c.here }) ∧
    c.isNextLineLegacyComment.2 = { c with ahead := c.here } ∧
    c.isNumberStart.2 = { c with ahead := c.here } := by
  have hreturn := not_mem_foldBreaks c.here.rest
  constructor
  · -- folding line breaks changes no answer, and leaves no carriage return in the languages' way
    intro h
    rw [isNextLinePattern_eq, isNextLineAttribute_eq, isNextLineVariant_eq, isValueStart_eq,
      isNextLineLegacyComment_eq, isNumberStart_eq h, h]
    refine ⟨?_, ?_, ?_, ?_, ?_, ?_, ?_⟩
    · rw [← startsPattern_iff_mem hreturn, startsPattern_foldBreaks]
    · rw [← startsAttribute_iff_mem hreturn, startsAttribute_foldBreaks]
    · rw [← startsVariant_iff_mem hreturn, startsVariant_foldBreaks]
    · rw [← startsValue_iff_mem hreturn, startsValue_foldBreaks]
    · intro level
      rw [isNextLineComment_eq, h, ← startsComment_iff_mem hreturn, startsComment_foldBreaks]
    · rw [← startsLegacyComment_iff_mem hreturn, startsLegacyComment_foldBreaks]
    · rw [← startsNumber_iff_mem, startsNumber_foldBreaks]
  · refine ⟨?_, ?_, ?_, ?_, fun level => ?_, ?_, c.isNumberStart_snd⟩
    · exact congrArg Prod.snd c.isNextLinePattern_eq
    · exact congrArg Prod.snd c.isNextLineAttribute_eq
    · exact congrArg Prod.snd c.isNextLineVariant_eq
    · exact congrArg Prod.snd c.isValueStart_eq
    · exact congrArg Prod.snd (c.isNextLineComment_eq level)
    · exact congrArg Prod.snd c.isNextLineLegacyComment_eq

/-- In front of a default variant on an indented line there is a variant, and no pattern. -/
theorem lookahead_answers_default :
    ∃ c : Cursor, c.here.rest = "\r\n \r\t*[x]".toList ∧ c.ahead = c.here ∧
      foldBreaks c.here.rest ∈ variantAhead ∧ foldBreaks c.here.rest ∉ patternAhead := by
  let c := ofText "\r\n \r\t*[x]".toList
  obtain ⟨hpattern, -, hvariant, -⟩ := (lookahead_answers c).1 rfl
  refine ⟨c, rfl, rfl, hvariant.1 ?_, mt hpattern.2 ?_⟩
  · decide +kernel
  · decide +kernel

end Cursor

end Localization
