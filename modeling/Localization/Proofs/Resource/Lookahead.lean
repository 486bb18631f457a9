import Localization.Proofs.Resource.Moves

/-!
# What the lookahead answers

Each question about the lines ahead is a question about the text behind the peek position, and takes
that position back. Asked where no lookahead is pending, it leaves the cursor as it was.

## Main definitions

* `Text.startsPattern`, `Text.startsAttribute`, `Text.startsVariant` — how the next line with
  content goes on
* `Text.startsValue` — whether a pattern follows
* `Cursor.Settled` — no lookahead is pending, but for one that has found an arrow

## Main statements

* `Cursor.Ready.isNextLinePattern`, `Cursor.Ready.isNextLineAttribute`,
  `Cursor.Ready.isNextLineVariant`, `Cursor.Ready.isValueStart` — the questions answered
-/

namespace Localization

/-! ### Texts -/

namespace Text

/-- Whether the next line with content is indented and goes on with a pattern. -/
def startsPattern (text : List Char) : Bool :=
  (indented? text).any fun content => content.head?.any (!Cursor.endsPattern ·)

/-- Whether the next line with content is indented and starts an attribute. -/
def startsAttribute (text : List Char) : Bool :=
  (indented? text).any fun content => content.head? = some '.'

/-- Whether a text starts with a single opening bracket. -/
def startsBracket : List Char → Bool
  | '[' :: rest => rest.head? ≠ some '['
  | _ => false

/-- The text behind a star. -/
def behindStar : List Char → List Char
  | '*' :: rest => rest
  | text => text

/-- Whether the line ends and the next line with content is indented and starts a variant. -/
def startsVariant (text : List Char) : Bool :=
  (indented? (text.dropWhile isInlineBlank)).any fun content => startsBracket (behindStar content)

/-- Whether a pattern starts on the line, or on the next line with content. -/
def startsValue (text : List Char) : Bool :=
  let line := text.dropWhile isInlineBlank
  if (afterBreak? line).isSome then startsPattern line else !line.isEmpty

/-- Whether a number starts. -/
def startsNumber : List Char → Bool
  | '-' :: rest => rest.head?.any Char.isDigit
  | ch :: _ => ch.isDigit
  | [] => false

/-- Whether a text starts with the arrow between a selector and its variants. -/
def startsArrow : List Char → Bool
  | '-' :: '>' :: _ => true
  | _ => false

/-- A minus starts an arrow just if an angle bracket follows. -/
theorem startsArrow_minus (rest : List Char) :
    startsArrow ('-' :: rest) = decide (rest.head? = some '>') := by
  unfold startsArrow
  split <;> simp_all [List.head?_eq_some_iff]

theorem startsArrow_iff {text : List Char} :
    startsArrow text ↔ ∃ rest, text = '-' :: '>' :: rest := by
  unfold startsArrow
  split <;> simp_all

theorem startsArrow_of_head?_ne {text : List Char} (h : text.head? ≠ some '-') :
    startsArrow text = false := by
  unfold startsArrow
  split <;> simp_all

/-- Whether a text starts with a number of `#` and then ends, breaks or goes on with a blank. -/
def startsMarked : Nat → List Char → Bool
  | 0, rest => rest.head?.all fun ch => ch = ' ' || isLineBreak ch
  | level + 1, '#' :: rest => startsMarked level rest
  | _ + 1, _ => false

/-- Whether the next line is a comment line of a level. -/
def startsComment (level : Nat) (text : List Char) : Bool :=
  (afterBreak? text).any (startsMarked level)

/-- Whether a text starts with two slashes. -/
def startsSlashes : List Char → Bool
  | '/' :: '/' :: _ => true
  | _ => false

/-- Whether the next line is a comment line that starts with two slashes. -/
def startsLegacyComment (text : List Char) : Bool := (afterBreak? text).any startsSlashes

end Text

open Text (afterBreak? afterBlankLines indented?)

/-! ### Cursors -/

namespace Mark

variable {m : Mark}

/-- A mark shows a character that is no line break just if the text starts with it. -/
theorem char?_eq_some_iff_head? {ch : Char} (h : isLineBreak ch = false) :
    m.char? = some ch ↔ m.rest.head? = some ch := by
  have hne : ch ≠ '\n' := by
    rintro rfl
    exact absurd h (by decide)
  rw [char?_eq_some_iff hne, List.head?_eq_some_iff]
  simp [h]

/-- A question that does not tell the line breaks apart may be asked about the text. -/
theorem any_char? {q : Char → Bool} (h : q '\r' = q '\n') :
    m.char?.any q = m.rest.head?.any q := by
  unfold char?
  cases m.rest with
  | nil => rfl
  | cons ch rest =>
    by_cases hch : ch = '\r'
    · simp [hch, h]
    · simp [hch]

/-- A step over a character that is no line break leaves the text behind it. -/
theorem step_rest_of_head? {ch : Char} (hbreak : isLineBreak ch = false)
    (h : m.char? = some ch) : m.rest = ch :: m.step.rest := by
  rw [char?_eq_some_iff_head? hbreak, List.head?_eq_some_iff] at h
  obtain ⟨rest, hrest⟩ := h
  rw [step_of_cons hbreak hrest, hrest]

end Mark

namespace Cursor

variable {c : Cursor}

/-- Looking past blank lines is undone by resetting the lookahead. -/
theorem peekBlankLines_resetPeek (c : Cursor) : c.peekBlankLines.resetPeek = c.resetPeek := by
  fun_induction peekBlankLines c with
  | case1 c p hp ih => exact ih
  | case2 => rfl

/-- Looking past blanks drops them from the text ahead. -/
theorem peekInlineBlanks_rest (c : Cursor) :
    c.peekInlineBlanks.ahead.rest = c.ahead.rest.dropWhile isInlineBlank :=
  (Mark.skipWhile_reads (fun _ => Text.not_isInlineBlank_of_isLineBreak) c.ahead).2

/-- Looking past blank lines drops them from the text ahead. -/
theorem peekBlankLines_rest (c : Cursor) :
    c.peekBlankLines.ahead.rest = afterBlankLines c.ahead.rest := by
  fun_induction peekBlankLines c with
  | case1 c p hp ih =>
    obtain ⟨rest, hrest⟩ := Option.isSome_iff_exists.1 (Mark.char?_eq_newline_iff.1 hp)
    rw [ih, show p.peek.ahead.rest = rest from Mark.step_rest_of_break hrest]
    refine (Text.afterBlankLines_of_break ?_).symm
    rw [← peekInlineBlanks_rest]
    exact hrest
  | case2 c p hp =>
    refine (Text.afterBlankLines_of_none ?_).symm
    rw [← peekInlineBlanks_rest, ← Option.not_isSome_iff_eq_none, ← Mark.char?_eq_newline_iff]
    exact hp

/-- Looking for an indent is undone by resetting the lookahead. -/
theorem peekNextLineIndent_resetPeek (c : Cursor) :
    c.peekNextLineIndent.2.resetPeek = c.resetPeek := by
  unfold peekNextLineIndent
  split
  · exact peekBlankLines_resetPeek c.peek
  · rfl

/-- The peek position moves to the content of the next line if that is indented. -/
theorem peekNextLineIndent_eq (c : Cursor) :
    c.peekNextLineIndent.1 = (indented? c.ahead.rest).isSome ∧
      ∀ content ∈ indented? c.ahead.rest, c.peekNextLineIndent.2.ahead.rest = content := by
  unfold peekNextLineIndent indented?
  split
  · next hbreak =>
    obtain ⟨rest, hrest⟩ := Option.isSome_iff_exists.1 (Mark.char?_eq_newline_iff.1 hbreak)
    have hline : c.peek.peekBlankLines.ahead.rest = afterBlankLines rest := by
      rw [peekBlankLines_rest, show c.peek.ahead.rest = rest from Mark.step_rest_of_break hrest]
    have hcontent := peekInlineBlanks_rest c.peek.peekBlankLines
    -- the indent is measured by offsets, the text by its length: both see whether blanks were read
    have hlt : c.peek.peekBlankLines.ahead.offset <
          c.peek.peekBlankLines.peekInlineBlanks.ahead.offset ↔ _ :=
      (Mark.skipWhile_reads (fun _ => Text.not_isInlineBlank_of_isLineBreak)
        c.peek.peekBlankLines.ahead).1.offset_lt_iff
    rw [show (Mark.skipWhile isInlineBlank c.peek.peekBlankLines.ahead).rest = _ from hcontent,
      hline] at hlt
    simp only [hrest, Option.bind_some, hcontent, hline]
    split
    · next hshort => simp [hlt.2 hshort]
    · next hlong => simp [mt hlt.1 hlong]
  · next hbreak =>
    rw [peeked, Mark.char?_eq_newline_iff, Option.not_isSome_iff_eq_none] at hbreak
    simp [hbreak]

/-- Looking for a pattern on the next line finds whether the text ahead starts one, and is undone by
resetting the lookahead. -/
theorem peekNextLinePattern_eq (c : Cursor) :
    c.peekNextLinePattern.1 = Text.startsPattern c.ahead.rest ∧
      c.peekNextLinePattern.2.resetPeek = c.resetPeek := by
  obtain ⟨hindented, hcontent⟩ := c.peekNextLineIndent_eq
  refine ⟨?_, c.peekNextLineIndent_resetPeek⟩
  simp only [peekNextLinePattern, hindented, Text.startsPattern, peeked]
  rw [Mark.any_char? (by decide)]
  cases hcase : indented? c.ahead.rest with
  | none => rfl
  | some content => simp [hcontent content hcase]

/-- Whether a pattern goes on is a question about the text ahead. -/
theorem isNextLinePattern_eq (c : Cursor) :
    c.isNextLinePattern = (Text.startsPattern c.ahead.rest, c.resetPeek) :=
  Prod.ext c.peekNextLinePattern_eq.1 c.peekNextLinePattern_eq.2

/-- Whether an attribute follows is a question about the text ahead. -/
theorem isNextLineAttribute_eq (c : Cursor) :
    c.isNextLineAttribute = (Text.startsAttribute c.ahead.rest, c.resetPeek) := by
  obtain ⟨hindented, hcontent⟩ := c.peekNextLineIndent_eq
  refine Prod.ext ?_ c.peekNextLineIndent_resetPeek
  simp only [Cursor.isNextLineAttribute, hindented, Text.startsAttribute, peeked,
    Mark.char?_eq_some_iff_head? (show isLineBreak '.' = false by decide)]
  cases hcase : indented? c.ahead.rest with
  | none => rfl
  | some content => simp [hcontent content hcase]

/-- Whether a value follows is a question about the text ahead. -/
theorem isValueStart_eq (c : Cursor) :
    c.isValueStart = (Text.startsValue c.ahead.rest, c.resetPeek) := by
  have hline := c.peekInlineBlanks_rest
  have hreset : c.peekInlineBlanks.resetPeek = c.resetPeek := rfl
  unfold Cursor.isValueStart Text.startsValue
  dsimp only
  split
  · next hbreak =>
    obtain ⟨hanswer, hback⟩ := c.peekInlineBlanks.peekNextLinePattern_eq
    rw [peeked, Mark.char?_eq_newline_iff, hline] at hbreak
    simp [hanswer, hback, hreset, hline, hbreak]
  -- on this line anything starts a value; what is left is neither empty nor a line break
  · next ch hne hch =>
    have hbreak : ¬(afterBreak? (c.ahead.rest.dropWhile isInlineBlank)).isSome := by
      rw [← hline, ← Mark.char?_eq_newline_iff]
      exact fun h => hne (Option.some.inj (hch.symm.trans h))
    have hnil : c.ahead.rest.dropWhile isInlineBlank ≠ [] := by
      rw [← hline, ne_eq, ← Mark.char?_eq_none_iff]
      simp [show c.peekInlineBlanks.ahead.char? = some ch from hch]
    simp [hreset, hbreak, hnil]
  · next hnone =>
    have hnil : c.ahead.rest.dropWhile isInlineBlank = [] := by
      rw [← hline, ← Mark.char?_eq_none_iff]
      exact hnone
    simp [hreset, hnil]

/-- The question about a number leaves the lookahead at the cursor. -/
theorem isNumberStart_snd (c : Cursor) : c.isNumberStart.2 = c.resetPeek := by
  unfold Cursor.isNumberStart
  dsimp only
  split <;> rfl

/-- Whether a number follows is a question about the text at the cursor, since a digit is looked for
there. -/
theorem isNumberStart_eq (h : c.ahead = c.here) :
    c.isNumberStart = (Text.startsNumber c.here.rest, c.resetPeek) := by
  refine Prod.ext ?_ c.isNumberStart_snd
  unfold Cursor.isNumberStart
  dsimp only
  split
  · next hminus =>
    have hrest := Mark.step_rest_of_head? (by decide) hminus
    have hpeek : c.peek.ahead.rest = c.here.step.rest := by
      rw [← h]
      rfl
    rw [hrest, peeked, Mark.any_char? (by decide), hpeek]
    rfl
  · next ch hne hch =>
    -- any line break is seen as a line feed, and none starts a number
    by_cases hnewline : ch = '\n'
    · subst hnewline
      obtain ⟨rest, hrest⟩ := Option.isSome_iff_exists.1 (current_eq_newline_iff.1 hch)
      obtain ⟨ending, hending, htext⟩ := Text.afterBreak?_eq_some hrest
      rcases hending with rfl | rfl | rfl <;> rw [htext] <;> rfl
    · obtain ⟨-, rest, hrest⟩ := (current_eq_some_iff hnewline).1 hch
      rw [hrest, Text.startsNumber]
      exact hne
  · next hnone =>
    rw [current_eq_none_iff.1 hnone]
    rfl

/-- The character seen ahead is the first one of the text ahead, unless a line break stands there.
-/
theorem peeked_eq_some_iff {ch : Char} (h : isLineBreak ch = false) :
    c.peeked = some ch ↔ c.ahead.rest.head? = some ch := Mark.char?_eq_some_iff_head? h

theorem peek_rest_of_peeked {ch : Char} (hbreak : isLineBreak ch = false)
    (h : c.peeked = some ch) : c.ahead.rest = ch :: c.peek.ahead.rest :=
  Mark.step_rest_of_head? hbreak h

/-- A single opening bracket is told from a doubled one by the second character ahead. -/
theorem startsBracket_eq (c : Cursor) :
    Text.startsBracket c.ahead.rest =
      decide (c.peeked = some '[' ∧ c.peek.peeked ≠ some '[') := by
  by_cases hbracket : c.peeked = some '['
  · rw [peek_rest_of_peeked (by decide) hbracket]
    simp [Text.startsBracket, hbracket,
      peeked_eq_some_iff (c := c.peek) (show isLineBreak '[' = false by decide)]
  · have hhead : c.ahead.rest.head? ≠ some '[' := mt (peeked_eq_some_iff (by decide)).2 hbracket
    unfold Text.startsBracket
    split <;> simp_all

/-- The marker of a default variant is passed over if it is there. -/
theorem behindStar_eq (c : Cursor) :
    Text.behindStar c.ahead.rest = (if c.peeked = some '*' then c.peek else c).ahead.rest := by
  split
  · next hstar =>
    rw [peek_rest_of_peeked (by decide) hstar]
    rfl
  · next hstar =>
    have hhead : c.ahead.rest.head? ≠ some '*' := mt (peeked_eq_some_iff (by decide)).2 hstar
    unfold Text.behindStar
    split <;> simp_all

/-- Whether a variant follows is a question about the text ahead. -/
theorem isNextLineVariant_eq (c : Cursor) :
    c.isNextLineVariant = (Text.startsVariant c.ahead.rest, c.resetPeek) := by
  have hreset : c.peekInlineBlanks.peekNextLineIndent.2.resetPeek = c.resetPeek :=
    c.peekInlineBlanks.peekNextLineIndent_resetPeek
  obtain ⟨hindented, hcontent⟩ := c.peekInlineBlanks.peekNextLineIndent_eq
  rw [peekInlineBlanks_rest] at hindented hcontent
  unfold Cursor.isNextLineVariant Text.startsVariant
  dsimp only
  rw [hindented]
  cases hcase : indented? (c.ahead.rest.dropWhile isInlineBlank) with
  | none => simp [hreset]
  | some content =>
    have hrest := hcontent content hcase
    simp only [Option.isSome_some, if_true, Option.any_some, ← hrest, behindStar_eq,
      startsBracket_eq]
    generalize c.peekInlineBlanks.peekNextLineIndent.2 = p at hreset
    have hback : (if p.peeked = some '*' then p.peek else p).resetPeek = c.resetPeek := by
      split <;> exact hreset
    generalize (if p.peeked = some '*' then p.peek else p) = q at hback
    by_cases hbracket : q.peeked = some '['
    · simp [hbracket, show q.peek.resetPeek = c.resetPeek from hback]
    · simp [hbracket, hback]

/-- Whether an old comment goes on is a question about the text ahead. -/
theorem isNextLineLegacyComment_eq (c : Cursor) :
    c.isNextLineLegacyComment = (Text.startsLegacyComment c.ahead.rest, c.resetPeek) := by
  unfold Cursor.isNextLineLegacyComment Text.startsLegacyComment
  dsimp only
  split
  · next hbreak =>
    obtain ⟨rest, hrest⟩ := Option.isSome_iff_exists.1 (Mark.char?_eq_newline_iff.1 hbreak)
    rw [hrest, Option.any_some, ← show c.peek.ahead.rest = rest from Mark.step_rest_of_break hrest]
    -- behind the line break the two slashes are asked for one after the other
    by_cases hfirst : c.peek.peeked = some '/'
    · rw [peek_rest_of_peeked (by decide) hfirst]
      by_cases hsecond : c.peek.peek.peeked = some '/'
      · rw [peek_rest_of_peeked (by decide) hsecond]
        simp only [Text.startsSlashes, hfirst, hsecond, if_true, decide_true]
        rfl
      · have hhead := mt (peeked_eq_some_iff (c := c.peek.peek) (by decide)).2 hsecond
        simp only [hfirst, hsecond, if_true, decide_false]
        unfold Text.startsSlashes
        split
        · next tail htail => simp_all
        · rfl
    · have hhead := mt (peeked_eq_some_iff (c := c.peek) (by decide)).2 hfirst
      simp only [hfirst, if_false]
      unfold Text.startsSlashes
      split
      · next tail htail => simp [htail] at hhead
      · rfl
  · next hbreak =>
    rw [peeked, Mark.char?_eq_newline_iff, Option.not_isSome_iff_eq_none] at hbreak
    simp [hbreak]

/-- Markers are looked for one by one. -/
theorem startsMarked_eq (c : Cursor) (level : Nat) :
    Text.startsMarked level c.ahead.rest =
      ((c.peekMarkers level).1 && match (c.peekMarkers level).2.peeked with
        | none => true
        | some ch => ch = ' ' || ch = '\n') := by
  induction level generalizing c with
  | zero =>
    unfold Text.startsMarked peekMarkers
    cases hrest : c.ahead.rest with
    | nil => simp [show c.peeked = none from Mark.char?_eq_none_iff.2 hrest]
    | cons ch rest =>
      have hpeeked : c.peeked = some (if ch = '\r' then '\n' else ch) := by
        simp [peeked, Mark.char?, hrest]
      rw [hpeeked]
      -- both line breaks end the line of marks
      by_cases hch : ch = '\r'
      · simp [hch, isLineBreak]
      · simp [hch, isLineBreak]
  | succ level ih =>
    by_cases hmarker : c.peeked = some '#'
    · rw [peek_rest_of_peeked (by decide) hmarker]
      simp only [Text.startsMarked, peekMarkers, hmarker, if_true]
      exact ih c.peek
    · have hhead := mt (peeked_eq_some_iff (c := c) (by decide)).2 hmarker
      simp only [peekMarkers, hmarker, if_false]
      unfold Text.startsMarked
      split <;> simp_all

/-- Looking for comment markers is undone by resetting the lookahead. -/
theorem peekMarkers_resetPeek (c : Cursor) (level : Nat) :
    (c.peekMarkers level).2.resetPeek = c.resetPeek := by
  induction level generalizing c with
  | zero => rfl
  | succ level ih =>
    unfold peekMarkers
    split
    · exact ih c.peek
    · rfl

/-- Whether a comment of a level goes on is a question about the text ahead. -/
theorem isNextLineComment_eq (c : Cursor) (level : Nat) :
    c.isNextLineComment level = (Text.startsComment level c.ahead.rest, c.resetPeek) := by
  unfold Cursor.isNextLineComment Text.startsComment
  dsimp only
  split
  · next hbreak =>
    obtain ⟨rest, hrest⟩ := Option.isSome_iff_exists.1 (Mark.char?_eq_newline_iff.1 hbreak)
    rw [hrest, Option.any_some, ← show c.peek.ahead.rest = rest from Mark.step_rest_of_break hrest,
      startsMarked_eq]
    exact Prod.ext rfl (peekMarkers_resetPeek c.peek level)
  · next hbreak =>
    rw [peeked, Mark.char?_eq_newline_iff, Option.not_isSome_iff_eq_none] at hbreak
    simp [hbreak]

/-! ### Without pending lookahead -/

/-- For a cursor without pending lookahead, the question about a pattern changes nothing. -/
theorem Ready.isNextLinePattern (hc : c.Ready) :
    c.isNextLinePattern = (Text.startsPattern c.here.rest, c) := by
  rw [isNextLinePattern_eq, hc.ahead_eq, hc.resetPeek]

theorem Ready.isNextLineAttribute (hc : c.Ready) :
    c.isNextLineAttribute = (Text.startsAttribute c.here.rest, c) := by
  rw [isNextLineAttribute_eq, hc.ahead_eq, hc.resetPeek]

theorem Ready.isNextLineVariant (hc : c.Ready) :
    c.isNextLineVariant = (Text.startsVariant c.here.rest, c) := by
  rw [isNextLineVariant_eq, hc.ahead_eq, hc.resetPeek]

theorem Ready.isValueStart (hc : c.Ready) :
    c.isValueStart = (Text.startsValue c.here.rest, c) := by
  rw [isValueStart_eq, hc.ahead_eq, hc.resetPeek]

theorem Ready.isNumberStart (hc : c.Ready) :
    c.isNumberStart = (Text.startsNumber c.here.rest, c) := by
  rw [isNumberStart_eq hc.ahead_eq, hc.resetPeek]

theorem Ready.isNextLineComment (hc : c.Ready) (level : Nat) :
    c.isNextLineComment level = (Text.startsComment level c.here.rest, c) := by
  rw [isNextLineComment_eq, hc.ahead_eq, hc.resetPeek]

theorem Ready.isNextLineLegacyComment (hc : c.Ready) :
    c.isNextLineLegacyComment = (Text.startsLegacyComment c.here.rest, c) := by
  rw [isNextLineLegacyComment_eq, hc.ahead_eq, hc.resetPeek]

/-- No lookahead is pending, but for one that has found an arrow. -/
inductive Settled : Cursor → Prop
  | ready {c : Cursor} : c.Ready → Settled c
  | arrow {c : Cursor} : c.Ready → Text.startsArrow c.here.rest → Settled c.peek

/-- A cursor without pending lookahead is settled. -/
theorem Ready.settled (hc : c.Ready) : c.Settled := .ready hc

/-- Resetting the lookahead of a settled cursor makes it ready. -/
theorem Settled.resetPeek_ready (h : c.Settled) : c.resetPeek.Ready := by
  cases h with
  | ready hc => exact hc.resetPeek.symm ▸ hc
  | @arrow c hc _ => exact (show c.peek.resetPeek = c from hc.resetPeek).symm ▸ hc

/-- No blank line starts at an arrow, nor behind its minus sign. -/
theorem Settled.skipBlankLines (h : c.Settled) :
    c.skipBlankLines = c.resetPeek.skipBlankLines := by
  cases h with
  | ready hc => rw [hc.resetPeek]
  | @arrow c hc harrow =>
    obtain ⟨rest, hrest⟩ := Text.startsArrow_iff.1 harrow
    have hpeeked : c.peek.peekInlineBlanks.peeked = some '>' := by
      refine (peeked_eq_some_iff (by decide)).2 ?_
      have hahead : c.peek.ahead.rest = '>' :: rest := by
        rw [show c.peek.ahead = c.here.step by rw [← hc.ahead_eq]; rfl,
          Mark.step_of_cons (by decide) hrest]
      rw [peekInlineBlanks_rest, hahead]
      rfl
    have hreset : c.peekInlineBlanks.peeked = some '-' := by
      refine (peeked_eq_some_iff (by decide)).2 ?_
      rw [peekInlineBlanks_rest, hc.ahead_eq, hrest]
      rfl
    rw [show c.peek.resetPeek = c from hc.resetPeek, Cursor.skipBlankLines, Cursor.skipBlankLines]
    simp only [hpeeked, hreset]
    rfl

end Cursor

end Localization
