import Localization.Proofs.Resource.Spelling.Comment
import Localization.Proofs.Resource.Spelling.Layout
import Mathlib.Logic.Function.Iterate

/-!
# What the lookahead promises

The layout of a resource is described twice: by the questions about the lines ahead, which move the
peek position, and by the moves that commit those lines. Asked where no lookahead is pending, each
question promises what the move behind it does. A positive answer means that the move succeeds, and
that it stops at the character that the question has looked at.

## Main definitions

* `Cursor.AtBracket` — a cursor stands at a bracket that no second one follows
* `Cursor.nextLine` — commits a line break and the blanks of the next line

## Main statements

* `Cursor.Ready.expectIndent_attribute`, `Cursor.Ready.expectIndent_variant` — an indented line
  that is foreseen is reached
* `Cursor.Ready.skipIndent_value` — a value that is foreseen is reached
* `Cursor.Ready.commentLine_next` — a comment line that is foreseen is read
* `Cursor.Ready.nextLine_pattern` — line by line, the pattern stays in sight until it is reached
* `Cursor.Ready.lookahead_agrees` — all of them together
-/

namespace Localization

open Text (IsIndent)

/-! ### Places -/

namespace Mark

variable {m n k : Mark}

/-- Two places behind a third one are the same if the same text follows them. -/
theorem Reads.eq_of_rest {first second : List Char} (h : m.Reads first n) (h' : m.Reads second k)
    (hrest : n.rest = k.rest) : n = k := by
  have htaken : first = second := by
    refine @List.append_cancel_right _ first n.rest second ?_
    rw [← h.1, h'.1, hrest]
  have hoffset : n.offset = k.offset := by rw [h.2, h'.2, htaken]
  cases n
  cases k
  simp_all

end Mark

namespace Cursor

variable {c d : Cursor} {gap rest : List Char} {ch : Char}

theorem peekInlineBlanks_reads (c : Cursor) :
    ∃ taken, c.ahead.Reads taken c.peekInlineBlanks.ahead :=
  ⟨_, (Mark.skipWhile_reads (fun _ => Text.not_isInlineBlank_of_isLineBreak) c.ahead).1⟩

theorem peekBlankLines_reads (c : Cursor) :
    ∃ taken, c.ahead.Reads taken c.peekBlankLines.ahead := by
  fun_induction peekBlankLines c with
  | case1 c p _ ih =>
    obtain ⟨blanks, hblanks⟩ := c.peekInlineBlanks_reads
    obtain ⟨ending, hending⟩ := p.ahead.step_reads
    obtain ⟨lines, hlines⟩ := ih
    exact ⟨_, hblanks.trans (hending.trans hlines)⟩
  | case2 c => exact ⟨[], .refl _⟩

/-- Looking for the next line with content moves the peek position forward. -/
theorem peekNextLineIndent_reads (c : Cursor) :
    ∃ taken, c.ahead.Reads taken c.peekNextLineIndent.2.ahead := by
  unfold peekNextLineIndent
  split
  · obtain ⟨ending, hending⟩ := c.ahead.step_reads
    obtain ⟨lines, hlines⟩ := c.peek.peekBlankLines_reads
    obtain ⟨blanks, hblanks⟩ := c.peek.peekBlankLines.peekInlineBlanks_reads
    exact ⟨_, hending.trans (hlines.trans hblanks)⟩
  · exact ⟨[], .refl _⟩

theorem current_of_visible (hch : Text.isVisible ch) (hrest : c.here.rest = ch :: rest) :
    c.current = some ch :=
  current_of_cons (Text.not_isLineBreak_of_isVisible hch) hrest

/-! ### Indented lines -/

/-- Where a line with content is indented, its indent is read. -/
theorem Ready.expectIndent_line {blanks : List Char} (hc : c.Ready) (hblanks : Text.IsBlanks blanks)
    (hgap : IsIndent gap) (hch : Text.isVisible ch)
    (hrest : c.here.rest = blanks ++ (gap ++ ch :: rest)) :
    ∃ d, Parser.expectIndent c = .ok () d ∧ d.Ready ∧ d.here.rest = ch :: rest := by
  obtain ⟨d, hread, htakes⟩ := Parser.expectIndent_yields hc hblanks hgap
    (Text.startsVisible_cons.2 hch) (List.cons_ne_nil ch rest) hrest
  exact ⟨d, hread, htakes.ready, htakes.rest_eq (by rw [hrest, List.append_assoc])⟩

/-- Where the next line is seen to start an attribute, its indent is read up to the dot. -/
theorem Ready.expectIndent_attribute (hc : c.Ready) (h : c.isNextLineAttribute.1) :
    ∃ d, Parser.expectIndent c = .ok () d ∧ d.current = some '.' := by
  rw [hc.isNextLineAttribute] at h
  obtain ⟨gap, rest, hgap, hrest⟩ := Text.startsAttribute_iff.1 h
  obtain ⟨d, hread, -, hdot⟩ := hc.expectIndent_line Text.isBlanks_nil hgap (by decide) hrest
  exact ⟨d, hread, current_of_cons (by decide) hdot⟩

/-- The cursor stands at an opening bracket, and not at two of them. -/
def AtBracket (c : Cursor) : Prop := c.current = some '[' ∧ c.next.current ≠ some '['

theorem AtBracket.of_rest (h : Text.startsBracket c.here.rest) : c.AtBracket := by
  unfold Text.startsBracket at h
  split at h
  · next rest hrest =>
    refine ⟨current_of_cons (by decide) hrest, fun hsecond => ?_⟩
    rw [current_eq_head? (by decide), next_rest_of_cons (by decide) hrest] at hsecond
    simp [hsecond] at h
  · cases h

/-- Where the next line is seen to start a variant, its indent is read up to the bracket or the
star in front of it. -/
theorem Ready.expectIndent_variant (hc : c.Ready) (h : c.isNextLineVariant.1) :
    ∃ d, Parser.expectIndent c = .ok () d ∧
      (d.AtBracket ∨ d.current = some '*' ∧ d.next.AtBracket) := by
  rw [hc.isNextLineVariant] at h
  obtain ⟨blanks, gap, rest, hblanks, hgap, hvisible, hbracket, hrest⟩ :=
    Text.startsVariant_iff.1 h
  cases rest with
  | nil => cases hbracket
  | cons ch rest =>
    obtain ⟨d, hread, -, hline⟩ :=
      hc.expectIndent_line hblanks hgap (Text.startsVisible_cons.1 hvisible) hrest
    refine ⟨d, hread, ?_⟩
    by_cases hstar : ch = '*'
    · subst hstar
      refine .inr ⟨current_of_cons (by decide) hline, .of_rest ?_⟩
      rw [next_rest_of_cons (by decide) hline]
      exact hbracket
    · rw [Text.behindStar_cons_of_ne hstar] at hbracket
      exact .inl (.of_rest (hline ▸ hbracket))

/-! ### Values and comments -/

/-- Where a value is seen to start, skipping the indent leads to its first character. -/
theorem Ready.skipIndent_value (hc : c.Ready) (h : c.isValueStart.1) :
    ∃ ch, c.skipIndent.current = some ch ∧ Text.isVisible ch := by
  rw [hc.isValueStart] at h
  obtain ⟨lead, ch, more, -, hrest, hvisible, -⟩ := Parser.startsValue_lead hc h
  exact ⟨ch, current_of_visible hvisible hrest, hvisible⟩

/-- Behind the marks of a line that is seen to start a comment stands a line of it. -/
theorem exists_line_of_startsMarked {level : Nat} {text : List Char}
    (h : Text.startsMarked level text) :
    ∃ line content rest, MarkedLine line content ∧ LineEnds rest ∧
      text = marks level ++ (line ++ rest) := by
  induction level generalizing text with
  | zero =>
    rcases startsMarked_zero.1 h with hends | hspace
    · exact ⟨[], [], text, .empty, hends, rfl⟩
    · obtain ⟨rest, rfl⟩ := List.head?_eq_some_iff.1 hspace
      have hline : IsLine (rest.takeWhile (!isLineBreak ·)) := fun ch hch => by
        simpa using List.mem_takeWhile_imp hch
      refine ⟨_, _, rest.dropWhile (!isLineBreak ·), .text hline, Text.ends_dropWhile _ rest, ?_⟩
      exact congrArg (' ' :: ·) List.takeWhile_append_dropWhile.symm
  | succ level ih =>
    unfold Text.startsMarked at h
    split at h
    · next heq => cases heq
    · next rest heq =>
      obtain rfl := Nat.succ.inj heq
      obtain ⟨line, content, tail, hline, hends, rfl⟩ := ih h
      exact ⟨line, content, tail, hline, hends, rfl⟩
    · cases h

/-- Where the next line is seen to go on with a comment, its marks and its text are read. -/
theorem Ready.commentLine_next (hc : c.Ready) {level : Nat} (h : (c.isNextLineComment level).1) :
    ∃ d text e, Parser.expectMarkers level c.next = .ok () d ∧
      Parser.commentLine d = .ok text e := by
  rw [hc.isNextLineComment] at h
  obtain ⟨behind, hbreak, hmarked⟩ := (Option.any_eq_true _ _).1 h
  obtain ⟨line, content, rest, hline, hends, rfl⟩ := exists_line_of_startsMarked hmarked
  obtain ⟨d, hmarks, htakes⟩ :=
    Parser.expectMarkers_yields hc.next (next_rest_of_break hbreak)
  obtain ⟨e, htext, -⟩ := Parser.commentLine_yields htakes.ready hline
    (htakes.rest_eq (next_rest_of_break hbreak)) hends
  exact ⟨d, content, e, hmarks, htext⟩

/-! ### Patterns -/

/-- Commits a line break and the blanks of the next line. -/
def nextLine (c : Cursor) : Cursor := c.next.skipInlineBlanks

theorem Ready.nextLine (hc : c.Ready) : c.nextLine.Ready := hc.next.skipInlineBlanks

theorem to_nextLine (c : Cursor) : c.To c.nextLine := c.to_next.trans (to_skipWhile _ _)

/-- The cursor stands at a line break behind which a pattern goes on. -/
def SeesPattern (c : Cursor) : Prop := c.current = some '\n' ∧ c.isNextLinePattern.1

theorem Ready.seesPattern (hc : c.Ready) (hgap : IsIndent gap) (hch : Text.isVisible ch)
    (hends : endsPattern ch = false) (hrest : c.here.rest = gap ++ ch :: rest) :
    c.SeesPattern := by
  constructor
  · rw [current_eq_newline_iff, hrest, ← Text.startsBreak_iff_isSome]
    exact hgap.startsBreak.append
  · rw [hc.isNextLinePattern, hrest]
    exact Text.startsPattern_iff.2 ⟨gap, ch, rest, hgap, hch, hends, rfl⟩

/-- A line break is behind the cursor, and the rest of an indent is left. -/
theorem Ready.nextLine_rest_of_indent (hc : c.Ready) (hgap : IsIndent gap)
    (hch : Text.isVisible ch) (hrest : c.here.rest = gap ++ ch :: rest) :
    ∃ gap', (gap' = [] ∨ IsIndent gap') ∧ gap'.length < gap.length ∧
      c.nextLine.here.rest = gap' ++ ch :: rest := by
  obtain ⟨gap', -, hstart, hleft⟩ :=
    nextLine_rest hgap.isGap hgap.startsBreak (Text.startsVisible_cons.2 hch) hrest
  -- what has been committed is the first part of the indent, and not nothing
  obtain ⟨line, hline⟩ := Option.isSome_iff_exists.1 (Text.startsBreak_iff_isSome.1
    (hrest ▸ hgap.startsBreak.append : Text.StartsBreak c.here.rest))
  obtain ⟨ending, hending, -, hsplit⟩ := Text.afterBreak?_eq_some_iff.1 hline
  have hnext := hc.next_takes_break hline hsplit
  obtain ⟨blanks, -, hblanks⟩ := hnext.ready.takes_blanks
  have htaken : gap = ending ++ (blanks ++ gap') := by
    refine @List.append_cancel_right _ gap (ch :: rest) (ending ++ (blanks ++ gap')) ?_
    rw [← hrest, hnext.rest, hblanks.rest, show c.next.skipInlineBlanks.here.rest = _ from hleft]
    simp only [List.append_assoc]
  refine ⟨gap', hstart.imp_right fun hbreak => ?_, ?_, hleft⟩
  · rw [htaken, ← List.append_assoc] at hgap
    exact hgap.of_append hbreak
  · have hpos := List.length_pos_iff.2 hending.ne_nil
    rw [htaken, List.length_append, List.length_append]
    omega

/-- Over the lines of an indent, the pattern behind it stays in sight until it is reached. -/
theorem Ready.nextLine_run (hc : c.Ready) (hgap : IsIndent gap) (hch : Text.isVisible ch)
    (hends : endsPattern ch = false) (hrest : c.here.rest = gap ++ ch :: rest) :
    ∃ count, (∀ i ≤ count, (Cursor.nextLine^[i] c).SeesPattern) ∧
      c.To (Cursor.nextLine^[count + 1] c) ∧
      (Cursor.nextLine^[count + 1] c).here.rest = ch :: rest := by
  -- by the length of the indent: each line makes it shorter
  induction hlength : gap.length using Nat.strong_induction_on generalizing c gap with
  | _ length ih =>
    subst hlength
    have hsees := hc.seesPattern hgap hch hends hrest
    obtain ⟨gap', hgap', hlt, hleft⟩ := hc.nextLine_rest_of_indent hgap hch hrest
    rcases hgap' with rfl | hgap'
    · refine ⟨0, fun i hi => ?_, c.to_nextLine, hleft⟩
      obtain rfl := Nat.le_zero.1 hi
      exact hsees
    · obtain ⟨count, hrun, hto, hreached⟩ := ih _ hlt hc.nextLine hgap' hleft rfl
      refine ⟨count + 1, fun i hi => ?_, c.to_nextLine.trans hto, hreached⟩
      cases i with
      | zero => exact hsees
      | succ i => exact hrun i (Nat.le_of_succ_le_succ hi)

/-- Where a pattern is seen to go on, committing line after line leads to the character that was
looked at, and at each line break on the way the pattern is still in sight. -/
theorem Ready.nextLine_pattern (hc : c.Ready) (h : c.isNextLinePattern.1) :
    ∃ count, (∀ i ≤ count, (Cursor.nextLine^[i] c).SeesPattern) ∧
      (Cursor.nextLine^[count + 1] c).here = c.peekNextLinePattern.2.ahead ∧
      ∃ ch, (Cursor.nextLine^[count + 1] c).current = some ch ∧ Text.isVisible ch ∧
        endsPattern ch = false := by
  rw [hc.isNextLinePattern] at h
  obtain ⟨gap, ch, rest, hgap, hch, hends, hrest⟩ := Text.startsPattern_iff.1 h
  obtain ⟨count, hrun, hto, hreached⟩ := hc.nextLine_run hgap hch hends hrest
  refine ⟨count, hrun, ?_, ch, current_of_visible hch hreached, hch, hends⟩
  obtain ⟨taken, hreads⟩ := hto.reads
  obtain ⟨peeked, hpeeked⟩ := c.peekNextLineIndent_reads
  rw [hc.ahead_eq] at hpeeked
  refine hreads.here.eq_of_rest hpeeked ?_
  have hcontent : Text.indented? c.ahead.rest = some (ch :: rest) := by
    rw [hc.ahead_eq]
    exact Text.indented?_eq_some_iff.2 ⟨gap, hgap, Text.startsVisible_cons.2 hch, hrest⟩
  rw [hreached]
  exact (c.peekNextLineIndent_eq.2 _ hcontent).symm

/-! ### All questions -/

/-- A positive answer about the lines ahead is a promise that the moves keep: they succeed, and
they stop where the question has looked. -/
theorem Ready.lookahead_agrees (hc : c.Ready) :
    (c.isNextLineAttribute.1 → ∃ d, Parser.expectIndent c = .ok () d ∧ d.current = some '.') ∧
    (c.isNextLineVariant.1 → ∃ d, Parser.expectIndent c = .ok () d ∧
      (d.AtBracket ∨ d.current = some '*' ∧ d.next.AtBracket)) ∧
    (c.isValueStart.1 → ∃ ch, c.skipIndent.current = some ch ∧ Text.isVisible ch) ∧
    (∀ level, (c.isNextLineComment level).1 → ∃ d text e,
      Parser.expectMarkers level c.next = .ok () d ∧ Parser.commentLine d = .ok text e) ∧
    (c.isNextLinePattern.1 → ∃ count, (∀ i ≤ count, (Cursor.nextLine^[i] c).SeesPattern) ∧
      (Cursor.nextLine^[count + 1] c).here = c.peekNextLinePattern.2.ahead ∧
      ∃ ch, (Cursor.nextLine^[count + 1] c).current = some ch ∧ Text.isVisible ch ∧
        endsPattern ch = false) :=
  ⟨hc.expectIndent_attribute, hc.expectIndent_variant, hc.skipIndent_value,
    fun _ => hc.commentLine_next, hc.nextLine_pattern⟩

/-- Each promise is made and kept somewhere, the last one over a blank line. -/
theorem lookahead_agrees_ofText :
    (∃ d, Parser.expectIndent (ofText "\r\n  .x".toList) = .ok () d ∧ d.current = some '.') ∧
    (∃ d, Parser.expectIndent (ofText "\n *[x]".toList) = .ok () d ∧
      (d.AtBracket ∨ d.current = some '*' ∧ d.next.AtBracket)) ∧
    (∃ ch, (ofText " \n x".toList).skipIndent.current = some ch ∧ Text.isVisible ch) ∧
    (∃ d text e, Parser.expectMarkers 2 (ofText "\n## x".toList).next = .ok () d ∧
      Parser.commentLine d = .ok text e) ∧
    ∃ count, (∀ i ≤ count, (Cursor.nextLine^[i] (ofText "\r\n \n  x".toList)).SeesPattern) ∧
      (Cursor.nextLine^[count + 1] (ofText "\r\n \n  x".toList)).here =
        (ofText "\r\n \n  x".toList).peekNextLinePattern.2.ahead := by
  obtain ⟨hattribute, -⟩ := (ready_ofText "\r\n  .x".toList).lookahead_agrees
  obtain ⟨-, hvariant, -⟩ := (ready_ofText "\n *[x]".toList).lookahead_agrees
  obtain ⟨-, -, hvalue, -⟩ := (ready_ofText " \n x".toList).lookahead_agrees
  obtain ⟨-, -, -, hcomment, -⟩ := (ready_ofText "\n## x".toList).lookahead_agrees
  obtain ⟨-, -, -, -, hpattern⟩ := (ready_ofText "\r\n \n  x".toList).lookahead_agrees
  obtain ⟨count, hrun, hreached, -⟩ := hpattern (by decide +kernel)
  exact ⟨hattribute (by decide +kernel), hvariant (by decide +kernel), hvalue (by decide +kernel),
    hcomment 2 (by decide +kernel), count, hrun, hreached⟩

end Cursor

end Localization
