import Localization.Proofs.Resource.Lookahead
import Localization.Proofs.Text.Gaps

/-!
# What the answers of the lookahead mean

A positive answer of the lookahead says how the text ahead is made: a gap, and a character behind
it that decides. A text that ends with a line break answers for itself, whatever line without
indentation follows it.

## Main statements

* `Text.startsPattern_iff`, `Text.startsAttribute_iff`, `Text.startsVariant_iff`,
  `Text.startsValue_iff` — the texts that get a positive answer
* `Text.EndsLine.startsPattern_append` and its like — the lines behind a text do not matter
-/

namespace Localization.Text

variable {text rest post : List Char} {ch : Char}

/-! ### Positive answers -/

/-- A pattern goes on behind an indent, with a visible character that ends no pattern. -/
theorem startsPattern_iff :
    startsPattern text ↔ ∃ gap ch rest, IsIndent gap ∧ isVisible ch ∧
      Cursor.endsPattern ch = false ∧ text = gap ++ ch :: rest := by
  unfold startsPattern
  rw [Option.any_eq_true]
  constructor
  · rintro ⟨content, hcontent, hhead⟩
    obtain ⟨gap, hindent, hvisible, rfl⟩ := indented?_eq_some_iff.1 hcontent
    cases content with
    | nil => simp at hhead
    | cons ch rest =>
      exact ⟨gap, ch, rest, hindent, startsVisible_cons.1 hvisible, by simpa using hhead, rfl⟩
  · rintro ⟨gap, ch, rest, hindent, hvisible, hends, rfl⟩
    exact ⟨_, indented?_eq_some_iff.2 ⟨gap, hindent, startsVisible_cons.2 hvisible, rfl⟩,
      by simpa using hends⟩

/-- An attribute follows behind an indent, with its dot. -/
theorem startsAttribute_iff :
    startsAttribute text ↔ ∃ gap rest, IsIndent gap ∧ text = gap ++ '.' :: rest := by
  unfold startsAttribute
  rw [Option.any_eq_true]
  constructor
  · rintro ⟨content, hcontent, hhead⟩
    obtain ⟨gap, hindent, -, rfl⟩ := indented?_eq_some_iff.1 hcontent
    obtain ⟨rest, rfl⟩ := List.head?_eq_some_iff.1 (of_decide_eq_true hhead)
    exact ⟨gap, rest, hindent, rfl⟩
  · rintro ⟨gap, rest, hindent, rfl⟩
    have hvisible : StartsVisible ('.' :: rest) := startsVisible_cons.2 (by decide)
    exact ⟨_, indented?_eq_some_iff.2 ⟨gap, hindent, hvisible, rfl⟩, by simp⟩

/-- A variant follows on another line, with a single bracket and maybe a star in front. -/
theorem startsVariant_iff :
    startsVariant text ↔ ∃ blanks gap rest, IsBlanks blanks ∧ IsIndent gap ∧ StartsVisible rest ∧
      startsBracket (behindStar rest) ∧ text = blanks ++ (gap ++ rest) := by
  unfold startsVariant
  rw [Option.any_eq_true]
  constructor
  · rintro ⟨content, hcontent, hbracket⟩
    obtain ⟨gap, hindent, hvisible, hline⟩ := indented?_eq_some_iff.1 hcontent
    refine ⟨text.takeWhile isInlineBlank, gap, content, isBlanks_takeWhile, hindent, hvisible,
      hbracket, ?_⟩
    rw [← hline, List.takeWhile_append_dropWhile]
  · rintro ⟨blanks, gap, rest, hblanks, hindent, hvisible, hbracket, rfl⟩
    refine ⟨rest, indented?_eq_some_iff.2 ⟨gap, hindent, hvisible, ?_⟩, hbracket⟩
    rw [hblanks.dropWhile_append, hindent.dropWhile_append]

/-- A value follows on the same line, or behind an indent with a character that ends no pattern. -/
theorem startsValue_iff :
    startsValue text ↔ ∃ blanks gap ch rest, IsBlanks blanks ∧ isVisible ch ∧
      (gap = [] ∨ IsIndent gap ∧ Cursor.endsPattern ch = false) ∧
      text = blanks ++ (gap ++ ch :: rest) := by
  have hsplit := List.takeWhile_append_dropWhile (p := isInlineBlank) (l := text)
  unfold startsValue
  dsimp only
  constructor
  · intro h
    split at h
    -- behind a line break the value has to go on as a pattern does
    · obtain ⟨gap, ch, rest, hindent, hvisible, hends, hline⟩ := startsPattern_iff.1 h
      exact ⟨_, gap, ch, rest, isBlanks_takeWhile, hvisible, .inr ⟨hindent, hends⟩,
        by rw [← hline, hsplit]⟩
    · next hbreak =>
      cases hline : text.dropWhile isInlineBlank with
      | nil => simp [hline] at h
      | cons ch rest =>
        -- on the line itself any visible character will do
        have hhead := List.head?_dropWhile_not isInlineBlank text
        rw [hline, ← startsBreak_iff_isSome, startsBreak_cons] at hbreak
        rw [hline] at hhead hsplit
        refine ⟨_, [], ch, rest, isBlanks_takeWhile, ?_, .inl rfl, hsplit.symm⟩
        have hblank : isInlineBlank ch = false := by simpa using hhead
        simp [isVisible, hblank, hbreak]
  · rintro ⟨blanks, gap, ch, rest, hblanks, hvisible, hgap, rfl⟩
    rw [hblanks.dropWhile_append]
    rcases hgap with rfl | ⟨hindent, hends⟩
    · have hbreak := not_isLineBreak_of_isVisible hvisible
      rw [List.nil_append, (startsVisible_cons.2 hvisible).dropWhile,
        afterBreak?_cons_of_not hbreak]
      rfl
    · rw [hindent.dropWhile_append,
        if_pos (startsBreak_iff_isSome.1 hindent.startsBreak.append)]
      exact startsPattern_iff.2 ⟨gap, ch, rest, hindent, hvisible, hends, rfl⟩

theorem behindStar_cons_of_ne (h : ch ≠ '*') : behindStar (ch :: rest) = ch :: rest := by
  unfold behindStar
  split <;> simp_all

/-! ### Lines behind a text -/

section EndsLine

variable (h : EndsLine text) (hpost : StartsVisible post)
include h hpost

/-- Whether a text that ends its line is indented is decided within it. -/
theorem EndsLine.indented?_append :
    (indented? text = none ∧ indented? (text ++ post) = none) ∨
      ∃ content, EndsLine content ∧ indented? text = some content ∧
        indented? (text ++ post) = some (content ++ post) := by
  rw [Text.indented?_append hpost]
  cases hcontent : indented? text with
  | none => exact .inl ⟨rfl, rfl⟩
  | some content =>
    obtain ⟨gap, hindent, -, rfl⟩ := indented?_eq_some_iff.1 hcontent
    exact .inr ⟨content, hindent.endsLine_of_append h, rfl, rfl⟩

/-- Within a text that ends its line, what follows does not decide whether a pattern goes on. -/
theorem EndsLine.startsPattern_append : startsPattern (text ++ post) = startsPattern text := by
  unfold startsPattern
  rcases h.indented?_append hpost with ⟨hnone, hnone'⟩ | ⟨content, hline, hsome, hsome'⟩
  · rw [hnone, hnone']
  · rw [hsome, hsome', Option.any_some, Option.any_some,
      List.head?_append_of_ne_nil _ hline.ne_nil]

theorem EndsLine.startsAttribute_append :
    startsAttribute (text ++ post) = startsAttribute text := by
  unfold startsAttribute
  rcases h.indented?_append hpost with ⟨hnone, hnone'⟩ | ⟨content, hline, hsome, hsome'⟩
  · rw [hnone, hnone']
  · rw [hsome, hsome', Option.any_some, Option.any_some,
      List.head?_append_of_ne_nil _ hline.ne_nil]

omit hpost in
theorem EndsLine.startsBracket_append : startsBracket (text ++ post) = startsBracket text := by
  cases text with
  | nil => exact absurd rfl h.ne_nil
  | cons ch rest =>
    by_cases hch : ch = '['
    · subst hch
      rw [List.cons_append, startsBracket, startsBracket,
        List.head?_append_of_ne_nil _ (h.of_cons (by decide)).ne_nil]
    · simp [startsBracket, hch]

omit hpost in
theorem EndsLine.behindStar_append :
    behindStar (text ++ post) = behindStar text ++ post ∧ EndsLine (behindStar text) := by
  cases text with
  | nil => exact absurd rfl h.ne_nil
  | cons ch rest =>
    by_cases hch : ch = '*'
    · subst hch
      exact ⟨rfl, h.of_cons (by decide)⟩
    · rw [List.cons_append, behindStar_cons_of_ne hch, behindStar_cons_of_ne hch]
      exact ⟨rfl, h⟩

/-- Within a text that ends its line, what follows does not decide whether a variant comes next. -/
theorem EndsLine.startsVariant_append : startsVariant (text ++ post) = startsVariant text := by
  unfold startsVariant
  rw [hpost.dropWhile_append]
  have hline := h.dropWhile fun _ => not_isInlineBlank_of_isLineBreak
  rcases hline.indented?_append hpost with
    ⟨hnone, hnone'⟩ | ⟨content, hline, hsome, hsome'⟩
  · rw [hnone, hnone']
  · obtain ⟨hstar, hends⟩ : behindStar (content ++ post) = behindStar content ++ post ∧
      EndsLine (behindStar content) := hline.behindStar_append
    rw [hsome, hsome', Option.any_some, Option.any_some, hstar, hends.startsBracket_append]

/-- Within a text that ends its line, what follows does not decide whether a value comes next. -/
theorem EndsLine.startsValue_append : startsValue (text ++ post) = startsValue text := by
  have hline := h.dropWhile fun _ => not_isInlineBlank_of_isLineBreak
  unfold startsValue
  rw [hpost.dropWhile_append]
  dsimp only
  rw [hline.startsPattern_append hpost, hpost.afterBreak?_append, Option.isSome_map]
  cases hdrop : text.dropWhile isInlineBlank with
  | nil => exact absurd hdrop hline.ne_nil
  | cons ch rest => rfl

omit hpost in
theorem EndsLine.startsNumber_append : startsNumber (text ++ post) = startsNumber text := by
  cases text with
  | nil => exact absurd rfl h.ne_nil
  | cons ch rest =>
    by_cases hch : ch = '-'
    · subst hch
      rw [List.cons_append, startsNumber, startsNumber,
        List.head?_append_of_ne_nil _ (h.of_cons (by decide)).ne_nil]
    · simp [startsNumber]

omit hpost in
theorem EndsLine.startsArrow_append : startsArrow (text ++ post) = startsArrow text := by
  cases text with
  | nil => exact absurd rfl h.ne_nil
  | cons ch rest =>
    by_cases hch : ch = '-'
    · subst hch
      rw [List.cons_append, startsArrow_minus, startsArrow_minus,
        List.head?_append_of_ne_nil _ (h.of_cons (by decide)).ne_nil]
    · rw [startsArrow_of_head?_ne (by simpa using hch),
        startsArrow_of_head?_ne (by simpa using hch)]

omit hpost in
theorem EndsLine.startsMarked_append (level : Nat) :
    startsMarked level (text ++ post) = startsMarked level text := by
  induction level generalizing text with
  | zero =>
    unfold startsMarked
    rw [List.head?_append_of_ne_nil _ h.ne_nil]
  | succ level ih =>
    cases text with
    | nil => exact absurd rfl h.ne_nil
    | cons ch rest =>
      by_cases hch : ch = '#'
      · subst hch
        exact ih (h.of_cons (by decide))
      · simp [startsMarked, hch]

omit hpost in
theorem EndsLine.startsSlashes_append : startsSlashes (text ++ post) = startsSlashes text := by
  cases text with
  | nil => exact absurd rfl h.ne_nil
  | cons ch rest =>
    cases rest with
    | cons second rest =>
      simp only [List.cons_append, startsSlashes]
      split <;> split <;> simp_all
    | nil =>
      have hslash : ch ≠ '/' := by
        rintro rfl
        obtain ⟨last, hlast, hbreak⟩ := h
        obtain rfl : '/' = last := by simpa using hlast
        cases hbreak
      simp [startsSlashes, hslash]

end EndsLine

end Localization.Text

/-! ### Moves over gaps -/

namespace Localization.Cursor

open Text (IsGap StartsBreak StartsVisible afterBreak?)

variable {c : Cursor} {gap tail : List Char}

/-- Behind the first line break of a gap and the blanks of the next line, the rest of the gap is
left. -/
theorem nextLine_rest (hgap : IsGap gap) (hbreak : StartsBreak gap) (htail : StartsVisible tail)
    (hrest : c.here.rest = gap ++ tail) :
    ∃ gap', IsGap gap' ∧ (gap' = [] ∨ StartsBreak gap') ∧
      c.next.skipInlineBlanks.here.rest = gap' ++ tail := by
  obtain ⟨line, hline⟩ := Option.isSome_iff_exists.1 (Text.startsBreak_iff_isSome.1 hbreak)
  have hbehind : afterBreak? c.here.rest = some (line ++ tail) := by
    rw [hrest, htail.afterBreak?_append, hline]
    rfl
  have hlineGap : IsGap line := by
    obtain ⟨ending, -, htext⟩ := Text.afterBreak?_eq_some hline
    exact (Text.isGap_append.1 (htext ▸ hgap)).2
  have hdrop := (List.dropWhile_suffix (l := line) isInlineBlank).subset
  refine ⟨line.dropWhile isInlineBlank, fun ch hch => hlineGap ch (hdrop hch), ?_, ?_⟩
  -- behind its blanks the rest of a gap is empty or starts with a line break
  · cases hleft : line.dropWhile isInlineBlank with
    | nil => exact .inl rfl
    | cons ch left =>
      have hhead := List.head?_dropWhile_not isInlineBlank line
      rw [hleft] at hhead
      have hvisible := hlineGap ch (hdrop (hleft ▸ List.mem_cons_self))
      have hinline : isInlineBlank ch = false := by simpa using hhead
      exact .inr (Text.startsBreak_cons.2
        ((Text.isVisible_eq_false_iff.1 hvisible).resolve_left (by simp [hinline])))
  · rw [skipInlineBlanks_rest, next_rest_of_break hbehind, htail.dropWhile_append]

/-- Skipping an indent skips a gap. -/
theorem Ready.skipIndent_rest (hc : c.Ready) (hgap : IsGap gap) (htail : StartsVisible tail)
    (hrest : c.here.rest = gap ++ tail) : c.skipIndent.here.rest = tail := by
  have hblanks : c.skipInlineBlanks.here.rest = gap.dropWhile isInlineBlank ++ tail := by
    rw [skipInlineBlanks_rest, hrest, htail.dropWhile_append]
  have hleftGap : IsGap (gap.dropWhile isInlineBlank) := fun ch hch =>
    hgap ch ((List.dropWhile_suffix isInlineBlank).subset hch)
  -- the gap ends on this line, or it goes on behind a line break with blank lines
  rw [skipIndent_eq]
  split
  · next hnewline =>
    obtain ⟨line, hline⟩ := Option.isSome_iff_exists.1 (current_eq_newline_iff.1 hnewline)
    have hnext := next_rest_of_break hline
    rw [hblanks, htail.afterBreak?_append, Option.map_eq_some_iff] at hline
    obtain ⟨left, hleft, rfl⟩ := hline
    obtain ⟨ending, -, htext⟩ := Text.afterBreak?_eq_some hleft
    rw [skipInlineBlanks_rest, hc.skipInlineBlanks.next.skipBlankLines.2, hnext]
    exact (Text.isGap_append.1 (htext ▸ hleftGap)).2.dropWhile_behindBlankLines htail
  · next hnewline =>
    rw [hblanks]
    cases hleft : gap.dropWhile isInlineBlank with
    | nil => rfl
    | cons ch left =>
      -- a gap that goes on behind its blanks goes on with a line break
      have hhead := List.head?_dropWhile_not isInlineBlank gap
      have hvisible := Text.isVisible_eq_false_iff.1 (hleftGap ch (hleft ▸ List.mem_cons_self))
      rw [hleft] at hhead hblanks
      refine absurd (current_eq_newline_iff.2 ?_) hnewline
      rw [hblanks, List.cons_append, Text.afterBreak?_isSome_iff]
      exact hvisible.resolve_left (by simpa using hhead)

end Localization.Cursor
