import Localization.Proofs.Resource.Spelling.Text

/-!
# Indents and what leads to a value

Variants and attributes stand on indented lines of their own. The value of anything starts on the
same line or on an indented one.

## Main statements

* `Parser.expectIndent_returns`, `Parser.expectIndent_yields` — the indent before a line
* `Parser.startsValue_lead`, `Parser.skipIndent_yields` — what stands before a value
-/

namespace Localization

open Text (Ends IsBlanks IsGap IsIndent StartsBreak StartsVisible behindBlankLines byteLength)

namespace Cursor

variable {c d : Cursor} {taken gap tail : List Char}

theorem To.takes (h : c.To d) (hd : d.Ready) (hrest : c.here.rest = taken ++ d.here.rest) :
    c.Takes taken d := by
  obtain ⟨read, hreads⟩ := h.reads
  have hsplit := hreads.here.1
  rw [hrest] at hsplit
  rw [List.append_cancel_right hsplit]
  exact ⟨hreads, hd⟩

theorem Ready.skipIndent_takes (hc : c.Ready) (hgap : IsGap gap) (htail : StartsVisible tail)
    (hrest : c.here.rest = gap ++ tail) : c.Takes gap c.skipIndent :=
  c.to_skipIndent.takes hc.skipIndent (by rw [hrest, hc.skipIndent_rest hgap htail hrest])

end Cursor

/-! ### What leads to a value -/

section Lead

variable {lead text rest : List Char}

theorem not_patternEnds {ch : Char} (h : Text.isVisible ch) (more : List Char) :
    ¬PatternEnds (ch :: more) := by
  intro hends
  have hbreak := hends.head? ch rfl
  rw [Text.not_isLineBreak_of_isVisible h] at hbreak
  cases hbreak

/-- Where a pattern would end, no value starts. -/
theorem PatternEnds.not_startsValue {blanks : List Char} (h : PatternEnds rest)
    (hblanks : IsBlanks blanks) : Text.startsValue (blanks ++ rest) = false := by
  have hline : (blanks ++ rest).dropWhile isInlineBlank = rest := by
    rw [hblanks.dropWhile_append, Text.dropWhile_of_ends h.ends]
  unfold Text.startsValue
  dsimp only
  rw [hline]
  rcases h with rfl | ⟨hbreak, hnone⟩
  · rfl
  · rw [if_pos (Text.startsBreak_iff_isSome.1 hbreak), hnone]

theorem IsLead.isGap (h : IsLead lead text) : IsGap lead := by
  cases h with
  | inline hblanks _ => exact hblanks.isGap
  | indent hblanks hindent _ _ => exact Text.isGap_append.2 ⟨hblanks.isGap, hindent.isGap⟩

theorem IsLead.startsVisible (h : IsLead lead text) : StartsVisible (text ++ rest) := by
  cases h with
  | inline _ hvisible => exact Text.startsVisible_cons.2 hvisible
  | indent _ _ hvisible _ => exact Text.startsVisible_cons.2 hvisible

theorem IsLead.startsValue (h : IsLead lead text) : Text.startsValue (lead ++ (text ++ rest)) := by
  cases h with
  | @inline _ ch more hblanks hvisible =>
    exact Text.startsValue_iff.2 ⟨lead, [], ch, more ++ rest, hblanks, hvisible, .inl rfl, by simp⟩
  | @indent blanks gap ch more hblanks hindent hvisible hends =>
    exact Text.startsValue_iff.2
      ⟨blanks, gap, ch, more ++ rest, hblanks, hvisible, .inr ⟨hindent, hends⟩, by simp⟩

end Lead

namespace Parser

variable {c d : Cursor} {blanks gap lead text rest : List Char}

/-! ### Indents -/

/-- Behind a line break and blank lines, the blanks of the next line with content are left. -/
theorem skipLine_rest (hc : c.Ready) (hgap : IsGap gap)
    (hrest : StartsVisible rest)
    (hline : Text.afterBreak? c.here.rest = some (gap ++ rest)) :
    c.next.skipBlankLines.2.here.rest =
      if rest = [] then [] else gap.rtakeWhile isInlineBlank ++ rest := by
  rw [hc.next.skipBlankLines.2, Cursor.next_rest_of_break hline,
    hgap.behindBlankLines_append hrest]

/-- The blanks in front of the next line with content are skipped behind blank lines. -/
theorem skipLine_takes (hc : c.Ready) {ending : List Char} (hgap : IsGap gap)
    (hrest : StartsVisible rest) (hne : rest ≠ [])
    (hline : Text.afterBreak? c.here.rest = some (gap ++ rest))
    (hsplit : c.here.rest = ending ++ (gap ++ rest)) :
    c.Takes (ending ++ gap) c.next.skipBlankLines.2.skipInlineBlanks ∧
      c.next.skipBlankLines.2.Takes (gap.rtakeWhile isInlineBlank)
        c.next.skipBlankLines.2.skipInlineBlanks := by
  have hready := hc.next.skipBlankLines.1
  have hbehind := skipLine_rest hc hgap hrest hline
  rw [if_neg hne] at hbehind
  have hleft : c.next.skipBlankLines.2.skipInlineBlanks.here.rest = rest := by
    rw [Cursor.skipInlineBlanks_rest, hbehind, Text.isBlanks_rtakeWhile.dropWhile_append,
      hrest.dropWhile]
  have hmoves : c.next.skipBlankLines.2.To c.next.skipBlankLines.2.skipInlineBlanks :=
    Cursor.to_skipWhile _ _
  constructor
  · refine Cursor.To.takes ?_ hready.skipInlineBlanks (by rw [hleft, hsplit, List.append_assoc])
    exact c.to_next.trans ((Cursor.to_skipBlankLines _).trans hmoves)
  · exact hmoves.takes hready.skipInlineBlanks (by rw [hleft, hbehind])

theorem expectIndent_returns {u : Unit} (hc : c.Ready) (h : Returns expectIndent c u d) :
    ∃ blanks gap, c.Takes (blanks ++ gap) d ∧ IsBlanks blanks ∧ IsIndent gap := by
  unfold expectIndent at h
  dsimp only at h
  obtain ⟨blanks, hblanks, h₁⟩ := hc.takes_blanks
  have h := h.skipInlineBlanks_bind.current_bind
  split at h
  · exact absurd h Returns.not_fail_bind
  · next hnewline =>
    have h := h.modify_bind.offset_bind.skipInlineBlanks_bind.offset_bind
    split at h
    · exact absurd h Returns.not_fail
    · next hmoved =>
      obtain ⟨-, rfl⟩ := Returns.pure_iff.1 h
      -- behind the line break come blank lines and the blanks of the last one
      have hbreak := Cursor.current_eq_newline_iff.1 (not_not.1 hnewline)
      obtain ⟨line, hline⟩ := Option.isSome_iff_exists.1 hbreak
      obtain ⟨ending, hending, -, hsplit⟩ := Text.afterBreak?_eq_some_iff.1 hline
      obtain ⟨gap, tail, hgap, htail, rfl⟩ := Text.exists_gap line
      by_cases hnil : tail = []
      · -- the source ends within the gap, and nothing is left to indent
        have hbehind := skipLine_rest h₁.ready hgap htail hline
        rw [if_pos hnil] at hbehind
        refine absurd ?_ hmoved
        rw [Cursor.skipInlineBlanks, Cursor.skipWhile_of_neg]
        simp [Cursor.current_eq_none_iff.2 hbehind]
      · obtain ⟨h₂, h₃⟩ := skipLine_takes h₁.ready hgap htail hnil hline hsplit
        refine ⟨blanks, ending ++ gap, h₁.trans h₂, hblanks, ?_⟩
        have hblank : gap.rtakeWhile isInlineBlank ≠ [] := by
          intro hnone
          rw [hnone] at h₃
          exact hmoved h₃.offset
        exact hending.isIndent_of_gap hgap hblank

/-- Before visible text, an indent is read. -/
theorem expectIndent_yields (hc : c.Ready) (hblanks : IsBlanks blanks) (hgap : IsIndent gap)
    (hrest : StartsVisible rest) (hne : rest ≠ []) (h : c.here.rest = blanks ++ (gap ++ rest)) :
    Yields expectIndent c (blanks ++ gap) () := by
  have hstart : StartsBreak (gap ++ rest) := hgap.startsBreak.append
  have hend : Ends isInlineBlank (gap ++ rest).head? := by
    obtain ⟨ch, hch, hbreak⟩ := hstart
    rw [Option.mem_def.1 hch]
    exact Text.ends_some.2 (Text.not_isInlineBlank_of_isLineBreak hbreak)
  obtain ⟨line, hline⟩ :=
    Option.isSome_iff_exists.1 (Text.startsBreak_iff_isSome.1 hgap.startsBreak)
  obtain ⟨ending, hending, -, rfl⟩ := Text.afterBreak?_eq_some_iff.1 hline
  have hblank : line.rtakeWhile isInlineBlank ≠ [] := by
    rw [← @Text.rtakeWhile_append_break [] line ending hending]
    exact Text.rtakeWhile_ne_nil_iff.2 hgap.endsBlank
  unfold expectIndent
  dsimp only
  refine (Yields.skipInlineBlanks hc hblanks h hend).bind h fun c₁ h₁ hrest₁ => ?_
  have hbehind : Text.afterBreak? c₁.here.rest = some (line ++ rest) := by
    rw [hrest₁, hrest.afterBreak?_append, hline]
    rfl
  have hsplit : c₁.here.rest = ending ++ (line ++ rest) := by simpa using hrest₁
  obtain ⟨h₂, h₃⟩ := skipLine_takes h₁.ready (Text.isGap_append.1 hgap.isGap).2 hrest hne hbehind
    hsplit
  refine Yields.current_bind (Cursor.current_eq_newline_iff.2 (Option.isSome_of_mem hbehind)) ?_
  rw [if_neg (by simp)]
  refine ⟨_, ?_, h₂⟩
  -- the last line starts with a blank, so the cursor moves over it
  have hmoved : c₁.next.skipBlankLines.2.skipInlineBlanks.offset ≠
      c₁.next.skipBlankLines.2.offset := by
    have hpos := Mark.byteLength_pos hblank
    have hoffset := h₃.offset
    omega
  rw [modify_bind, Lookahead.plain_skipBlankLines, offset_bind, skipInlineBlanks_bind, offset_bind,
    if_neg hmoved]
  rfl

/-! ### Before values -/

/-- Where a value starts, an indent may lead to it. -/
theorem startsValue_lead (hc : c.Ready) (h : Text.startsValue c.here.rest) :
    ∃ lead ch more, c.Takes lead c.skipIndent ∧ c.skipIndent.here.rest = ch :: more ∧
      Text.isVisible ch ∧ ∀ tail, IsLead lead (ch :: tail) := by
  obtain ⟨blanks, gap, ch, more, hblanks, hvisible, hgap, hrest⟩ := Text.startsValue_iff.1 h
  have htail : StartsVisible (ch :: more) := Text.startsVisible_cons.2 hvisible
  have hlead : IsGap (blanks ++ gap) := by
    rcases hgap with rfl | ⟨hindent, -⟩
    · rw [List.append_nil]
      exact hblanks.isGap
    · exact Text.isGap_append.2 ⟨hblanks.isGap, hindent.isGap⟩
  rw [← List.append_assoc] at hrest
  refine ⟨blanks ++ gap, ch, more, hc.skipIndent_takes hlead htail hrest,
    hc.skipIndent_rest hlead htail hrest, hvisible, fun tail => ?_⟩
  rcases hgap with rfl | ⟨hindent, hends⟩
  · rw [List.append_nil]
    exact .inline hblanks hvisible
  · exact .indent hblanks hindent hvisible hends

/-- What leads to a value is skipped. -/
theorem skipIndent_yields (h : IsLead lead text) (hc : c.Ready)
    (hrest : c.here.rest = lead ++ (text ++ rest)) :
    c.isValueStart = (true, c) ∧ Yields skipIndent c lead () := by
  constructor
  · rw [hc.isValueStart, hrest, h.startsValue]
  · exact ⟨c.skipIndent, rfl, hc.skipIndent_takes h.isGap h.startsVisible hrest⟩

end Parser

end Localization
