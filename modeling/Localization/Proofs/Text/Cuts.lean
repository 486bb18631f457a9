import Localization.Proofs.Text.SourceLines

/-!
# Lines at a cut

An offset that cuts a source apart without tearing a line break has whole lines and the start of
another one in front of it, and the rest of that line behind it. So the line table finds the line
with its full text, and the column of the offset is one of that text or the next one behind it.

## Main statements

* `LineTable.lineText?_ofText` — the line behind whole lines
* `LineTable.exists_shown` — the line of a cut holds the column of that cut
* `LineTable.lineAt_of_endsLine`, `LineTable.lineAt_concat` — a line break ends its line, and no
  other character does
-/

namespace Localization

open Text (EndsLine IsCut IsEnding Joins byteLength)

namespace Text

/-- A text is made of whole lines and of the start of another one. -/
theorem exists_lines (text : List Char) :
    ∃ lines current, text = lines ++ current ∧ (lines = [] ∨ EndsLine lines) ∧
      ∀ ch ∈ current, isLineBreak ch = false := by
  obtain ⟨lines, last, h⟩ := exists_hasLines text
  refine ⟨joined lines, last, h.eq_joined, ?_, h.not_break_last⟩
  rcases lines.eq_nil_or_concat with rfl | ⟨front, line, rfl⟩
  · exact .inl rfl
  · obtain ⟨-, hending⟩ := h.line_of_mem line (by simp)
    have hlast := hending.endsLine (joined front ++ line.text)
    rw [List.append_assoc] at hlast
    rw [List.concat_eq_append, joined_append]
    simpa [joined, Line.chars] using .inr hlast

/-- A text starts with the rest of a line, which a line break or the end of the text ends. -/
theorem exists_line (text : List Char) :
    ∃ line ending rest, text = line ++ (ending ++ rest) ∧
      (∀ ch ∈ line, isLineBreak ch = false) ∧
      (ending = [] ∧ rest = [] ∨ IsEnding ending ∧ ¬Joins ending rest) := by
  obtain ⟨lines, last, h⟩ := exists_hasLines text
  cases h with
  | last hlast => exact ⟨text, [], [], by simp, hlast, .inl ⟨rfl, rfl⟩⟩
  | @line line rest _ _ htext hending hcut _ =>
    exact ⟨line.text, line.ending, rest, List.append_assoc .., htext, .inr ⟨hending, hcut⟩⟩

end Text

namespace LineTable

variable {source lines line ending rest before after : List Char} {offset : ℕ}

/-! ### The line of a cut -/

/-- Behind whole lines the text of the next one is found under its number. -/
theorem lineText?_ofText (hlines : lines = [] ∨ EndsLine lines)
    (hline : ∀ ch ∈ line, isLineBreak ch = false) (hcut : ¬Joins (lines ++ line) (ending ++ rest))
    (hend : ending = [] ∧ rest = [] ∨ IsEnding ending ∧ ¬Joins ending rest) :
    (ofText (lines ++ (line ++ (ending ++ rest)))).lineText? (lines ++ (line ++ (ending ++ rest)))
      ((startsFrom 0 lines).length + 1) = some line := by
  have hstart := lineStart?_ofText hlines hline hcut
  have hslice := Text.slice?_append lines (line ++ ending) rest
  rw [List.append_assoc] at hslice
  have hbreaks : ∀ ch ∈ ending, isLineBreak ch := by
    rcases hend with ⟨rfl, -⟩ | ⟨hending, -⟩
    · exact nofun
    · exact hending.isLineBreak_of_mem
  -- the next line starts behind the line break, or there is none
  have hstop : ((ofText (lines ++ (line ++ (ending ++ rest)))).lineStart?
      ((startsFrom 0 lines).length + 1 + 1)).getD
        (byteLength (lines ++ (line ++ (ending ++ rest)))) =
      byteLength lines + byteLength (line ++ ending) := by
    rw [lineStart?, if_neg (Nat.succ_ne_zero _), starts_ofText hline hcut, Nat.add_sub_cancel,
      List.getElem?_append_right (by simp)]
    rcases hend with ⟨rfl, rfl⟩ | ⟨hending, hjoins⟩
    · simp [startsFrom]
    · rw [startsFrom_append _ hjoins, startsFrom_isEnding _ hending]
      simp [Nat.add_assoc]
  rw [lineText?_of_slice hstart hstop hslice, Text.rdropWhile_isLineBreak hline hbreaks]

/-- The line of a cut is a line of the source, and the column of the cut does not leave it. -/
theorem exists_shown (h : IsCut source offset) :
    ∃ front behind,
      (ofText source).lineText? source ((ofText source).position source offset).line =
        some (front ++ behind) ∧
      ((ofText source).position source offset).column = front.length + 1 ∧
      ∀ ch ∈ front ++ behind, isLineBreak ch = false := by
  obtain ⟨before, after, rfl, rfl, hcut⟩ := h
  obtain ⟨lines, front, rfl, hlines, hfront⟩ := Text.exists_lines before
  obtain ⟨behind, ending, rest, rfl, hbehind, hend⟩ := Text.exists_line after
  have hposition := position_ofText hlines hfront hcut
  have hline := List.forall_mem_append.2 ⟨hfront, hbehind⟩
  have hcut' : ¬Joins (lines ++ (front ++ behind)) (ending ++ rest) := by
    rw [← List.append_assoc]
    exact Text.not_joins_append hcut (Text.not_joins_of_left hbehind)
  have htext := lineText?_ofText hlines hline hcut' hend
  rw [List.append_assoc] at htext
  refine ⟨front, behind, ?_, ?_, hline⟩ <;> rw [List.append_assoc, hposition]
  exact htext

/-! ### Lines in front of a cut -/

/-- Behind a line break the next line starts. -/
theorem lineAt_of_endsLine (h : EndsLine before) (hcut : ¬Joins before after) :
    (ofText (before ++ after)).lineAt (byteLength before) =
      (ofText (before ++ after)).lineAt (byteLength before - 1) + 1 := by
  rw [lineAt_append hcut]
  obtain ⟨first, ending, hending, hfirst, rfl⟩ := h.exists_ending
  have hpos := Nat.pos_of_ne_zero (mt Text.byteLength_eq_zero_iff.1 hending.ne_nil)
  have hlength : byteLength (first ++ ending) = byteLength first + byteLength ending :=
    Text.byteLength_append ..
  have hstarts : (ofText (first ++ ending ++ after)).starts =
      (0 :: startsFrom 0 first) ++ (byteLength (first ++ ending) ::
        startsFrom (byteLength (first ++ ending)) after) := by
    rw [ofText, startsFrom_append 0 hcut, startsFrom_append 0 hfirst, startsFrom_isEnding _ hending,
      Nat.zero_add, Nat.zero_add, ← hlength]
    simp
  -- the lines up to the line break start in front of its last byte, the others do not
  rw [lineAt_of_starts hstarts, startsFrom_append 0 hfirst, startsFrom_isEnding _ hending,
    List.length_append]
  · rfl
  · refine List.forall_mem_cons.2 ⟨Nat.zero_le _, fun start hstart => ?_⟩
    have := (bounds_of_mem_startsFrom hstart).2
    omega
  · refine List.forall_mem_cons.2 ⟨by omega, fun start hstart => ?_⟩
    have := (bounds_of_mem_startsFrom hstart).1
    omega

/-- Behind a character that is no line break its line goes on. -/
theorem lineAt_concat {ch : Char} (h : isLineBreak ch = false) :
    (ofText (before ++ ch :: after)).lineAt (byteLength (before ++ [ch])) =
      (ofText (before ++ ch :: after)).lineAt (byteLength before) := by
  have hcut : ¬Joins (before ++ [ch]) after :=
    Text.not_joins_of_not_endsLine (by simp [EndsLine, h])
  have hline := lineAt_append hcut
  rw [startsFrom_append 0 (Text.not_joins_cons h),
    startsFrom_eq_nil _ (List.forall_mem_singleton.2 h), List.append_nil,
    List.append_assoc] at hline
  exact hline.trans (lineAt_append (Text.not_joins_cons h)).symm

end LineTable

end Localization
