import Localization.Proofs.Resource.Held
import Localization.Proofs.Resource.Runs
import Localization.Proofs.Text.LineTable

/-!
# Positions of a cursor

A cursor counts lines and columns as it moves, while a line table finds them by looking at the
whole source. They agree wherever a cursor can come to, however it looks ahead, and no move on the
way lets a number grow beyond what an offset can hold or cuts a character apart.

All that a cursor can do is made of a few moves: committing a character or a line, and moving the
peek position. So what these moves preserve holds of everything else.

## Main definitions

* `Cursor.Move`, `Cursor.Moves` — the elementary moves, and any number of them
* `Cursor.Move.Panics` — moves that overflow or cut a character apart
* `Cursor.Operation` — what a caller can ask of a cursor
* `Cursor.Located` — a cursor knows its place in its source

## Main statements

* `Cursor.Located.run`, `Cursor.Located.of_moves` — a cursor never loses its place
* `Cursor.Operation.moves` — whatever a caller asks is made of elementary moves
* `Cursor.Located.remaining_lt_of_newline` — blank lines are skipped to the last one
* `Cursor.run_agrees` — a cursor and a line table agree after all that a caller can ask
-/

namespace Localization

open Text (EndsLine IsCut IsEnding Joins byteLength)

/-- A text has at least as many bytes as characters. -/
theorem Text.length_le_byteLength (text : List Char) : text.length ≤ byteLength text := by
  induction text with
  | nil => exact Nat.le_refl 0
  | cons ch text ih =>
    have hpos := ch.utf8Size_pos
    rw [List.length_cons, byteLength_cons]
    omega

/-- The bytes that are dropped and the bytes that are left are all bytes of the text. -/
theorem Text.byteLength_of_dropBytes? {n : Nat} {text rest : List Char}
    (h : dropBytes? n text = some rest) : byteLength text = n + byteLength rest := by
  fun_induction dropBytes? n text with
  | case1 text =>
    obtain rfl := Option.some.inj h
    exact (Nat.zero_add _).symm
  | case2 => cases h
  | case3 n ch text hle ih =>
    have hrest := ih h
    rw [byteLength_cons]
    omega
  | case4 => cases h

namespace Cursor

/-! ### Elementary moves -/

/-- The moves that all others are made of. -/
inductive Move
  | next
  | peek
  | resetPeek
  | resetPeekTo (offset : Nat)
  | takeLine
  | beginCapture
  | endCapture

namespace Move

/-- The cursor behind a move. -/
def run : Move → Cursor → Cursor
  | .next => Cursor.next
  | .peek => Cursor.peek
  | .resetPeek => Cursor.resetPeek
  | .resetPeekTo offset => (Cursor.resetPeekTo · offset)
  | .takeLine => (·.takeLine.2)
  | .beginCapture => Cursor.beginCapture
  | .endCapture => (·.endCapture.2)

/-- Whether a move fails: a number grows beyond what an offset can hold, or the rest of the source
cannot be cut out of it. -/
def Panics : Move → Cursor → Prop
  | .next, c =>
    Span.maxOffset < c.next.offset ∨ Span.maxOffset < c.next.line ∨ Span.maxOffset < c.next.column
  | .peek, c => c.peeked.isSome ∧ Span.maxOffset < c.peek.ahead.offset
  | .takeLine, c =>
    Text.slice? c.source c.offset c.size = none ∨ Span.maxOffset < c.takeLine.2.offset ∨
      Span.maxOffset < c.takeLine.2.column
  | _, _ => False

end Move

/-- Any number of elementary moves. -/
abbrev Moves : Cursor → Cursor → Prop :=
  Relation.ReflTransGen fun c d => ∃ move : Move, d = move.run c

/-! ### The place of a cursor -/

/-- A place behind whole lines and a part of another one, and their numbers. -/
structure Behind (source lines current : List Char) (here : Mark) (line column : Nat) : Prop where
  source_eq : source = lines ++ (current ++ here.rest)
  offset_eq : here.offset = byteLength (lines ++ current)
  endsLine : lines = [] ∨ EndsLine lines
  not_break : ∀ ch ∈ current, isLineBreak ch = false
  not_joins : ¬Joins (lines ++ current) here.rest
  line_eq : line = (LineTable.startsFrom 0 lines).length + 1
  column_eq : column = current.length + 1

/-- A cursor that knows its place in the source: the committed position cuts no character and no
line break apart, its line and column are counted, and the peek position is not behind it. -/
structure Located (source : List Char) (c : Cursor) : Prop where
  source_eq : c.source = source
  size_eq : c.size = byteLength source
  behind : ∃ lines current, Behind source lines current c.here c.line c.column
  ahead_le : c.here.offset ≤ c.ahead.offset
  ahead_rest : c.ahead.rest = [] ∨ c.ahead.offset + byteLength c.ahead.rest = byteLength source

variable {source lines current : List Char} {c d : Cursor}

section Behind

variable {here : Mark} {line column : Nat} (h : Behind source lines current here line column)
include h

/-- What is behind the cursor and what is in front of it make up the source. -/
theorem Behind.byteLength_eq : byteLength source = here.offset + byteLength here.rest := by
  rw [h.source_eq, h.offset_eq, ← List.append_assoc, Text.byteLength_append]

/-- The cursor stands between two characters of the source. -/
theorem Behind.isCut : IsCut source here.offset :=
  ⟨lines ++ current, here.rest, by rw [h.source_eq, List.append_assoc], h.offset_eq.symm,
    h.not_joins⟩

/-- The slice from the cursor to the end of the source is what is left to read. -/
theorem Behind.slice? :
    Text.slice? source here.offset (byteLength source) = some here.rest := by
  have hslice := Text.slice?_append (lines ++ current) here.rest []
  rwa [List.append_nil, List.append_assoc, ← h.source_eq, ← h.offset_eq, ← h.byteLength_eq]
    at hslice

/-- Neither number exceeds the length of the source by more than one. -/
theorem Behind.le : here.offset ≤ byteLength source ∧ line ≤ byteLength source + 1 ∧
    column ≤ byteLength source + 1 := by
  have hlines := LineTable.length_startsFrom_le 0 lines
  have hlength := Text.length_le_byteLength lines
  have hlength' := Text.length_le_byteLength current
  rw [h.byteLength_eq, h.offset_eq, h.line_eq, h.column_eq, Text.byteLength_append]
  omega

/-- A line table finds the numbers that were counted. -/
theorem Behind.position_eq : (⟨here.offset, line, column⟩ : Position) =
    (LineTable.ofText source).position source here.offset := by
  rw [h.offset_eq, h.line_eq, h.column_eq, h.source_eq]
  exact (LineTable.position_ofText h.endsLine h.not_break h.not_joins).symm

/-- Behind more characters of its line a place has moved as many columns. -/
theorem Behind.along {taken : List Char} {there : Mark} (hreads : here.Reads taken there)
    (htaken : ∀ ch ∈ taken, isLineBreak ch = false) :
    Behind source lines (current ++ taken) there line (column + taken.length) where
  source_eq := by rw [h.source_eq, hreads.1, List.append_assoc]
  offset_eq := by
    rw [hreads.2, h.offset_eq, ← List.append_assoc]
    exact (Text.byteLength_append _ _).symm
  endsLine := h.endsLine
  not_break := List.forall_mem_append.2 ⟨h.not_break, htaken⟩
  not_joins := by
    rw [← List.append_assoc]
    refine Text.not_joins_append ?_ (Text.not_joins_of_left htaken)
    rw [← hreads.1]
    exact h.not_joins
  line_eq := h.line_eq
  column_eq := by rw [h.column_eq, List.length_append, Nat.add_right_comm]

/-- Behind a line break a place is in the first column of the next line. -/
theorem Behind.across {ending : List Char} {there : Mark} (hreads : here.Reads ending there)
    (hending : IsEnding ending) (hwhole : ending = ['\r'] → there.rest.head? ≠ some '\n') :
    Behind source (lines ++ (current ++ ending)) [] there (line + 1) 1 where
  source_eq := by simp [h.source_eq, hreads.1]
  offset_eq := by
    rw [hreads.2, h.offset_eq, List.append_nil, ← List.append_assoc]
    exact (Text.byteLength_append _ _).symm
  endsLine := by
    rw [← List.append_assoc]
    exact .inr (hending.endsLine _)
  not_break := List.forall_mem_nil _
  not_joins := by
    rw [List.append_nil, ← List.append_assoc]
    refine Text.not_joins_append ?_ (hending.not_joins hwhole)
    rw [← hreads.1]
    exact h.not_joins
  line_eq := by
    -- the line starts are those of the lines before, and the one behind the line break
    have hjoins : ¬Joins (lines ++ current) ending := by
      intro hjoins
      apply h.not_joins
      rw [hreads.1, Joins, List.head?_append_of_ne_nil _ hending.ne_nil]
      exact hjoins
    have hpart : ¬Joins lines current := Text.not_joins_of_right h.not_break
    rw [h.line_eq, ← List.append_assoc, LineTable.startsFrom_append 0 hjoins,
      LineTable.startsFrom_append 0 hpart, LineTable.startsFrom_eq_nil _ h.not_break,
      LineTable.startsFrom_isEnding _ hending]
    simp
  column_eq := rfl

end Behind

/-- Committing a character goes on with the line, or a line break ends it. -/
theorem Behind.next (h : Behind source lines current c.here c.line c.column) :
    ∃ lines current, Behind source lines current c.next.here c.next.line c.next.column := by
  rcases c.next_cases with ⟨-, heq⟩ | ⟨ch, hbreak, hreads, hline, hcolumn⟩ |
      ⟨ending, hending, hwhole, hreads, hline, hcolumn⟩
  · rw [heq]
    exact ⟨lines, current, h⟩
  · rw [hline, hcolumn]
    exact ⟨_, _, h.along hreads.here (by simpa using hbreak)⟩
  · rw [hline, hcolumn]
    exact ⟨_, _, h.across hreads.here hending hwhole⟩

/-- Committing the rest of the line goes on with the line. -/
theorem Behind.takeLine (h : Behind source lines current c.here c.line c.column) :
    ∃ lines current, Behind source lines current c.takeLine.2.here c.takeLine.2.line
      c.takeLine.2.column := by
  refine ⟨_, _, h.along c.takeLine_reads.here fun ch hch => ?_⟩
  simpa using List.mem_takeWhile_imp hch

/-! ### Moves keep the place -/

/-- A new cursor is where it says it is: on the first line and column. -/
theorem located_atStart (source : List Char) : Located source (atStart source) where
  source_eq := rfl
  size_eq := rfl
  behind := ⟨[], [], rfl, rfl, .inl rfl, List.forall_mem_nil _, Text.not_joins_nil, rfl, rfl⟩
  ahead_le := Nat.le_refl 0
  ahead_rest := .inr (Nat.zero_add _)

namespace Located

/-- Without pending lookahead, it is enough that the committed position is the right one. -/
theorem of_ahead_eq (hsource : c.source = source) (hsize : c.size = byteLength source)
    (hbehind : ∃ lines current, Behind source lines current c.here c.line c.column)
    (hahead : c.ahead = c.here) : Located source c where
  source_eq := hsource
  size_eq := hsize
  behind := hbehind
  ahead_le := by rw [hahead]
  ahead_rest := by
    obtain ⟨lines, current, hbehind⟩ := hbehind
    rw [hahead]
    exact .inr hbehind.byteLength_eq.symm

/-- Taking a character keeps offset, line and column in step with the source. -/
theorem next (h : Located source c) : Located source c.next := by
  cases hcurrent : c.current with
  | none =>
    rw [next_of_none hcurrent]
    exact h
  | some ch =>
    obtain ⟨taken, hreads⟩ := c.next_reads
    obtain ⟨lines, current, hbehind⟩ := h.behind
    apply of_ahead_eq
    · rw [hreads.source, h.source_eq]
    · rw [hreads.size, h.size_eq]
    · exact hbehind.next
    · simp [Cursor.next, hcurrent]

/-- Looking one character further keeps the lookahead within the source. -/
theorem peek (h : Located source c) : Located source c.peek where
  source_eq := h.source_eq
  size_eq := h.size_eq
  behind := h.behind
  ahead_le := by
    obtain ⟨taken, -, hoffset⟩ := c.ahead.step_reads
    have hle := h.ahead_le
    change c.here.offset ≤ c.ahead.step.offset
    omega
  ahead_rest := by
    obtain ⟨taken, hrest, hoffset⟩ := c.ahead.step_reads
    change c.ahead.step.rest = [] ∨ c.ahead.step.offset + byteLength c.ahead.step.rest = _
    rcases h.ahead_rest with hnil | hlength
    · rw [hnil] at hrest
      exact .inl (List.append_eq_nil_iff.1 hrest.symm).2
    · rw [hrest, Text.byteLength_append] at hlength
      omega

theorem resetPeek (h : Located source c) : Located source c.resetPeek :=
  of_ahead_eq h.source_eq h.size_eq h.behind rfl

/-- Wherever the peek position is taken to, it stays in front of the committed one, and nothing
follows it unless it stands at a character. -/
theorem resetPeekTo (h : Located source c) (offset : Nat) :
    Located source (c.resetPeekTo offset) where
  source_eq := h.source_eq
  size_eq := h.size_eq
  behind := h.behind
  ahead_le := Nat.le_max_right offset c.here.offset
  ahead_rest := by
    obtain ⟨lines, current, hbehind⟩ := h.behind
    have hlength := hbehind.byteLength_eq
    have hle := Nat.le_max_right offset c.here.offset
    simp only [Cursor.resetPeekTo, Mark.seek]
    cases hdrop : Text.dropBytes? (max offset c.here.offset - c.here.offset) c.here.rest with
    | none => exact .inl rfl
    | some rest =>
      have hrest := Text.byteLength_of_dropBytes? hdrop
      right
      rw [Option.getD_some]
      omega

/-- Taking a line keeps offset, line and column in step with the source. -/
theorem takeLine (h : Located source c) : Located source c.takeLine.2 := by
  obtain ⟨lines, current, hbehind⟩ := h.behind
  exact of_ahead_eq h.source_eq h.size_eq hbehind.takeLine rfl

/-- No move loses the place of a cursor. -/
theorem run (h : Located source c) (move : Move) : Located source (move.run c) := by
  cases move with
  | next => exact h.next
  | peek => exact h.peek
  | resetPeek => exact h.resetPeek
  | resetPeekTo offset => exact h.resetPeekTo offset
  | takeLine => exact h.takeLine
  | beginCapture => exact ⟨h.source_eq, h.size_eq, h.behind, h.ahead_le, h.ahead_rest⟩
  | endCapture => exact ⟨h.source_eq, h.size_eq, h.behind, h.ahead_le, h.ahead_rest⟩

/-- Any number of operations keeps offset, line and column in step with the source. -/
theorem of_moves (h : Located source c) (hmoves : c.Moves d) : Located source d := by
  induction hmoves with
  | refl => exact h
  | tail _ hmove ih =>
    obtain ⟨move, rfl⟩ := hmove
    exact ih.run move

/-- The place of a cursor bounds its numbers. -/
theorem le (h : Located source c) : c.offset ≤ byteLength source ∧
    c.line ≤ byteLength source + 1 ∧ c.column ≤ byteLength source + 1 := by
  obtain ⟨lines, current, hbehind⟩ := h.behind
  exact hbehind.le

/-- No move fails at a cursor that knows its place in a source that is short enough. -/
theorem not_panics (h : Located source c) (hsize : byteLength source < Span.maxOffset)
    (move : Move) : ¬move.Panics c := by
  cases move with
  | next =>
    have hle := h.next.le
    simp only [Move.Panics, not_or, Nat.not_lt]
    omega
  | peek =>
    rintro ⟨hpeeked, hlt⟩
    -- a character stands at the peek position, so it lies within the source
    rcases h.peek.ahead_rest with hnil | hlength
    · rcases h.ahead_rest with hnone | hlength
      · rw [Cursor.peeked, Mark.char?_eq_none_iff.2 hnone] at hpeeked
        cases hpeeked
      · obtain ⟨taken, hrest, hoffset⟩ := c.ahead.step_reads
        change Span.maxOffset < c.ahead.step.offset at hlt
        rw [hrest, Text.byteLength_append] at hlength
        omega
    · omega
  | takeLine =>
    have hle := h.takeLine.le
    obtain ⟨lines, current, hbehind⟩ := h.behind
    simp only [Move.Panics, h.source_eq, h.size_eq, Cursor.offset, hbehind.slice?, reduceCtorEq,
      false_or, not_or, Nat.not_lt]
    change c.takeLine.2.here.offset ≤ _ ∧ _
    have hoffset : c.takeLine.2.here.offset ≤ byteLength source := hle.1
    omega
  | resetPeek => exact id
  | resetPeekTo => exact id
  | beginCapture => exact id
  | endCapture => exact id

end Located

/-! ### What the longer moves are made of -/

theorem moves_run (c : Cursor) (move : Move) : c.Moves (move.run c) := .single ⟨move, rfl⟩

theorem moves_next (c : Cursor) : c.Moves c.next := c.moves_run .next

theorem moves_peek (c : Cursor) : c.Moves c.peek := c.moves_run .peek

theorem moves_resetPeek (c : Cursor) : c.Moves c.resetPeek := c.moves_run .resetPeek

theorem moves_advanceTo (target : Nat) (c : Cursor) : c.Moves (c.advanceTo target) := by
  fun_induction advanceTo target c with
  | case1 => exact .refl
  | case2 c _ _ _ ih => exact c.moves_next.trans ih
  | case3 => exact .refl

theorem moves_skipToPeek (c : Cursor) : c.Moves c.skipToPeek :=
  (moves_advanceTo _ c).trans (moves_resetPeek _)

theorem moves_skipWhile (p : Char → Bool) (c : Cursor) : c.Moves (c.skipWhile p) := by
  fun_induction skipWhile p c with
  | case1 c _ _ _ ih => exact c.moves_next.trans ih
  | case2 => exact .refl
  | case3 => exact .refl

theorem moves_takeWhile (p : Char → Bool) (c : Cursor) : c.Moves (c.takeWhile p).2 := by
  rw [takeWhile_snd]
  exact c.moves_skipWhile p

/-- Looking past a class of characters is made of single looks. -/
theorem moves_peekWhile (p : Char → Bool) {m : Mark} (h : c.ahead = m) :
    c.Moves { c with ahead := m.skipWhile p } := by
  fun_induction Mark.skipWhile p m generalizing c with
  | case1 m _ _ _ ih =>
    subst h
    exact c.moves_peek.trans (ih (c := c.peek) rfl)
  | case2 =>
    subst h
    exact .refl
  | case3 =>
    subst h
    exact .refl

theorem moves_peekInlineBlanks (c : Cursor) : c.Moves c.peekInlineBlanks := moves_peekWhile _ rfl

/-- Skipping blank lines is made of steps and resets. -/
theorem moves_skipBlankLines (c : Cursor) : c.Moves c.skipBlankLines.2 := by
  fun_induction skipBlankLines c with
  | case1 c _ _ _ _ n d hcall ih =>
    have hd : c.peekInlineBlanks.skipToPeek.next.Moves d := by simpa [hcall] using ih
    exact c.moves_peekInlineBlanks.trans
      ((moves_skipToPeek _).trans ((moves_next _).trans hd))
  | case2 c _ _ _ _ =>
    exact c.moves_peekInlineBlanks.trans ((moves_skipToPeek _).trans (moves_next _))
  | case3 c _ _ => exact c.moves_peekInlineBlanks.trans (moves_skipToPeek _)
  | case4 c _ _ _ => exact c.moves_peekInlineBlanks.trans (moves_resetPeek _)

/-- Looking past blank lines is made of single looks. -/
theorem moves_peekBlankLines (c : Cursor) : c.Moves c.peekBlankLines := by
  fun_induction peekBlankLines c with
  | case1 c _ _ ih => exact c.moves_peekInlineBlanks.trans ((moves_peek _).trans ih)
  | case2 => exact .refl

theorem moves_skipIndent (c : Cursor) : c.Moves c.skipIndent := by
  have hblanks : c.Moves c.skipInlineBlanks := c.moves_skipWhile isInlineBlank
  rw [skipIndent_eq]
  split
  · exact hblanks.trans
      ((moves_next _).trans ((moves_skipBlankLines _).trans (moves_skipWhile _ _)))
  · exact hblanks

/-! ### Blank lines -/

/-- Short of the end of the source, a step moves forward. -/
theorem Located.offset_lt_next (h : Located source c) (hlt : c.offset < byteLength source) :
    c.offset < c.next.offset := by
  obtain ⟨lines, current, hbehind⟩ := h.behind
  have hne : c.here.rest ≠ [] := by
    intro hnil
    have hlength := hbehind.byteLength_eq
    rw [hnil, Text.byteLength_nil] at hlength
    change c.here.offset < _ at hlt
    omega
  obtain ⟨ch, hch⟩ := Option.ne_none_iff_exists'.1 (mt current_eq_none_iff.1 hne)
  exact Cursor.offset_lt_next hch

/-- Whatever a blank line looks like and wherever the peek position has been taken to, skipping the
line moves on. So a round over blank lines never ends for having committed nothing. -/
theorem Located.remaining_lt_of_newline (h : Located source c)
    (hpeeked : c.peekInlineBlanks.peeked = some '\n') :
    c.peekInlineBlanks.skipToPeek.next.remaining < c.remaining := by
  have hlocated := h.of_moves c.moves_peekInlineBlanks
  generalize hpeek : c.peekInlineBlanks = p at hpeeked hlocated
  have hlt : p.ahead.offset < byteLength source := by
    have hne : p.ahead.rest ≠ [] := by
      intro hnil
      rw [Cursor.peeked, Mark.char?_eq_none_iff.2 hnil] at hpeeked
      cases hpeeked
    have hlength := hlocated.ahead_rest.resolve_left hne
    have hpos := Mark.byteLength_pos hne
    omega
  have hskip := hlocated.of_moves p.moves_skipToPeek
  have hle : p.offset ≤ p.skipToPeek.offset := p.to_skipToPeek.offset_le
  have hnext : p.skipToPeek.offset ≤ p.skipToPeek.next.offset :=
    p.skipToPeek.to_next.offset_le
  -- either committing up to the peek position moves on, or the line break behind it does
  have hmoves : p.offset < p.skipToPeek.next.offset := by
    rcases Nat.lt_or_ge p.offset p.skipToPeek.offset with hmoved | hstays
    · exact Nat.lt_of_lt_of_le hmoved hnext
    · have hahead : p.offset ≤ p.ahead.offset := hlocated.ahead_le
      exact Nat.lt_of_le_of_lt hle (hskip.offset_lt_next (by omega))
  have hoffset : p.offset = c.offset := by rw [← hpeek]; rfl
  have hsize := hskip.next.size_eq
  have hwithin := hskip.next.le.1
  change p.skipToPeek.next.size - p.skipToPeek.next.offset < c.size - c.offset
  rw [h.size_eq]
  omega

/-! ### Questions -/

theorem moves_isNumberStart (c : Cursor) : c.Moves c.isNumberStart.2 := by
  unfold isNumberStart
  split
  · exact c.moves_peek.trans (moves_resetPeek _)
  · exact c.moves_resetPeek
  · exact c.moves_resetPeek

/-- The question about the indent of the next line only looks ahead. -/
theorem moves_peekNextLineIndent (c : Cursor) : c.Moves c.peekNextLineIndent.2 := by
  unfold peekNextLineIndent
  split
  · exact c.moves_peek.trans ((moves_peekBlankLines _).trans (moves_peekInlineBlanks _))
  · exact .refl

theorem moves_isNextLinePattern (c : Cursor) : c.Moves c.isNextLinePattern.2 :=
  c.moves_peekNextLineIndent.trans (moves_resetPeek _)

theorem moves_isNextLineAttribute (c : Cursor) : c.Moves c.isNextLineAttribute.2 :=
  c.moves_peekNextLineIndent.trans (moves_resetPeek _)

theorem moves_isValueStart (c : Cursor) : c.Moves c.isValueStart.2 := by
  refine c.moves_peekInlineBlanks.trans ?_
  unfold isValueStart
  dsimp only
  split
  · exact (moves_peekNextLineIndent _).trans (moves_resetPeek _)
  · exact moves_resetPeek _
  · exact moves_resetPeek _

theorem moves_isNextLineVariant (c : Cursor) : c.Moves c.isNextLineVariant.2 := by
  have hbracket : ∀ p : Cursor, p.Moves (if p.peeked = some '[' then
      (decide (p.peek.peeked ≠ some '['), p.peek.resetPeek) else (false, p.resetPeek)).2 := by
    intro p
    split
    · exact p.moves_peek.trans (moves_resetPeek _)
    · exact p.moves_resetPeek
  apply c.moves_peekInlineBlanks.trans
  apply (moves_peekNextLineIndent _).trans
  unfold isNextLineVariant
  dsimp only
  split
  · -- a star in front of the bracket is passed over
    by_cases hstar : c.peekInlineBlanks.peekNextLineIndent.2.peeked = some '*'
    · simp only [if_pos hstar]
      exact (moves_peek _).trans (hbracket _)
    · simp only [if_neg hstar]
      exact hbracket _
  · exact moves_resetPeek _

/-- The question about comment markers only looks ahead. -/
theorem moves_peekMarkers (c : Cursor) (level : Nat) : c.Moves (c.peekMarkers level).2 := by
  induction level generalizing c with
  | zero => exact .refl
  | succ level ih =>
    unfold peekMarkers
    split
    · exact c.moves_peek.trans (ih c.peek)
    · exact .refl

theorem moves_isNextLineComment (c : Cursor) (level : Nat) :
    c.Moves (c.isNextLineComment level).2 := by
  unfold isNextLineComment
  split
  · exact c.moves_peek.trans ((moves_peekMarkers _ level).trans (moves_resetPeek _))
  · exact c.moves_resetPeek

theorem moves_isNextLineLegacyComment (c : Cursor) : c.Moves c.isNextLineLegacyComment.2 := by
  unfold isNextLineLegacyComment
  dsimp only
  split
  · refine c.moves_peek.trans ?_
    split
    · exact (moves_peek _).trans (moves_resetPeek _)
    · exact moves_resetPeek _
  · exact c.moves_resetPeek

end Cursor

/-! ### Parsers that a caller can run -/

namespace Parser

variable {α β : Type}

/-- A parser that moves its cursor by elementary moves, whether it succeeds or fails. -/
def Roams (p : Parser α) : Prop := ∀ c : Cursor, c.Moves (stopOf (p c))

theorem roams_pure (a : α) : Roams (pure a : Parser α) := fun _ => .refl

theorem roams_fail (code : ErrorCode) (args : List String) : Roams (fail code args : Parser α) :=
  fun _ => .refl

theorem roams_current : Roams current := fun _ => .refl

theorem roams_next : Roams (modify Cursor.next : Parser PUnit) := Cursor.moves_next

theorem roams_skipInlineBlanks : Roams skipInlineBlanks := Cursor.moves_skipWhile isInlineBlank

theorem roams_takeWhile (p : Char → Bool) : Roams (takeWhile p) := Cursor.moves_takeWhile p

/-- Two parsers in sequence move the cursor only by operations if each of them does. -/
theorem Roams.bind {p : Parser α} {f : α → Parser β} (hp : Roams p) (hf : ∀ a, Roams (f a)) :
    Roams (p >>= f) := by
  intro c
  have hmoves := hp c
  cases hrun : p c with
  | ok a d =>
    rw [bind_ok hrun]
    rw [hrun] at hmoves
    exact hmoves.trans (hf a d)
  | error e d =>
    rw [bind_error hrun]
    rw [hrun] at hmoves
    exact hmoves

theorem roams_expectChar (ch : Char) : Roams (expectChar ch) := by
  apply roams_current.bind
  intro seen
  split
  · exact roams_next
  · exact roams_fail _ _

theorem roams_expectLineEnd : Roams expectLineEnd := by
  apply roams_current.bind
  intro seen
  split
  · exact roams_pure _
  · exact roams_next
  · exact roams_fail _ _

theorem roams_expectIndent : Roams expectIndent := by
  have hlines : Roams (modify fun c => c.next.skipBlankLines.2 : Parser PUnit) :=
    fun c => c.moves_next.trans (Cursor.moves_skipBlankLines _)
  have hoffset : Roams offset := fun _ => .refl
  have hblanks : ∀ start, Roams (do
      skipInlineBlanks
      if (← offset) = start then fail .expectedToken [" "]) := by
    intro start
    apply roams_skipInlineBlanks.bind
    intro _
    apply hoffset.bind
    intro stop
    split
    · exact roams_fail _ _
    · exact roams_pure _
  apply roams_skipInlineBlanks.bind
  intro _
  apply roams_current.bind
  intro seen
  split
  · exact (roams_fail _ _).bind fun _ => hlines.bind fun _ => hoffset.bind hblanks
  · exact hlines.bind fun _ => hoffset.bind hblanks

theorem roams_takeChar (p : Char → Bool) : Roams (takeChar p) := by
  apply roams_current.bind
  intro seen
  cases seen with
  | none => exact roams_pure none
  | some ch =>
    dsimp only
    split
    · exact roams_next.bind fun _ => roams_pure _
    · exact roams_pure none

theorem roams_takeIdentifierStart : Roams takeIdentifierStart := by
  apply (roams_takeChar _).bind
  intro taken
  cases taken with
  | none => exact roams_fail _ _
  | some ch => exact roams_pure ch

theorem roams_takeDigits : Roams takeDigits := by
  apply (roams_takeChar _).bind
  intro taken
  cases taken with
  | none => exact roams_fail _ _
  | some ch => exact (roams_takeWhile _).bind fun _ => roams_pure _

end Parser

/-! ### Everything that a caller can ask -/

namespace Cursor

variable {source : List Char} {c : Cursor}

/-- What a caller can ask of a cursor: the elementary moves, the longer ones, the questions about
what lies ahead, and the parsers that the grammar is built from. -/
inductive Operation
  | move (elementary : Move)
  | skipToPeek
  | skipInlineBlanks
  | peekInlineBlanks
  | skipBlankLines
  | peekBlankLines
  | skipIndent
  | isNumberStart
  | isValueStart
  | isNextLinePattern
  | isNextLineAttribute
  | isNextLineVariant
  | isNextLineComment (level : Nat)
  | isNextLineLegacyComment
  | expectChar (ch : Char)
  | expectLineEnd
  | expectIndent
  | takeChar (p : Char → Bool)
  | takeIdentifierStart
  | takeDigits

namespace Operation

/-- The cursor behind an operation, whatever it answers. -/
def run : Operation → Cursor → Cursor
  | .move elementary => elementary.run
  | .skipToPeek => Cursor.skipToPeek
  | .skipInlineBlanks => Cursor.skipInlineBlanks
  | .peekInlineBlanks => Cursor.peekInlineBlanks
  | .skipBlankLines => (·.skipBlankLines.2)
  | .peekBlankLines => Cursor.peekBlankLines
  | .skipIndent => Cursor.skipIndent
  | .isNumberStart => (·.isNumberStart.2)
  | .isValueStart => (·.isValueStart.2)
  | .isNextLinePattern => (·.isNextLinePattern.2)
  | .isNextLineAttribute => (·.isNextLineAttribute.2)
  | .isNextLineVariant => (·.isNextLineVariant.2)
  | .isNextLineComment level => fun c => (c.isNextLineComment level).2
  | .isNextLineLegacyComment => (·.isNextLineLegacyComment.2)
  | .expectChar ch => fun c => Parser.stopOf (Parser.expectChar ch c)
  | .expectLineEnd => fun c => Parser.stopOf (Parser.expectLineEnd c)
  | .expectIndent => fun c => Parser.stopOf (Parser.expectIndent c)
  | .takeChar p => fun c => Parser.stopOf (Parser.takeChar p c)
  | .takeIdentifierStart => fun c => Parser.stopOf (Parser.takeIdentifierStart c)
  | .takeDigits => fun c => Parser.stopOf (Parser.takeDigits c)

/-- Whether an operation is asserted not to be asked for: a line break is no character to expect,
since it has three forms. -/
def Asserted : Operation → Prop
  | .expectChar ch => ch = '\n'
  | _ => False

/-- Whatever a caller asks is made of elementary moves. -/
theorem moves (operation : Operation) (c : Cursor) : c.Moves (operation.run c) := by
  cases operation with
  | move elementary => exact c.moves_run elementary
  | skipToPeek => exact c.moves_skipToPeek
  | skipInlineBlanks => exact c.moves_skipWhile isInlineBlank
  | peekInlineBlanks => exact c.moves_peekInlineBlanks
  | skipBlankLines => exact c.moves_skipBlankLines
  | peekBlankLines => exact c.moves_peekBlankLines
  | skipIndent => exact c.moves_skipIndent
  | isNumberStart => exact c.moves_isNumberStart
  | isValueStart => exact c.moves_isValueStart
  | isNextLinePattern => exact c.moves_isNextLinePattern
  | isNextLineAttribute => exact c.moves_isNextLineAttribute
  | isNextLineVariant => exact c.moves_isNextLineVariant
  | isNextLineComment level => exact c.moves_isNextLineComment level
  | isNextLineLegacyComment => exact c.moves_isNextLineLegacyComment
  | expectChar ch => exact Parser.roams_expectChar ch c
  | expectLineEnd => exact Parser.roams_expectLineEnd c
  | expectIndent => exact Parser.roams_expectIndent c
  | takeChar p => exact Parser.roams_takeChar p c
  | takeIdentifierStart => exact Parser.roams_takeIdentifierStart c
  | takeDigits => exact Parser.roams_takeDigits c

/-- Whether an operation may fail: an assertion rules it out, or one of the elementary moves that
lead on from the cursor fails. -/
def MayPanic (operation : Operation) (c : Cursor) : Prop :=
  operation.Asserted ∨ ∃ d move, c.Moves d ∧ Move.Panics move d

end Operation

/-- The cursor behind a sequence of operations. -/
def run (c : Cursor) (operations : List Operation) : Cursor :=
  operations.foldl (fun c operation => operation.run c) c

/-- No operation of a sequence may fail at the cursor that it comes to. -/
def Survives : Cursor → List Operation → Prop
  | _, [] => True
  | c, operation :: rest => ¬operation.MayPanic c ∧ (operation.run c).Survives rest

/-- Whatever a caller asks of a cursor, it is moved by operations. -/
theorem moves_operations (c : Cursor) (operations : List Operation) :
    c.Moves (c.run operations) := by
  induction operations generalizing c with
  | nil => exact .refl
  | cons operation rest ih => exact (operation.moves c).trans (ih (operation.run c))

/-- No operation fails on a source that offsets can measure, as long as none asserts what does not
hold. -/
theorem Located.survives {operations : List Operation} (h : Located source c)
    (hsize : byteLength source < Span.maxOffset)
    (hasserted : ∀ operation ∈ operations, ¬operation.Asserted) : c.Survives operations := by
  induction operations generalizing c with
  | nil => trivial
  | cons operation rest ih =>
    obtain ⟨hfirst, hrest⟩ := List.forall_mem_cons.1 hasserted
    constructor
    · rintro (hassert | ⟨d, move, hmoves, hpanics⟩)
      · exact hfirst hassert
      · exact (h.of_moves hmoves).not_panics hsize move hpanics
    · exact ih (h.of_moves (operation.moves c)) hrest

/-- A cursor and a line table agree. Whatever is asked of a cursor of a source that is shorter than
the largest offset, no operation fails, the committed position lies within the source and cuts
neither a character nor a line break apart, the peek position is not behind it, and its line and
column are those that the line table of the source finds. -/
theorem run_agrees {source : List Char} {operations : List Operation}
    (hsize : byteLength source < Span.maxOffset)
    (hasserted : .expectChar '\n' ∉ operations) :
    (ofText source).Survives operations ∧
      ((ofText source).run operations).offset ≤ byteLength source ∧
      IsCut source ((ofText source).run operations).offset ∧
      ((ofText source).run operations).offset ≤
        ((ofText source).run operations).ahead.offset ∧
      ((ofText source).run operations).position =
        (LineTable.ofText source).position source ((ofText source).run operations).offset := by
  have hallowed : ∀ operation ∈ operations, ¬operation.Asserted := by
    intro operation hmem hassert
    cases operation with
    | expectChar ch =>
      obtain rfl : ch = '\n' := hassert
      exact hasserted hmem
    | _ => exact hassert
  have hstart : Located source (ofText source) := by
    rw [ofText, held_of_fits (Nat.le_of_lt hsize)]
    exact located_atStart source
  have hlocated := hstart.of_moves (moves_operations _ operations)
  obtain ⟨lines, current, hbehind⟩ := hlocated.behind
  exact ⟨hstart.survives hsize hallowed, hbehind.le.1, hbehind.isCut,
    hlocated.ahead_le, hbehind.position_eq⟩

/-- The peek position is taken into a character and between the two halves of a line break. -/
theorem run_agrees_astray :
    let source := ['é', '\r', '\n', 'b']
    let operations : List Operation := [.move (.resetPeekTo 1), .skipToPeek, .takeChar isLineBreak,
      .expectChar 'b', .isNumberStart, .move (.resetPeekTo 9), .move .takeLine]
    byteLength source < Span.maxOffset ∧ .expectChar '\n' ∉ operations ∧
      (ofText source).Survives operations ∧
      ((ofText source).run operations).position =
        (LineTable.ofText source).position source ((ofText source).run operations).offset := by
  intro source operations
  have hsize : byteLength source < Span.maxOffset := by decide
  have hasserted : .expectChar '\n' ∉ operations := by simp [operations]
  obtain ⟨hsurvives, -, -, -, hposition⟩ := run_agrees hsize hasserted
  exact ⟨hsize, hasserted, hsurvives, hposition⟩

end Cursor

end Localization
