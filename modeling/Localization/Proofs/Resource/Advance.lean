import Localization.Proofs.Resource.LineBreaks

/-!
# Every turn advances

The loops of the parser end: each turn that is followed by another one commits text, or moves the
peek position on where it is the peek position that looks ahead. So the guards that end a loop as
soon as a turn commits nothing never do.

## Main definitions

* `Parser.Loop` — the loops of the grammar
* `Cursor.Turn`, `Cursor.PeekTurn` — the turns of the loops outside the grammar

## Main statements

* `Cursor.Ready.takeEntry_offset_lt` — an entry commits text, even if it is broken
* `Parser.Loop.offset_lt`, `Cursor.Turn.offset_lt`, `Cursor.PeekTurn.offset_lt` — turns advance
* `Parser.Loop.rounds_eq`, `Cursor.Ready.takeEntries_turn` and others — loops without their guards
-/

namespace Localization

open Localization.Parser (entryLine)

variable {σ α : Type} {c d : Cursor}

/-! ### Strict moves -/

namespace Cursor

/-- A cursor that has moved on has less to read. -/
theorem To.remaining_lt (h : c.To d) (hc : c.Ready) (hlt : c.offset < d.offset) :
    d.remaining < c.remaining := by
  obtain ⟨taken, hreads⟩ := h.reads
  refine hreads.remaining_lt hc.size_eq ?_
  rintro rfl
  rw [show d.offset = c.offset + Text.byteLength [] from hreads.here.2] at hlt
  exact Nat.lt_irrefl _ hlt

/-- Taking a text that is not empty moves forward. -/
theorem Takes.offset_lt {taken : List Char} (h : c.Takes taken d) (hne : taken ≠ []) :
    c.offset < d.offset := by
  rw [h.offset]
  exact Nat.lt_add_of_pos_right (Mark.byteLength_pos hne)

end Cursor

namespace Parser

theorem Returns.offset_le {p : Parser α} [Forward p] {a : α} (h : Returns p c a d) :
    c.offset ≤ d.offset := (Forward.to_ok h).offset_le

/-- What runs behind a character that is committed ends behind it. -/
theorem Returns.offset_lt_of_next {p : Parser α} [Forward p] {a : α} {ch : Char}
    (h : Returns p c.next a d) (hcurrent : c.current = some ch) : c.offset < d.offset :=
  Nat.lt_of_lt_of_le (Cursor.offset_lt_next hcurrent) h.offset_le

theorem expectChar_offset_lt {ch : Char} {u : Unit} (h : Returns (expectChar ch) c u d) :
    c.offset < d.offset := by
  rw [expectChar_next h]
  exact Cursor.offset_lt_next (expectChar_current h)

theorem expectIndent_offset_lt {u : Unit} (h : Returns expectIndent c u d) :
    c.offset < d.offset := by
  unfold expectIndent at h
  dsimp only at h
  have h := h.skipInlineBlanks_bind.current_bind
  split at h
  · exact absurd h Returns.not_fail_bind
  · next hnewline =>
    -- the line break is stepped over, and the rest only moves on
    have hmove : c.skipInlineBlanks.next.To d :=
      (Cursor.to_skipBlankLines _).trans (Forward.to_ok h.modify_bind)
    calc c.offset ≤ c.skipInlineBlanks.offset := (Cursor.to_skipWhile _ c).offset_le
      _ < c.skipInlineBlanks.next.offset := Cursor.offset_lt_next (not_not.1 hnewline)
      _ ≤ d.offset := hmove.offset_le

/-! ### Loops of the grammar -/

/-- The loops of the grammar, by what they do in a round. -/
inductive Loop : {σ α : Type} → (σ → Parser (Round σ α)) → Prop
  | quoted : Loop quotedRound
  | arguments : Loop (callArgumentRound (callArgument selectorExpression))
  | text : Loop textRound
  | elements : Loop (patternRound (placeableExpression pattern))
  | variants : Loop (variantRound pattern)
  | attributes : Loop attributeRound
  | comment (level : Nat) : Loop (commentRound level)
  | legacyComment : Loop legacyCommentRound

theorem quotedRound_offset_lt {taken taken' : List Char}
    (h : Returns (quotedRound taken) c (.again taken') d) : c.offset < d.offset := by
  unfold quotedRound at h
  have h := h.current_bind
  split at h
  · next hquote => exact h.modify_bind.offset_lt_of_next hquote
  · exact absurd h Returns.not_fail
  · exact absurd h Returns.not_fail
  · next hslash =>
    have h := h.next_bind
    split at h
    · exact h.offset_lt_of_next hslash
    · exact h.offset_lt_of_next hslash
    · exact h.offset_lt_of_next hslash
  · next hcurrent => exact h.modify_bind.offset_lt_of_next hcurrent

/-- Each round of a text that goes on takes a character, an escape or a line break. -/
theorem textRound_offset_lt {taken taken' : List Char} (hc : c.Ready)
    (h : Returns (textRound taken) c (.again taken') d) : c.offset < d.offset := by
  unfold textRound at h
  have h := h.current_bind
  split at h
  · cases (Returns.pure_iff.1 h).1
  · cases (Returns.pure_iff.1 h).1
  · next hnewline =>
    have h := h.ask_bind hc.isNextLinePattern
    split at h
    · exact h.modify_bind.offset_lt_of_next hnewline
    · cases (Returns.pure_iff.1 h).1
  · next hslash =>
    have h := h.next_bind
    split at h
    · exact h.offset_lt_of_next hslash
    · exact h.offset_lt_of_next hslash
  · next hcurrent => exact h.modify_bind.offset_lt_of_next hcurrent

/-- Each round of arguments that goes on takes a comma. -/
theorem callArgumentRound_offset_lt {argument : Parser CallArgument} [Steady argument]
    {before before' : List CallArgument}
    (h : Returns (callArgumentRound argument before) c (.again before') d) :
    c.offset < d.offset := by
  unfold callArgumentRound at h
  dsimp only at h
  have h := h.current_bind
  split at h
  · cases (Returns.pure_iff.1 h).1
  · obtain ⟨argument, c₁, hargument, h⟩ := h.bind
    cases herror : argumentError? before argument with
    | some code =>
      rw [herror] at h
      exact absurd h Returns.not_fail_bind
    | none =>
      rw [herror] at h
      have h := h.skipInlineBlanks_bind.current_bind
      split at h
      -- a round is repeated behind a comma only, and that is not empty
      · next hcomma =>
        calc c.offset ≤ c₁.offset := hargument.offset_le
          _ ≤ c₁.skipInlineBlanks.offset := (Cursor.to_skipWhile _ c₁).offset_le
          _ < d.offset := h.modify_bind.offset_lt_of_next hcomma
      · cases (Returns.pure_iff.1 h).1

/-- Each round of variants takes the line break in front of one. -/
theorem variantRound_offset_lt {pattern : Parser Pattern} [Steady pattern]
    {state : List Variant × Option Nat} {result : Round _ _}
    (h : Returns (variantRound pattern state) c result d) : c.offset < d.offset := by
  unfold variantRound at h
  dsimp only at h
  obtain ⟨_, c₁, hindent, h⟩ := h.bind
  obtain ⟨next, c₂, hvariant, h⟩ := h.bind
  refine Nat.lt_of_lt_of_le (expectIndent_offset_lt hindent) ?_
  refine Nat.le_trans hvariant.offset_le ?_
  obtain ⟨more, c₃, hmore, h⟩ := h.bind
  refine Nat.le_trans hmore.offset_le ?_
  split at h
  · exact h.offset_le
  · split at h
    · exact h.offset_le
    · exact h.offset_le

/-- An element of a pattern is not empty. -/
theorem patternRound_offset_lt {expression : Parser Expression} [Steady expression]
    {before before' : List PatternElement} (hc : c.Ready)
    (h : Returns (patternRound expression before) c (.again before') d) :
    c.offset < d.offset := by
  unfold patternRound at h
  dsimp only at h
  have h := h.current_bind
  split at h
  · cases (Returns.pure_iff.1 h).1
  · next ch hcurrent =>
    -- where the pattern does not end, either element takes at least one character
    have helement : ¬PatternEnds c.here.rest →
        Returns (if ch = '{' then do
            return .again ((← placeable expression) :: before)
          else do
            return .again ((← textElement) :: before) :
            Parser (Round (List PatternElement) (List PatternElement))) c (.again before') d →
        c.offset < d.offset := by
      intro hgoes h
      split at h
      · obtain ⟨element, c₁, hplaceable, h⟩ := h.bind
        unfold placeable at hplaceable
        obtain ⟨_, c₂, hopen, hplaceable⟩ := hplaceable.offset_bind.bind
        calc c.offset < c₂.offset := expectChar_offset_lt hopen
          _ ≤ c₁.offset := hplaceable.offset_le
          _ ≤ d.offset := h.offset_le
      · next hbrace =>
        obtain ⟨element, c₁, htext, h⟩ := h.bind
        obtain ⟨raw, value, next, htakes, hspells, -, hhead, -⟩ := textElement_returns hc htext
        have hne := ne_nil_of_spellsText hspells (hhead.resolve_left hgoes) hcurrent hbrace
        exact Nat.lt_of_lt_of_le (htakes.offset_lt hne) h.offset_le
    split at h
    · have h := h.ask_bind hc.isNextLinePattern
      split at h
      · cases (Returns.pure_iff.1 h).1
      · next hgoes =>
        exact helement (current_not_patternEnds hcurrent fun _ => by simpa using hgoes) h
    · next hne =>
      exact helement (current_not_patternEnds hcurrent fun heq => absurd heq hne) h.pure_bind

/-- Each round of a comment that goes on takes a line break. -/
theorem commentRound_offset_lt {level : Nat} {before before' : List Char} (hc : c.Ready)
    (h : Returns (commentRound level before) c (.again before') d) : c.offset < d.offset := by
  unfold commentRound at h
  dsimp only at h
  obtain ⟨line, c₁, hline, h⟩ := h.bind
  have hready := Steady.ready_of_ok hc hline
  have h := h.ask_bind (hready.isNextLineComment level)
  split at h
  · next hstarts =>
    -- the next line is marked, so there is a line break to step over
    obtain ⟨behind, hbreak, -⟩ := (Option.any_eq_true _ _).1 hstarts
    have hnewline : c₁.current = some '\n' :=
      Cursor.current_eq_newline_iff.2 (Option.isSome_of_mem hbreak)
    exact Nat.lt_of_le_of_lt hline.offset_le (h.modify_bind.offset_lt_of_next hnewline)
  · cases (Returns.pure_iff.1 h).1

theorem legacyCommentRound_offset_lt {before : List Char} {result : Round _ _}
    (h : Returns (legacyCommentRound before) c result d) : c.offset < d.offset := by
  unfold legacyCommentRound at h
  dsimp only at h
  obtain ⟨_, c₁, hfirst, h⟩ := h.bind
  obtain ⟨_, c₂, hsecond, h⟩ := h.bind
  have hslashes : c.offset < c₂.offset :=
    (expectChar_offset_lt hfirst).trans (expectChar_offset_lt hsecond)
  have h := h.current_bind
  split at h
  · exact Nat.lt_of_lt_of_le hslashes h.offset_le
  · exact Nat.lt_of_lt_of_le hslashes h.offset_le

/-- Each round of attributes that goes on takes an attribute. -/
theorem attributeRound_offset_lt {before before' : List Attribute} (hc : c.Ready)
    (h : Returns (attributeRound before) c (.again before') d) : c.offset < d.offset := by
  unfold attributeRound at h
  have h := h.ask_bind hc.isNextLineAttribute
  split at h
  · obtain ⟨_, c₁, hindent, h⟩ := h.bind
    exact Nat.lt_of_lt_of_le (expectIndent_offset_lt hindent) h.offset_le
  · cases (Returns.pure_iff.1 h).1

namespace Loop

variable {round : σ → Parser (Round σ α)}

theorem steady (h : Loop round) (s : σ) : Steady (round s) := by
  cases h <;> infer_instance

/-- A round that is followed by another one commits text. -/
theorem offset_lt (h : Loop round) {s s' : σ} (hc : c.Ready)
    (hround : Returns (round s) c (.again s') d) : c.offset < d.offset := by
  cases h with
  | quoted => exact quotedRound_offset_lt hround
  | arguments => exact callArgumentRound_offset_lt hround
  | text => exact textRound_offset_lt hc hround
  | elements => exact patternRound_offset_lt hc hround
  | variants => exact variantRound_offset_lt hround
  | attributes => exact attributeRound_offset_lt hc hround
  | comment => exact commentRound_offset_lt hc hround
  | legacyComment => exact legacyCommentRound_offset_lt hround

end Loop

/-- What a repetition does behind a round: goes on with the next one, or ends. -/
def Round.goOn (next : σ → Parser α) : Round σ α → Parser α
  | .again state => next state
  | .done result => pure result

/-- Loops of the grammar never end because a round has committed nothing. -/
theorem Loop.rounds_eq {round : σ → Parser (Round σ α)} (h : Loop round) (s : σ) (hc : c.Ready) :
    rounds round s c = (round s >>= Round.goOn (rounds round)) c := by
  have := h.steady s
  cases hround : round s c with
  | error e d => rw [rounds_error hround, bind_error hround]
  | ok result d =>
    rw [bind_ok hround]
    cases result with
    | again s' =>
      exact rounds_again hround ((Forward.to_ok hround).remaining_lt hc (h.offset_lt hc hround))
    | done a => exact rounds_done hround

end Parser

/-! ### Entries -/

namespace Cursor

/-- What is skipped behind a broken entry leads on, even if nothing of the entry was read. -/
theorem To.skipToEntryStart_offset_lt (h : c.To d) (hd : d.resetPeek.Ready)
    (hne : c.here.rest ≠ []) : c.offset < (d.skipToEntryStart c.offset).offset := by
  unfold skipToEntryStart
  split
  · next hstart => exact hstart.1
  · rw [← skipLines_resetPeek]
    obtain ⟨-, more, hmore, hresumes⟩ := hd.skipLines
    have hmove : c.To d.resetPeek := h.trans d.to_resetPeek
    obtain ⟨taken, hreads⟩ := hmove.reads
    have htakes : c.Takes (taken ++ more) d.resetPeek.skipLines :=
      ⟨hreads.trans hmore.reads, hmore.ready⟩
    refine htakes.offset_lt fun hnil => ?_
    -- either the text ends here or a line break has been skipped
    rcases hresumes with hend | ⟨hline, -⟩
    · exact hne (by rw [htakes.rest, hnil, hend]; rfl)
    · exact hline.ne_nil (List.append_eq_nil_iff.1 hnil).2

theorem to_skipToEntryStart (entryStart : Nat) (hd : d.resetPeek.Ready) :
    d.To (d.skipToEntryStart entryStart) := by
  unfold skipToEntryStart
  split
  · exact .refl
  · rw [← skipLines_resetPeek]
    exact d.to_resetPeek.trans hd.skipLines.1

/-- An entry commits text, even if it is broken. -/
theorem Ready.takeEntry_offset_lt (hc : c.Ready) (hne : c.current ≠ none) :
    c.offset < c.takeEntry.2.offset := by
  cases hrun : entryLine c.beginCapture with
  | ok entry d =>
    obtain ⟨text, ending, htakes, hspells, -⟩ := Parser.entryLine_returns hc.beginCapture hrun
    obtain ⟨ch, more, rfl, -⟩ := hspells.exists_head
    rw [takeEntry_of_ok hrun]
    exact htakes.offset_lt (by simp)
  | error e d =>
    have hd := (Parser.Steady.settled_of_error hc.beginCapture hrun).resetPeek_ready
    rw [takeEntry_of_error hrun]
    exact To.skipToEntryStart_offset_lt (c := c.beginCapture) (Parser.Forward.to_error hrun) hd
      (mt current_eq_none_iff.2 hne)

/-! ### Loops outside the grammar -/

/-- The turns of the loops that commit text, from where one starts to where the next one does. -/
inductive Turn : Cursor → Cursor → Prop
  /-- A character of a class, of a counted run, or up to an offset. -/
  | char {c : Cursor} {ch : Char} : c.current = some ch → Turn c c.next
  | blankLine {c : Cursor} : c.peekInlineBlanks.peeked = some '\n' →
      Turn c c.peekInlineBlanks.skipToPeek.next
  /-- A line that is skipped behind a broken entry. -/
  | line {c : Cursor} {ch : Char} : c.takeLine.2.current = some ch → Turn c c.takeLine.2.next
  | entry {c : Cursor} {ch : Char} : c.current = some ch → Turn c c.takeEntry.2.skipBlankLines.2

/-- The turns of the loops that look ahead. -/
inductive PeekTurn : Cursor → Cursor → Prop
  | char {c : Cursor} {ch : Char} : c.peeked = some ch → PeekTurn c c.peek
  | blankLine {c : Cursor} : c.peekInlineBlanks.peeked = some '\n' →
      PeekTurn c c.peekInlineBlanks.peek

/-- A turn commits text and leaves no lookahead pending. -/
theorem Turn.offset_lt (h : Turn c d) (hc : c.Ready) : c.offset < d.offset ∧ d.Ready := by
  cases h with
  | char hcurrent => exact ⟨offset_lt_next hcurrent, hc.next⟩
  | blankLine hpeeked =>
    rw [hc.peekInlineBlanks_skipToPeek]
    have hnewline := hc.peekInlineBlanks_peeked.symm.trans hpeeked
    exact ⟨Nat.lt_of_le_of_lt (to_skipWhile _ c).offset_le (offset_lt_next hnewline),
      hc.skipInlineBlanks.next⟩
  | line hcurrent =>
    exact ⟨Nat.lt_of_le_of_lt c.to_takeLine.offset_le (offset_lt_next hcurrent),
      (hc.of_to c.to_takeLine rfl).next⟩
  | entry hcurrent =>
    have hlt := hc.takeEntry_offset_lt (by simp [hcurrent])
    refine ⟨Nat.lt_of_lt_of_le hlt (to_skipBlankLines _).offset_le, ?_⟩
    rw [hc.takeEntry_settled.skipBlankLines]
    exact hc.takeEntry_settled.resetPeek_ready.skipBlankLines.1

/-- A turn that looks ahead moves the peek position on and commits nothing. -/
theorem PeekTurn.offset_lt (h : PeekTurn c d) :
    c.ahead.offset < d.ahead.offset ∧ d.here = c.here := by
  cases h with
  | char hpeeked => exact ⟨Mark.offset_lt_step hpeeked, rfl⟩
  | blankLine hpeeked =>
    exact ⟨Nat.lt_of_le_of_lt (Mark.offset_le_skipWhile _ _) (Mark.offset_lt_step hpeeked), rfl⟩

/-! ### Loops without their guards -/

/-- One turn of the loop over blank lines: a blank line is counted and skipped. -/
theorem Ready.skipBlankLines_turn (hc : c.Ready)
    (hpeeked : c.peekInlineBlanks.peeked = some '\n') :
    c.skipBlankLines = Prod.map (· + 1) id c.peekInlineBlanks.skipToPeek.next.skipBlankLines := by
  have hmove : c.To c.peekInlineBlanks.skipToPeek.next :=
    c.to_peekInlineBlanks.trans ((to_skipToPeek _).trans (to_next _))
  have hlt := hmove.remaining_lt hc ((Turn.blankLine hpeeked).offset_lt hc).1
  rw [Cursor.skipBlankLines]
  simp only [hpeeked, if_pos hlt]
  rfl

/-- One turn of the loop over lines of junk: the next line is no entry. -/
theorem Ready.skipLines_turn (hc : c.Ready) {ch : Char} (hcurrent : c.takeLine.2.current = some ch)
    (hstart : c.takeLine.2.next.current.any isEntryStart = false) :
    c.skipLines = c.takeLine.2.next.skipLines := by
  have hmove : c.To c.takeLine.2.next := c.to_takeLine.trans (to_next _)
  have hlt := hmove.remaining_lt hc ((Turn.line hcurrent).offset_lt hc).1
  rw [Cursor.skipLines]
  simp only [hcurrent, hstart, if_pos hlt]
  rfl

theorem Ready.takeEntry_size (hc : c.Ready) : c.takeEntry.2.size = c.size := by
  have hsize : ∀ d : Cursor, c.beginCapture.To d → d.size = c.size := by
    intro d hmove
    obtain ⟨taken, hreads⟩ := hmove.reads
    exact hreads.size
  cases hrun : entryLine c.beginCapture with
  | ok entry d =>
    rw [takeEntry_of_ok hrun]
    exact hsize d (Parser.Forward.to_ok hrun)
  | error e d =>
    have hd := (Parser.Steady.settled_of_error hc.beginCapture hrun).resetPeek_ready
    rw [takeEntry_of_error hrun]
    exact hsize (d.skipToEntryStart c.offset)
      ((Parser.Forward.to_error hrun).trans (to_skipToEntryStart c.offset hd))

/-- Behind an entry and blank lines less of the text remains. -/
theorem Ready.remaining_lt_of_entry (hc : c.Ready) {ch : Char} (hcurrent : c.current = some ch) :
    c.takeEntry.2.skipBlankLines.2.remaining < c.remaining := by
  have hlt : c.here.offset < c.takeEntry.2.skipBlankLines.2.here.offset :=
    ((Turn.entry hcurrent).offset_lt hc).1
  obtain ⟨taken, hreads⟩ := (to_skipBlankLines c.takeEntry.2).reads
  have hsize := hreads.size.trans hc.takeEntry_size
  have hpos : 0 < Text.byteLength c.here.rest :=
    Mark.byteLength_pos (mt current_eq_none_iff.2 (by simp [hcurrent]))
  have hend := hc.size_eq
  unfold Cursor.remaining
  omega

/-- One turn of the loop over entries: an entry is read, and the blank lines behind it tell whether
it touches the next one. -/
theorem Ready.takeEntries_turn (hc : c.Ready) {ch : Char} (hcurrent : c.current = some ch) :
    c.takeEntries = (c.takeEntry.1, decide (c.takeEntry.2.skipBlankLines.1 = 0)) ::
      c.takeEntry.2.skipBlankLines.2.takeEntries := by
  rw [Cursor.takeEntries]
  simp only [hcurrent, Lookahead.plain_skipBlankLines, if_pos (hc.remaining_lt_of_entry hcurrent)]

/-- One turn of the loop to the first message or term: an entry that starts with a marker is passed
over. -/
theorem Ready.first_turn (hc : c.Ready) (hcurrent : c.current = some '#')
    (hjunk : ∀ junk, c.takeEntry.1 ≠ .junk junk) :
    Entry.first c = Entry.first c.takeEntry.2.skipBlankLines.2 := by
  rw [Entry.first_eq, hcurrent]
  split
  · next hentry => exact absurd hentry (hjunk _)
  · exact if_pos (hc.remaining_lt_of_entry hcurrent)
  · next hmark _ => exact (hmark rfl).elim

end Cursor

end Localization
