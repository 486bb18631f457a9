import Localization.Proofs.Resource.Held
import Localization.Proofs.Resource.Mirrors.Comment
import Localization.Proofs.Resource.Recovery

/-!
# The entries of a text, one after the other

Between two entries stand the end of the first one's line and blank lines. Reading a text together
with an entry that follows on a line of its own gives the entries of the text, and then those that
follow.

## Main definitions

* `Text.HasContent` — the first line of a text is not blank
* `Cursor.AtEntry` — a cursor at an entry, or at the end
* `Cursor.nextEntry` — the cursor at the next entry but one

## Main statements

* `Cursor.Starts.takeEntries_eq` — entries are taken one by one
* `Cursor.AtEntry.induction` — what holds at the end and of an entry in front of the next one
* `Cursor.AtEntry.exists_taken` — every entry has been taken somewhere
* `Cursor.Beside.takeEntries` — entries that follow a text change none of its entries
-/

namespace Localization

open Localization.Parser (entryLine)
open Text (EndsLine IsBlanks IsGap StartsVisible afterBreak? behindBlankLines byteLength isVisible)

variable {text gap tail : List Char}

/-! ### First lines -/

namespace Text

/-- The first line of the text is not blank. -/
def HasContent (text : List Char) : Prop :=
  ∃ blanks ch more, IsBlanks blanks ∧ isVisible ch ∧ text = blanks ++ ch :: more

theorem HasContent.ne_nil (h : HasContent text) : text ≠ [] := by
  obtain ⟨blanks, ch, more, -, -, rfl⟩ := h
  simp

theorem HasContent.head?_ne (h : HasContent text) : text.head? ≠ some '\n' := by
  obtain ⟨blanks, ch, more, hblanks, hvisible, rfl⟩ := h
  intro hhead
  cases blanks with
  | nil =>
    obtain rfl : ch = '\n' := by simpa using hhead
    exact absurd hvisible (by decide)
  | cons blank blanks =>
    obtain rfl : blank = '\n' := by simpa using hhead
    exact absurd (hblanks '\n' (by simp)) (by decide)

/-- A text that starts with a visible character has content on its first line. -/
theorem hasContent_cons {ch : Char} (h : isVisible ch) (more : List Char) :
    HasContent (ch :: more) :=
  ⟨[], ch, more, isBlanks_nil, h, rfl⟩

/-- What stands behind a text does not take its content away. -/
theorem HasContent.append (h : HasContent text) (tail : List Char) : HasContent (text ++ tail) := by
  obtain ⟨blanks, ch, more, hblanks, hvisible, rfl⟩ := h
  exact ⟨blanks, ch, more ++ tail, hblanks, hvisible, by simp⟩

/-- Behind its blanks the text goes on with a visible character. -/
theorem HasContent.exists_dropWhile (h : HasContent text) :
    ∃ ch more, text.dropWhile isInlineBlank = ch :: more ∧ isVisible ch := by
  obtain ⟨blanks, ch, more, hblanks, hvisible, rfl⟩ := h
  exact ⟨ch, more, by
    rw [hblanks.dropWhile_append, (startsVisible_cons.2 hvisible).dropWhile], hvisible⟩

/-- The line break behind the blanks at the start of a text, if there is one, ends a blank line. -/
theorem HasContent.afterBreak? (h : HasContent text) :
    afterBreak? (text.dropWhile isInlineBlank) = none := by
  obtain ⟨ch, more, hdrop, hvisible⟩ := h.exists_dropWhile
  rw [hdrop, afterBreak?_cons_of_not (not_isLineBreak_of_isVisible hvisible)]

/-- Behind blank lines stands a line of content, unless nothing is left. -/
theorem exists_behindBlankLines (text : List Char) :
    ∃ gap, IsGap gap ∧ text = gap ++ Text.behindBlankLines text ∧
      (Text.behindBlankLines text = [] ∨
        (gap = [] ∨ EndsLine gap) ∧ HasContent (Text.behindBlankLines text)) := by
  obtain ⟨gap, tail, hgap, htail, rfl⟩ := exists_gap text
  rw [hgap.behindBlankLines_append htail]
  split
  · next hnil => exact ⟨gap, hgap, by rw [hnil], .inl rfl⟩
  · next hne =>
    obtain ⟨ch, more, rfl⟩ := List.exists_cons_of_ne_nil hne
    have hsplit : gap.rdropWhile isInlineBlank ++ gap.rtakeWhile isInlineBlank = gap :=
      List.rdropWhile_append_rtakeWhile ..
    refine ⟨gap.rdropWhile isInlineBlank, (isGap_append.1 (hsplit.symm ▸ hgap)).1, ?_,
      .inr ⟨?_, _, ch, more, isBlanks_rtakeWhile, startsVisible_cons.1 htail, rfl⟩⟩
    · rw [← List.append_assoc, hsplit]
    · rcases hlast : (gap.rdropWhile isInlineBlank).getLast? with _ | last
      · exact .inl (List.getLast?_eq_none_iff.1 hlast)
      · refine .inr ⟨last, hlast, ?_⟩
        have hblank := ends_rdropWhile isInlineBlank gap last hlast
        have hmem := (isGap_append.1 (hsplit.symm ▸ hgap)).1 last (List.mem_of_getLast? hlast)
        exact (isVisible_eq_false_iff.1 hmem).resolve_left (by simp [hblank])

end Text

namespace Cursor

variable {c d : Cursor} {entry : Entry} {taken : List Char}

/-- A line break is seen behind the blanks just if the line is blank. -/
theorem Ready.peekInlineBlanks_newline (hc : c.Ready) :
    c.peekInlineBlanks.peeked = some '\n' ↔
      (afterBreak? (c.here.rest.dropWhile isInlineBlank)).isSome := by
  rw [hc.peekInlineBlanks_peeked, current_eq_newline_iff, skipInlineBlanks_rest]

/-- No blank lines are counted just if no line break stands behind the blanks. -/
theorem Ready.skipBlankLines_fst (hc : c.Ready) :
    c.skipBlankLines.1 = 0 ↔ afterBreak? (c.here.rest.dropWhile isInlineBlank) = none := by
  rw [← Option.not_isSome_iff_eq_none, ← hc.peekInlineBlanks_newline, Cursor.skipBlankLines]
  dsimp only
  split
  · next hpeeked =>
    split <;> simp [hpeeked]
  · next hpeeked => simp [hpeeked]
  · next ch hne hpeeked => simpa [hpeeked] using hne

/-- In front of a line of content there are no lines to skip. -/
theorem Ready.skipBlankLines_snd (hc : c.Ready) (hcontent : Text.HasContent c.here.rest) :
    c.skipBlankLines.2 = c := by
  rw [Cursor.skipBlankLines]
  dsimp only
  split
  · next hpeeked =>
    rw [hc.peekInlineBlanks_newline, hcontent.afterBreak?] at hpeeked
    cases hpeeked
  · next hpeeked =>
    rw [hc.peekInlineBlanks_peeked, current_eq_none_iff, skipInlineBlanks_rest] at hpeeked
    obtain ⟨ch, more, hdrop, -⟩ := hcontent.exists_dropWhile
    rw [hdrop] at hpeeked
    cases hpeeked
  · exact hc.resetPeek

/-- A cursor at the first line of an entry, or at the end. -/
structure AtEntry (c : Cursor) : Prop extends Starts c where
  content : c.here.rest = [] ∨ Text.HasContent c.here.rest

theorem starts_atStart (text : List Char) : (atStart text).Starts where
  ready := ready_atStart text
  line _ := rfl
  capture := rfl

theorem starts_ofText (source : List Char) : (ofText source).Starts := starts_atStart _

/-- Skipping blank lines leads to an entry. -/
theorem Starts.skipBlankLines (h : c.Starts) :
    c.skipBlankLines.2.AtEntry ∧ ∃ gap, IsGap gap ∧ c.Takes gap c.skipBlankLines.2 ∧
      (c.skipBlankLines.2.here.rest = [] ∨ gap = [] ∨ EndsLine gap) := by
  obtain ⟨hready, hrest⟩ := h.ready.skipBlankLines
  obtain ⟨gap, hgap, hsplit, hcontent⟩ := Text.exists_behindBlankLines c.here.rest
  rw [← hrest] at hsplit hcontent
  have htakes := (c.to_skipBlankLines).takes hready hsplit
  refine ⟨⟨⟨hready, fun hne => ?_, htakes.reads.capture.trans h.capture⟩,
    hcontent.imp_right And.right⟩, gap, hgap, htakes, hcontent.imp_right And.left⟩
  have hcne : c.here.rest ≠ [] := fun hnil => by simp [hnil, hne] at hsplit
  refine (c.to_skipBlankLines.column_eq_one_iff (Nat.le_of_eq (h.line hcne).symm) htakes.reads).2 ?_
  exact (hcontent.resolve_left hne).1.symm.imp_right fun hnil => ⟨hnil, h.line hcne⟩

/-! ### Behind an entry -/

/-- An entry takes a text that is not empty, up to the end of the source or of a line. -/
theorem TakesEntry.takes (h : TakesEntry c entry d) :
    ∃ taken, c.Takes taken d ∧ taken ≠ [] ∧ (d.here.rest = [] ∨ EndsLine taken) := by
  cases h with
  | read _ hspells hend htakes =>
    obtain ⟨ch, more, rfl, -⟩ := hspells.exists_head
    exact ⟨_, htakes, by simp, hend.resumes _⟩
  | junk _ _ hne htakes hresumes => exact ⟨_, htakes, hne, hresumes.imp_right And.left⟩

/-! ### Entries one by one -/

/-- The cursor at the entry behind the next one. -/
def nextEntry (c : Cursor) : Cursor := c.behindEntry.skipBlankLines.2

/-- Whether no blank line stands behind the next entry. -/
def touchesNext (c : Cursor) : Bool := c.behindEntry.skipBlankLines.1 = 0

theorem Settled.endCapture (h : c.Settled) : c.endCapture.2.Settled := by
  cases h with
  | ready hc => exact .ready ⟨hc.ahead_eq, hc.size_eq⟩
  | @arrow c hc harrow => exact .arrow (c := c.endCapture.2) ⟨hc.ahead_eq, hc.size_eq⟩ harrow

/-- Looking for the next entry leaves the cursor settled. -/
theorem Settled.skipToEntryStart (h : c.Settled) (entryStart : Nat) :
    (c.skipToEntryStart entryStart).Settled := by
  unfold Cursor.skipToEntryStart
  split
  · exact h
  · obtain ⟨-, taken, htakes, -⟩ := h.resetPeek_ready.skipLines
    rw [skipLines_resetPeek] at htakes
    exact htakes.ready.settled

/-- Reading an entry leaves the cursor settled. -/
theorem Ready.takeEntry_settled (hc : c.Ready) : c.takeEntry.2.Settled := by
  cases hrun : entryLine c.beginCapture with
  | ok entry d =>
    rw [takeEntry_of_ok hrun]
    exact (Parser.Steady.ready_of_ok hc.beginCapture hrun).settled.endCapture
  | error e k =>
    rw [takeEntry_of_error hrun]
    exact ((Parser.Steady.settled_of_error hc.beginCapture hrun).skipToEntryStart _).endCapture

/-- Behind an entry that is taken the next one is reached over blank lines. -/
theorem Starts.nextEntry (h : c.Starts) (hne : c.here.rest ≠ []) :
    c.nextEntry.AtEntry ∧ ∃ gap, IsGap gap ∧ c.behindEntry.Takes gap c.nextEntry ∧
      (c.nextEntry.here.rest = [] ∨ gap = [] ∨ EndsLine gap) :=
  (h.takesEntry hne).2.skipBlankLines

/-- Each entry leaves less to read. -/
theorem Starts.nextEntry_remaining_lt (h : c.Starts) (hne : c.here.rest ≠ []) :
    c.nextEntry.remaining < c.remaining := by
  obtain ⟨taken, htakes, htaken, -⟩ := (h.takesEntry hne).1.takes
  obtain ⟨-, gap, -, hgap, -⟩ := h.nextEntry hne
  exact Nat.lt_of_le_of_lt (hgap.remaining_le htakes.ready) (htakes.remaining_lt h.ready htaken)

/-- Entries are taken one by one. -/
theorem Starts.takeEntries_eq (h : c.Starts) (hne : c.here.rest ≠ []) :
    c.takeEntries = (c.takeEntry.1, c.touchesNext) :: c.nextEntry.takeEntries := by
  obtain ⟨ch, hch⟩ := Option.ne_none_iff_exists'.1 (mt current_eq_none_iff.1 hne)
  rw [takeEntries]
  split
  · next hnone => rw [hnone] at hch; cases hch
  · next =>
    dsimp only
    rw [Lookahead.plain_skipBlankLines, h.ready.takeEntry_settled.skipBlankLines]
    exact congrArg₂ _ rfl (if_pos (h.nextEntry_remaining_lt hne))

/-- There are no entries at the end of the source. -/
theorem takeEntries_of_nil (hnil : c.here.rest = []) : c.takeEntries = [] := by
  rw [takeEntries]
  split
  · rfl
  · next hch => rw [current_eq_none_iff.2 hnil] at hch; cases hch

/-- The next entry but one is reached over a text. -/
theorem Starts.exists_takes_nextEntry (h : c.Starts) (hne : c.here.rest ≠ []) :
    ∃ text, c.Takes text c.nextEntry := by
  obtain ⟨taken, htaken, -⟩ := (h.takesEntry hne).1.takes
  obtain ⟨-, gap, -, hgap, -⟩ := h.nextEntry hne
  exact ⟨_, htaken.trans hgap⟩

/-- Entry by entry up to the end. -/
@[elab_as_elim]
theorem AtEntry.induction {motive : (c : Cursor) → c.AtEntry → Prop}
    (done : ∀ (c : Cursor) (h : c.AtEntry), c.here.rest = [] → motive c h)
    (entry : ∀ (c : Cursor) (h : c.AtEntry), c.here.rest ≠ [] → ∀ hnext : c.nextEntry.AtEntry,
      motive c.nextEntry hnext → motive c h)
    (h : c.AtEntry) : motive c h := by
  -- each entry leaves less to read
  induction hlength : c.remaining using Nat.strongRecOn generalizing c with
  | ind length ih =>
    subst hlength
    by_cases hne : c.here.rest = []
    · exact done c h hne
    · exact entry c h hne (h.nextEntry hne).1 (ih _ (h.nextEntry_remaining_lt hne) _ rfl)

/-- Every entry has been taken from a text that starts an entry. -/
theorem AtEntry.exists_taken {entry : Entry} (h : c.AtEntry)
    (hentry : entry ∈ c.takeEntries.map Prod.fst) :
    ∃ before d, c.Takes before d ∧ d.AtEntry ∧ d.here.rest ≠ [] ∧ d.takeEntry.1 = entry := by
  induction h using AtEntry.induction with
  | done c h hnil =>
    rw [takeEntries_of_nil hnil] at hentry
    cases hentry
  | entry c h hne hnext ih =>
    rw [h.takeEntries_eq hne, List.map_cons] at hentry
    rcases List.mem_cons.1 hentry with rfl | hmem
    · exact ⟨[], c, .refl h.ready, h, hne, rfl⟩
    · obtain ⟨text, htext⟩ := h.exists_takes_nextEntry hne
      obtain ⟨before, d, htakes, hd⟩ := ih hmem
      exact ⟨_, d, htext.trans htakes, hd⟩

/-- Where the next entry touches, it stands on the next line. -/
theorem Starts.nextEntry_of_touches (h : c.Starts) (hne : c.here.rest ≠ [])
    (htouches : c.touchesNext) (hnext : c.nextEntry.here.rest ≠ []) :
    c.behindEntry.here.rest = c.nextEntry.here.rest := by
  have hready := (h.takesEntry hne).2.ready
  have hnone := hready.skipBlankLines_fst.1 (of_decide_eq_true htouches)
  have hrest := hready.skipBlankLines.2
  change c.nextEntry.here.rest = _ at hrest
  rw [hrest]
  rw [hrest] at hnext
  unfold behindBlankLines at hnext ⊢
  rw [Text.afterBlankLines_of_none hnone] at hnext ⊢
  dsimp only at hnext ⊢
  split
  · next hnil => simp [hnil] at hnext
  · rfl

/-! ### Entries that follow a text -/

section Beside

variable {post : List Char} {n : Nat}

/-- A text starts with a line of content whatever entry follows it. -/
theorem Abuts.startsBlankLine (h : Abuts post n c d) :
    afterBreak? (d.here.rest.dropWhile isInlineBlank) = none ↔
      afterBreak? (c.here.rest.dropWhile isInlineBlank) = none := by
  rw [h.rest, h.startsVisible.dropWhile_append, h.startsVisible.afterBreak?_append,
    Option.map_eq_none_iff]

/-- Two cursors read the same text on, or the second one has reached the entry that follows. -/
theorem Abuts.beside_or (h : Abuts post n c d) :
    Beside post n c d ∨ c.here.rest = [] ∧ post ≠ [] ∧ d.current.any isEntryStart := by
  by_cases hnil : c.here.rest = []
  · by_cases hpost : post = []
    · exact .inl ⟨h, .inl hpost⟩
    · obtain ⟨ch, more, rfl⟩ := List.exists_cons_of_ne_nil hpost
      refine .inr ⟨hnil, hpost, ?_⟩
      rw [show d.current.any isEntryStart = d.here.rest.head?.any isEntryStart from
        Mark.any_char? (by decide), h.rest, hnil]
      exact h.entryStart ch rfl
  · exact .inl (h.beside hnil)

/-- At the end there are no lines to skip. -/
theorem Abuts.skipLines_left (h : Abuts post n c d) (hnil : c.here.rest = []) :
    Abuts post n c.skipLines d := by
  have hrest : c.takeLine.2.here.rest = [] := by
    change c.here.rest.dropWhile _ = []
    rw [hnil]
    rfl
  rw [skipLines_eq h.left, if_pos hrest]
  refine h.of_to c.to_takeLine .refl (h.left.of_to c.to_takeLine rfl) h.right ?_
  rw [hrest, h.rest, hnil]

/-- Lines are skipped alike up to the end of the text or an entry before it. -/
theorem Beside.skipLines (h : Beside post n c d) : Abuts post n c.skipLines d.skipLines := by
  induction hlength : c.remaining using Nat.strongRecOn generalizing c d with
  | ind length ih =>
    subst hlength
    rw [skipLines_eq h.left, skipLines_eq h.right]
    have hline := h.takeLine.2
    by_cases hnil : c.takeLine.2.here.rest = []
    · have hdnil : d.takeLine.2.here.rest = [] := by
        rw [hline.rest, hnil, hline.eq_nil hnil]
        rfl
      rw [if_pos hnil, if_pos hdnil]
      exact hline.toAbuts
    · have hdnil : d.takeLine.2.here.rest ≠ [] := by simp [hline.rest, hnil]
      rw [if_neg hnil, if_neg hdnil]
      obtain ⟨ch, hch⟩ := Option.ne_none_iff_exists'.1 (mt current_eq_none_iff.1 hnil)
      have hnext := hline.toAbuts.next hch (hline.current.trans hch)
      -- behind the last line break only the second cursor finds an entry
      rcases hnext.beside_or with hbeside | ⟨hend, -, hstart⟩
      · rw [hbeside.current]
        split
        · exact hnext
        · exact ih _ (takeLine_next_remaining_lt h.left hnil) hbeside rfl
      · rw [if_pos hstart, current_eq_none_iff.2 hend, if_neg (by simp)]
        exact hnext.skipLines_left hend

/-- Broken entries that fail alike end alike. -/
theorem Abuts.skipToEntryStart {start : Nat} (h : Abuts post n c d)
    (hcolumn : d.column = 1 ↔ c.column = 1)
    (hend : c.here.rest = [] → post ≠ [] → d.column = 1 ∧ start < c.offset) :
    Abuts post n (c.skipToEntryStart start) (d.skipToEntryStart (start + n)) := by
  have hoffset : start + n < d.offset ↔ start < c.offset := by
    rw [h.offset]
    omega
  unfold Cursor.skipToEntryStart
  rcases h.beside_or with hbeside | ⟨hnil, hpost, hstart⟩
  · rw [hbeside.current]
    simp only [hoffset, hcolumn]
    split
    · exact h
    · exact hbeside.skipLines
  · obtain ⟨hone, hlt⟩ := hend hnil hpost
    have hstop : ¬(start < c.offset ∧ c.column = 1 ∧ c.current.any isEntryStart) := by
      simp [current_eq_none_iff.2 hnil]
    rw [if_neg hstop, if_pos ⟨hoffset.2 hlt, hone, hstart⟩]
    exact h.skipLines_left hnil

/-- Cursors at the start of a line that read the same text reach the start of a line together. -/
theorem Beside.column_iff {c' d' : Cursor} (h : Beside post n c d) (hc : c.column = 1)
    (hd : d.column = 1) (hleft : c.To c') (hright : d.To d') (h' : Followed post n c' d') :
    (d'.column = 1 ↔ c'.column = 1) ∧
      (c'.here.rest = [] → post ≠ [] → d'.column = 1 ∧ c.offset < c'.offset) := by
  obtain ⟨taken, hreads⟩ := hleft.reads
  obtain ⟨taken', hreads'⟩ := hright.reads
  obtain rfl : taken = taken' := by
    have hboth : taken ++ d'.here.rest = taken' ++ d'.here.rest := by
      rw [← hreads'.here.1, h.rest, hreads.here.1, h'.rest, List.append_assoc]
    exact List.append_cancel_right hboth
  have hone := hleft.column_eq_one_iff (Nat.le_of_eq hc.symm) hreads
  have hone' := hright.column_eq_one_iff (Nat.le_of_eq hd.symm) hreads'
  refine ⟨?_, fun hnil hpost => ?_⟩
  · rw [hone, hone', hc, hd]
  · have hline := h.within.resolve_left hpost
    rw [hreads.here.1, hnil, List.append_nil] at hline
    refine ⟨hone'.2 (.inl hline), ?_⟩
    have hoffset := hreads.here.2
    have hpos := Mark.byteLength_pos hline.ne_nil
    unfold Cursor.offset
    omega

theorem Beside.beginCapture (h : Beside post n c d) : Beside post n c.beginCapture d.beginCapture :=
  ⟨⟨⟨h.rest, h.offset, h.line, h.entryStart⟩, ⟨h.left.ahead_eq, h.left.size_eq⟩,
    ⟨h.right.ahead_eq, h.right.size_eq⟩⟩, h.within⟩

/-- The annotation of an error moves with the error and with the junk that holds it. -/
theorem diagnosticAt_mapOffsets (e : SyntaxError) (start stop n : Nat) :
    (e.mapOffsets (· + n)).diagnosticAt
        (min (max (e.mapOffsets (· + n)).offset (start + n)) (stop + n)) =
      (e.diagnosticAt (min (max e.offset start) stop)).mapOffsets (· + n) := by
  simp only [SyntaxError.mapOffsets, SyntaxError.diagnosticAt, ErrorCode.diagnostic,
    Diagnostic.mapOffsets, Span.mapOffsets, Span.point, Nat.add_max_add_right,
    Nat.add_min_add_right]

/-- The next entry is the same whatever entry follows the text, unless it is a comment that reaches
the end of the text. -/
theorem Beside.takeEntry (h : Beside post n c d) (hc : c.Starts) (hd : d.Starts)
    (hne : c.here.rest ≠ [])
    (hcomment : (∃ level comment, c.takeEntry.1 = .comment level comment) →
      post = [] ∨ c.behindEntry.here.rest ≠ []) :
    d.takeEntry.1 = c.takeEntry.1.mapOffsets (· + n) ∧
      Abuts post n c.behindEntry d.behindEntry := by
  have hdne : d.here.rest ≠ [] := by simp [h.rest, hne]
  have hleft := (hc.takesEntry hne).2.ready
  have hright := (hd.takesEntry hdne).2.ready
  -- an entry that is read ends alike in both texts; a broken one is skipped to the same line
  rcases Parser.entryLine_failAlike h.beginCapture with
    ⟨⟨entry, c', hrun⟩, -⟩ | ⟨e, k, l, hrun, hrun', hfollowed⟩
  · unfold behindEntry at hcomment hleft hright ⊢
    rw [takeEntry_of_ok hrun] at hcomment hleft ⊢
    obtain ⟨d', hrun', habuts⟩ := Parser.entryLine_ok h.beginCapture hrun hcomment
    rw [takeEntry_of_ok hrun'] at hright ⊢
    exact ⟨rfl, ⟨habuts.rest, habuts.offset, habuts.line, habuts.entryStart⟩, hleft, hright⟩
  · have hkready := (Parser.Steady.settled_of_error hc.ready.beginCapture hrun).resetPeek_ready
    have hlready := (Parser.Steady.settled_of_error hd.ready.beginCapture hrun').resetPeek_ready
    have habuts : Abuts post n k.resetPeek l.resetPeek :=
      ⟨⟨hfollowed.rest, hfollowed.offset, hfollowed.line, hfollowed.entryStart⟩, hkready, hlready⟩
    obtain ⟨hcolumn, hend⟩ := h.beginCapture.column_iff (hc.line hne) (hd.line hdne)
      ((Parser.Forward.to_error hrun).trans k.to_resetPeek)
      ((Parser.Forward.to_error hrun').trans l.to_resetPeek) habuts.toFollowed
    have hskip := habuts.skipToEntryStart hcolumn hend
    obtain ⟨text, hentry, hhere, htakes⟩ := hc.takeEntry_junk hne hrun
    obtain ⟨text', hentry', hhere', htakes'⟩ := hd.takeEntry_junk hdne hrun'
    rw [show d.offset = c.offset + n from h.offset] at hhere'
    have hbehind : Abuts post n c.behindEntry d.behindEntry := by
      refine ⟨⟨?_, ?_, ?_, h.entryStart⟩, hleft, hright⟩
      · rw [← hhere, ← hhere']
        exact hskip.rest
      · unfold Cursor.offset
        rw [← hhere, ← hhere']
        exact hskip.offset
      · rw [← hhere]
        exact hskip.line
    -- the junk is what lies in front of the place where both go on
    obtain rfl : text = text' := by
      have hboth : text ++ d.behindEntry.here.rest = text' ++ d.behindEntry.here.rest := by
        rw [← htakes'.rest, h.rest, htakes.rest, hbehind.rest, List.append_assoc]
      exact List.append_cancel_right hboth
    refine ⟨?_, hbehind⟩
    rw [hentry, hentry', h.offset, hbehind.offset, diagnosticAt_mapOffsets]
    simp only [Entry.mapOffsets, Junk.mapOffsets, List.map_cons, List.map_nil, spanOf_mapOffsets]

/-- Whether an entry touches the next one does not depend on what follows the latter. -/
theorem Abuts.touchesNext (h : Abuts post n c.behindEntry d.behindEntry) :
    d.touchesNext = c.touchesNext := by
  unfold Cursor.touchesNext
  rw [decide_eq_decide, h.left.skipBlankLines_fst, h.right.skipBlankLines_fst, h.startsBlankLine]

/-- A comment that touches nothing is followed by a line break at least. -/
theorem Starts.behindEntry_ne_nil (h : c.Starts) (hne : c.here.rest ≠ [])
    (htouches : c.touchesNext = false) : c.behindEntry.here.rest ≠ [] := by
  intro hnil
  refine of_decide_eq_false htouches ?_
  rw [(h.takesEntry hne).2.ready.skipBlankLines_fst, hnil]
  rfl

/-- The entries of a text are read alike whatever entry follows them, and then come those that
follow. A comment at the end of the text must not touch what follows. -/
theorem Abuts.takeEntries (h : Abuts post n c d) (hc : c.AtEntry) (hd : d.AtEntry)
    (hlast : post = [] ∨ ∀ last ∈ c.takeEntries.getLast?,
      (∃ level comment, last.1 = .comment level comment) → last.2 = false) :
    ∃ c' d', c.Takes c.here.rest c' ∧ Abuts post n c' d' ∧ d'.AtEntry ∧
      d.takeEntries =
        c.takeEntries.map (Prod.map (Entry.mapOffsets (· + n)) id) ++ d'.takeEntries := by
  induction hc using AtEntry.induction generalizing d with
  | done c hc hnil =>
    refine ⟨c, d, by rw [hnil]; exact .refl hc.ready, h, hd, ?_⟩
    rw [takeEntries_of_nil hnil]
    rfl
  | entry c hc hne hcnext ih =>
    have hdne : d.here.rest ≠ [] := by simp [h.rest, hne]
    have hentries := hc.takeEntries_eq hne
    -- only the last entry of the first text can be a comment that reaches its end
    have hcomment : (∃ level comment, c.takeEntry.1 = .comment level comment) →
        post = [] ∨ c.behindEntry.here.rest ≠ [] := by
      refine fun hcomment => hlast.imp_right fun hlast => ?_
      by_cases hnext : c.nextEntry.here.rest = []
      · rw [hentries, takeEntries_of_nil hnext] at hlast
        exact hc.behindEntry_ne_nil hne (hlast _ rfl hcomment)
      · obtain ⟨-, gap, -, hgap, -⟩ := hc.nextEntry hne
        rw [hgap.rest]
        simp [hnext]
    have hlast' : post = [] ∨ ∀ last ∈ c.nextEntry.takeEntries.getLast?,
        (∃ level comment, last.1 = .comment level comment) → last.2 = false := by
      refine hlast.imp_right fun hlast last hmem => hlast last ?_
      rw [hentries, List.getLast?_cons, Option.mem_def.1 hmem]
      rfl
    obtain ⟨hentry, hbehind⟩ := (h.beside hne).takeEntry hc.toStarts hd.toStarts hne hcomment
    obtain ⟨c', d', htakes, hend, hd', heq⟩ :=
      ih hbehind.skipBlankLines (hd.nextEntry hdne).1 hlast'
    obtain ⟨text, htext⟩ := hc.exists_takes_nextEntry hne
    refine ⟨c', d', ?_, hend, hd', ?_⟩
    · rw [htext.rest]
      exact htext.trans htakes
    · rw [hentries, hd.takeEntries_eq hdne, hentry, hbehind.touchesNext]
      exact congrArg _ heq

end Beside

end Cursor

/-- The entries of a text are those from its first line with content on. -/
theorem Resource.read_eq (text : List Char) :
    Resource.read text = ⟨attachComments (Cursor.atStart text).skipBlankLines.2.takeEntries,
      ⟨0, byteLength text⟩⟩ := rfl

/-! ### Comments that touch the next entry -/

/-- A map of entries that moves messages, terms and comments, and keeps junk. -/
structure Entry.Moves (f : Nat → Nat) (g : Entry → Entry) : Prop where
  junk : ∀ junk, ∃ junk', g (.junk junk) = .junk junk'
  message : ∀ message, g (.message message) = .message (message.mapOffsets f)
  term : ∀ message, g (.term message) = .term (message.mapOffsets f)
  comment : ∀ level comment, g (.comment level comment) = .comment level (comment.mapOffsets f)

namespace Entry.Moves

variable {f : Nat → Nat} {g : Entry → Entry} (hg : Entry.Moves f g)
include hg

theorem exists_message {message : Message} (h : g entry = .message message) :
    ∃ message', entry = .message message' := by
  cases entry with
  | message message' => exact ⟨message', rfl⟩
  | term message' => rw [hg.term] at h; cases h
  | comment level comment => rw [hg.comment] at h; cases h
  | junk junk =>
    obtain ⟨junk', hjunk⟩ := hg.junk junk
    rw [hjunk] at h
    cases h

theorem exists_term {message : Message} (h : g entry = .term message) :
    ∃ message', entry = .term message' := by
  cases entry with
  | message message' => rw [hg.message] at h; cases h
  | term message' => exact ⟨message', rfl⟩
  | comment level comment => rw [hg.comment] at h; cases h
  | junk junk =>
    obtain ⟨junk', hjunk⟩ := hg.junk junk
    rw [hjunk] at h
    cases h

theorem exists_comment {level : CommentLevel} {comment : Comment}
    (h : g entry = .comment level comment) : ∃ comment', entry = .comment level comment' := by
  cases entry with
  | message message' => rw [hg.message] at h; cases h
  | term message' => rw [hg.term] at h; cases h
  | comment level' comment' =>
    rw [hg.comment] at h
    cases h
    exact ⟨comment', rfl⟩
  | junk junk =>
    obtain ⟨junk', hjunk⟩ := hg.junk junk
    rw [hjunk] at h
    cases h

end Entry.Moves

/-- Moving the spans of an entry is a way to move it. -/
theorem Entry.moves_mapOffsets (f : Nat → Nat) : Entry.Moves f (Entry.mapOffsets f) :=
  ⟨fun _ => ⟨_, rfl⟩, fun _ => rfl, fun _ => rfl, fun _ _ => rfl⟩

theorem Message.withComment_mapOffsets (f : Nat → Nat) (message : Message) (comment : Comment) :
    (message.mapOffsets f).withComment (comment.mapOffsets f) =
      (message.withComment comment).mapOffsets f := rfl

/-- What is moved touches what it touched before. -/
theorem attachComments_map {f : Nat → Nat} {g : Entry → Entry} (hg : Entry.Moves f g)
    (entries : List (Entry × Bool)) :
    attachComments (entries.map (Prod.map g id)) = (attachComments entries).map g := by
  fun_induction attachComments entries with
  | case1 comment message touches rest ih =>
    simp only [List.map_cons, Prod.map, id, hg.comment, hg.message, attachComments,
      Message.withComment_mapOffsets]
    exact congrArg _ ih
  | case2 comment message touches rest ih =>
    simp only [List.map_cons, Prod.map, id, hg.comment, hg.term, attachComments,
      Message.withComment_mapOffsets]
    exact congrArg _ ih
  | case3 entry touches rest hmessage hterm ih =>
    rw [List.map_cons, List.map_cons, ← ih, Prod.map, id]
    -- the map makes no message and no comment out of anything else, so nothing new is attached
    refine attachComments.eq_3 _ _ _ ?_ ?_
    · intro comment message touches' rest' hrest hentry htouches
      obtain ⟨⟨entry', touches''⟩, more, rfl, hhead, -⟩ := List.map_eq_cons_iff.1 hrest
      obtain ⟨comment', rfl⟩ := hg.exists_comment hentry
      obtain ⟨message', rfl⟩ := hg.exists_message (congrArg Prod.fst hhead)
      exact hmessage _ _ _ _ rfl rfl htouches
    · intro comment message touches' rest' hrest hentry htouches
      obtain ⟨⟨entry', touches''⟩, more, rfl, hhead, -⟩ := List.map_eq_cons_iff.1 hrest
      obtain ⟨comment', rfl⟩ := hg.exists_comment hentry
      obtain ⟨message', rfl⟩ := hg.exists_term (congrArg Prod.fst hhead)
      exact hterm _ _ _ _ rfl rfl htouches
  | case4 => rfl

/-- No comment reaches over the end of a list whose last entry is none that touches the next. -/
theorem attachComments_append {before after : List (Entry × Bool)}
    (h : ∀ comment, before.getLast? ≠ some (.comment .plain comment, true)) :
    attachComments (before ++ after) = attachComments before ++ attachComments after := by
  fun_induction attachComments before with
  | case1 comment message touches rest ih =>
    simp only [List.cons_append, attachComments]
    refine congrArg _ (ih fun comment' hlast => h comment' ?_)
    rw [List.getLast?_cons, List.getLast?_cons, hlast]
    rfl
  | case2 comment message touches rest ih =>
    simp only [List.cons_append, attachComments]
    refine congrArg _ (ih fun comment' hlast => h comment' ?_)
    rw [List.getLast?_cons, List.getLast?_cons, hlast]
    rfl
  | case3 entry touches rest hmessage hterm ih =>
    -- at the end of the first list an entry could only be attached to the second one
    cases rest with
    | nil =>
      refine attachComments.eq_3 _ _ _ ?_ ?_ <;>
      · rintro comment message touches' rest' - rfl rfl
        exact h comment rfl
    | cons next rest =>
      rw [List.cons_append, List.cons_append (a := entry), ← ih fun comment' hlast => h comment' ?_]
      · refine attachComments.eq_3 _ _ _ ?_ ?_
        · intro comment message touches' rest' hrest
          obtain ⟨rfl, -⟩ := List.cons.inj hrest
          exact hmessage _ _ _ _ rfl
        · intro comment message touches' rest' hrest
          obtain ⟨rfl, -⟩ := List.cons.inj hrest
          exact hterm _ _ _ _ rfl
      · rw [List.getLast?_cons, hlast]
        rfl
  | case4 => rfl

/-- A comment at the end of a list stays there. -/
theorem attachComments_getLast? {level : CommentLevel} {comment : Comment} {touches : Bool}
    {entries : List (Entry × Bool)}
    (h : entries.getLast? = some (.comment level comment, touches)) :
    (attachComments entries).getLast? = some (.comment level comment) := by
  fun_induction attachComments entries with
  | case1 comment' message touches' rest ih =>
    rw [List.getLast?_cons, List.getLast?_cons] at h
    -- a comment at the end stands behind the message that took the first one
    cases hrest : rest.getLast? with
    | none => rw [hrest] at h; cases h
    | some last =>
      rw [hrest] at h ih
      rw [List.getLast?_cons, ih h]
      rfl
  | case2 comment' message touches' rest ih =>
    rw [List.getLast?_cons, List.getLast?_cons] at h
    cases hrest : rest.getLast? with
    | none => rw [hrest] at h; cases h
    | some last =>
      rw [hrest] at h ih
      rw [List.getLast?_cons, ih h]
      rfl
  | case3 entry touches' rest hmessage hterm ih =>
    rw [List.getLast?_cons] at h ⊢
    cases hrest : rest.getLast? with
    | none =>
      rw [hrest] at h
      cases h
      rw [List.getLast?_eq_none_iff.1 hrest]
      rfl
    | some last =>
      rw [hrest] at h ih
      rw [ih h]
      rfl
  | case4 => cases h

end Localization
