import Localization.Proofs.Text.Lines
import Localization.Resource.Parser
import Mathlib.Logic.Relation
import Mathlib.Tactic.Common

/-!
# Moves of a cursor

Every move of a cursor is made of three elementary ones: committing a character, committing the
rest of a line, and looking elsewhere. A cursor therefore only ever moves forward, and what it
commits is a piece of the text behind it. Where no lookahead is pending, each longer move is a
function of the text behind the cursor.

## Main definitions

* `Mark.Reads`, `Cursor.Reads` — a place lies behind another, with a text between them
* `Cursor.Step`, `Cursor.To` — an elementary move, and any number of them
* `Cursor.Ready` — no lookahead is pending, and the size counts the text

## Main statements

* `Cursor.To.reads` — moving reads a piece of text
* `Cursor.next_cases` — what committing a character takes
* `Cursor.skipWhile_reads`, `Cursor.Ready.skipBlankLines` — what the longer moves leave
-/

namespace Localization

open Text (IsEnding byteLength afterBreak? behindBlankLines)

/-- The span of a text that starts at an offset. -/
def spanOf (start : Nat) (text : List Char) : Span := ⟨start, start + byteLength text⟩

/-! ### Marks -/

namespace Mark

variable {m n k : Mark}

/-- The second mark lies behind the first, and the text stands between them. -/
def Reads (m : Mark) (taken : List Char) (n : Mark) : Prop :=
  m.rest = taken ++ n.rest ∧ n.offset = m.offset + byteLength taken

theorem Reads.refl (m : Mark) : m.Reads [] m := ⟨rfl, rfl⟩

theorem Reads.trans {first second : List Char} (h : m.Reads first n) (h' : n.Reads second k) :
    m.Reads (first ++ second) k :=
  ⟨by rw [h.1, h'.1, List.append_assoc], by
    rw [h'.2, h.2, Text.byteLength_append, Nat.add_assoc]⟩

theorem byteLength_pos {text : List Char} (h : text ≠ []) : 0 < byteLength text := by
  cases text with
  | nil => exact absurd rfl h
  | cons ch rest => exact Nat.add_pos_left (Char.utf8Size_pos ch) _

/-- Reading on means that fewer characters follow. -/
theorem Reads.offset_lt_iff {taken : List Char} (h : m.Reads taken n) :
    m.offset < n.offset ↔ n.rest.length < m.rest.length := by
  rw [h.1, h.2, List.length_append]
  cases taken with
  | nil => simp
  | cons ch taken =>
    have := byteLength_pos (List.cons_ne_nil ch taken)
    simp only [List.length_cons]
    omega

/-- A mark shows no character just at the end of the source. -/
theorem char?_eq_none_iff : m.char? = none ↔ m.rest = [] := by
  unfold char?
  split <;> simp_all

/-- A mark shows a line feed just where a line break stands, however the break is written. -/
theorem char?_eq_newline_iff : m.char? = some '\n' ↔ (afterBreak? m.rest).isSome := by
  unfold char?
  split
  · next hrest => simp [hrest]
  · next c rest hrest =>
    rw [hrest, Text.afterBreak?_isSome_iff, Text.isLineBreak_iff]
    by_cases hc : c = '\r' <;> simp [hc]

/-- A character other than a line feed stands at a mark exactly if the text starts with it. -/
theorem char?_eq_some_iff {c : Char} (hc : c ≠ '\n') :
    m.char? = some c ↔ isLineBreak c = false ∧ ∃ rest, m.rest = c :: rest := by
  unfold char?
  split
  · next hrest => simp [hrest]
  · next d rest hrest =>
    have hbreak : isLineBreak c = false ↔ c ≠ '\r' := by simp [isLineBreak, hc]
    rw [hrest, hbreak]
    by_cases hd : d = '\r'
    · subst hd
      simp only [if_true, Option.some.injEq, List.cons.injEq]
      constructor
      · intro h
        exact absurd h.symm hc
      · rintro ⟨hne, _, rfl, _⟩
        exact absurd rfl hne
    · simp only [if_neg hd, Option.some.injEq, List.cons.injEq]
      constructor
      · rintro rfl
        exact ⟨hd, rest, rfl, rfl⟩
      · rintro ⟨_, _, h, _⟩
        exact h

/-- A step over a character that is no line break takes that character alone. -/
theorem step_of_cons {c : Char} {rest : List Char} (hc : isLineBreak c = false)
    (h : m.rest = c :: rest) : m.step = ⟨m.offset + c.utf8Size, rest⟩ := by
  unfold step
  split
  · next hrest => simp [h] at hrest
  · next tail hrest =>
    rw [h] at hrest
    obtain ⟨rfl, -⟩ := List.cons.inj hrest
    exact absurd hc (by decide)
  · next d tail hne hrest =>
    rw [h] at hrest
    obtain ⟨rfl, rfl⟩ := List.cons.inj hrest
    rfl

/-- A step over a line break takes the whole break, both characters of a CRLF. -/
theorem step_rest_of_break {rest : List Char} (h : afterBreak? m.rest = some rest) :
    m.step.rest = rest := by
  unfold step
  unfold afterBreak? at h
  split at h <;> simp_all

/-- A step reads what stands between its two ends. -/
theorem step_reads (m : Mark) : ∃ taken, m.Reads taken m.step := by
  unfold step
  split
  · exact ⟨[], Reads.refl m⟩
  · next rest hrest =>
    exact ⟨['\r', '\n'], by simp [hrest], by simp [Char.utf8Size]⟩
  · next c rest hne hrest => exact ⟨[c], by simp [hrest], by simp⟩

/-- Short of the end, a step moves forward. -/
theorem offset_lt_step {c : Char} (h : m.char? = some c) : m.offset < m.step.offset := by
  unfold step
  split
  · next hrest => simp [char?, hrest] at h
  · simp
  · exact Nat.lt_add_of_pos_right (Char.utf8Size_pos _)

theorem skipWhile_of_neg {p : Char → Bool} (h : ∀ c ∈ m.char?, p c = false) :
    m.skipWhile p = m := by
  rw [skipWhile]
  split
  · next c hc => simp [h c hc]
  · rfl

theorem skipWhile_of_pos {p : Char → Bool} {c : Char} (hc : m.char? = some c) (h : p c) :
    m.skipWhile p = m.step.skipWhile p := by
  rw [skipWhile]
  split
  · next d hd =>
    obtain rfl : d = c := by simpa [hd] using hc
    simp [h]
  · next hnone => simp [hnone] at hc

/-- Skipping never moves back. -/
theorem offset_le_skipWhile (p : Char → Bool) (m : Mark) : m.offset ≤ (m.skipWhile p).offset := by
  fun_induction skipWhile p m with
  | case1 m c hc hp ih => exact Nat.le_trans (Nat.le_of_lt (offset_lt_step hc)) ih
  | case2 => exact Nat.le_refl _
  | case3 => exact Nat.le_refl _

/-- A class without line breaks is skipped character by character. -/
theorem skipWhile_reads {p : Char → Bool} (hp : ∀ c, isLineBreak c → p c = false) (m : Mark) :
    m.Reads (m.rest.takeWhile p) (m.skipWhile p) ∧
      (m.skipWhile p).rest = m.rest.dropWhile p := by
  fun_induction skipWhile p m with
  | case1 m c hc hpc ih =>
    -- a line feed may be a carriage return in the text, but the skipping stops at either
    have hne : c ≠ '\n' := by
      rintro rfl
      simp [hp '\n' (by decide)] at hpc
    obtain ⟨hbreak, rest, hrest⟩ := (char?_eq_some_iff hne).1 hc
    rw [step_of_cons hbreak hrest] at ih ⊢
    simp only [hrest, List.takeWhile_cons, hpc, if_true, List.dropWhile_cons]
    refine ⟨⟨?_, ?_⟩, ih.2⟩
    · rw [List.cons_append, ← ih.1.1, hrest]
    · rw [ih.1.2, Text.byteLength_cons, Nat.add_assoc]
  | case2 m c hc hpc =>
    -- where the seen character stops it, the one in the text does too
    have hhead : ∀ d ∈ m.rest.head?, p d = false := by
      intro d hd
      unfold char? at hc
      split at hc
      · cases hc
      · next e rest hrest =>
        obtain rfl : e = d := by simpa [hrest] using hd
        by_cases hr : e = '\r'
        · exact hp e (by simp [hr, isLineBreak])
        · obtain rfl : e = c := by simpa [hr] using hc
          simpa using hpc
    cases hrest : m.rest with
    | nil => exact ⟨⟨by simp [hrest], rfl⟩, by simp⟩
    | cons d rest =>
      have hd := hhead d (by simp [hrest])
      exact ⟨⟨by simp [hd, hrest], by simp [hd]⟩, by simp [hd]⟩
  | case3 m hc =>
    have hrest := char?_eq_none_iff.1 hc
    exact ⟨⟨by simp [hrest], by simp [hrest]⟩, by simp [hrest]⟩

end Mark

/-! ### Elementary moves -/

namespace Cursor

/-- An elementary move. -/
inductive Step : Cursor → Cursor → Prop
  | next (c : Cursor) : Step c c.next
  | line (c : Cursor) : Step c c.takeLine.2
  | look (c : Cursor) (m : Mark) : Step c { c with ahead := m }

/-- Any number of elementary moves. -/
abbrev To : Cursor → Cursor → Prop := Relation.ReflTransGen Step

/-- The second cursor lies behind the first in the same source, with the text between them. -/
structure Reads (c : Cursor) (taken : List Char) (d : Cursor) : Prop where
  here : c.here.Reads taken d.here
  size : d.size = c.size
  source : d.source = c.source
  capture : d.captureStart = c.captureStart

theorem Reads.refl (c : Cursor) : c.Reads [] c := ⟨.refl _, rfl, rfl, rfl⟩

theorem Reads.trans {c d e : Cursor} {first second : List Char} (h : c.Reads first d)
    (h' : d.Reads second e) : c.Reads (first ++ second) e :=
  ⟨h.here.trans h'.here, h'.size.trans h.size, h'.source.trans h.source,
    h'.capture.trans h.capture⟩

/-- At the end of the source there is nothing to take. -/
theorem next_of_none {c : Cursor} (h : c.current = none) : c.next = c := by
  simp [next, h]

theorem next_reads (c : Cursor) : ∃ taken, c.Reads taken c.next := by
  unfold next
  split
  · exact ⟨[], .refl c⟩
  · obtain ⟨taken, h⟩ := c.here.step_reads
    exact ⟨taken, h, rfl, rfl, rfl⟩

/-- The text up to the next line break. -/
def lineText (c : Cursor) : List Char := c.here.rest.takeWhile (!isLineBreak ·)

/-- Taking a line reads just the text that it returns. -/
theorem takeLine_reads (c : Cursor) : c.Reads c.lineText c.takeLine.2 :=
  ⟨⟨(List.takeWhile_append_dropWhile).symm, rfl⟩, rfl, rfl, rfl⟩

/-- An elementary move reads what stands between its two ends; a look reads nothing. -/
theorem Step.reads {c d : Cursor} (h : Step c d) : ∃ taken, c.Reads taken d := by
  cases h with
  | next => exact c.next_reads
  | line => exact ⟨_, c.takeLine_reads⟩
  | look m => exact ⟨[], .refl _, rfl, rfl, rfl⟩

/-- Moving reads a piece of the text. -/
theorem To.reads {c d : Cursor} (h : c.To d) : ∃ taken, c.Reads taken d := by
  induction h with
  | refl => exact ⟨[], .refl c⟩
  | tail _ step ih =>
    obtain ⟨first, hfirst⟩ := ih
    obtain ⟨second, hsecond⟩ := step.reads
    exact ⟨_, hfirst.trans hsecond⟩

/-- No sequence of moves goes back. -/
theorem To.offset_le {c d : Cursor} (h : c.To d) : c.offset ≤ d.offset := by
  obtain ⟨taken, hreads⟩ := h.reads
  exact Nat.le.intro hreads.here.2.symm

theorem to_next (c : Cursor) : c.To c.next := .single (.next c)

theorem to_takeLine (c : Cursor) : c.To c.takeLine.2 := .single (.line c)

theorem to_look (c : Cursor) (m : Mark) : c.To { c with ahead := m } := .single (.look c m)

theorem to_peek (c : Cursor) : c.To c.peek := c.to_look _

theorem to_resetPeek (c : Cursor) : c.To c.resetPeek := c.to_look _

theorem to_peekInlineBlanks (c : Cursor) : c.To c.peekInlineBlanks := c.to_look _

theorem to_advanceTo (target : Nat) (c : Cursor) : c.To (c.advanceTo target) := by
  fun_induction advanceTo target c with
  | case1 => exact .refl
  | case2 c _ _ _ ih => exact c.to_next.trans ih
  | case3 => exact .refl

theorem to_skipToPeek (c : Cursor) : c.To c.skipToPeek :=
  (to_advanceTo _ c).trans (to_resetPeek _)

theorem to_skipWhile (p : Char → Bool) (c : Cursor) : c.To (c.skipWhile p) := by
  fun_induction skipWhile p c with
  | case1 c _ _ _ ih => exact c.to_next.trans ih
  | case2 => exact .refl
  | case3 => exact .refl

theorem takeWhile_snd (p : Char → Bool) (c : Cursor) : (c.takeWhile p).2 = c.skipWhile p := by
  fun_induction skipWhile p c with
  | case1 c ch hc hp ih =>
    rw [takeWhile]
    split
    · next d hd =>
      obtain rfl : d = ch := by simpa [hd] using hc
      simpa [hp] using ih
    · next hnone => simp [hnone] at hc
  | case2 c ch hc hp =>
    rw [takeWhile]
    split
    · next d hd =>
      obtain rfl : d = ch := by simpa [hd] using hc
      simp [hp]
    · next hnone => simp [hnone] at hc
  | case3 c hc =>
    rw [takeWhile]
    split
    · next d hd => simp [hc] at hd
    · rfl

/-- Skipping blank lines is made of elementary moves. -/
theorem to_skipBlankLines (c : Cursor) : c.To c.skipBlankLines.2 := by
  fun_induction skipBlankLines c with
  | case1 c _ _ _ _ n d hcall ih =>
    have hd : c.peekInlineBlanks.skipToPeek.next.To d := by simpa [hcall] using ih
    exact (to_peekInlineBlanks c).trans ((to_skipToPeek _).trans ((to_next _).trans hd))
  | case2 c _ _ _ _ =>
    exact (to_peekInlineBlanks c).trans ((to_skipToPeek _).trans (to_next _))
  | case3 c _ _ => exact (to_peekInlineBlanks c).trans (to_skipToPeek _)
  | case4 c _ _ _ => exact (to_peekInlineBlanks c).trans (to_resetPeek _)

/-- The indent is skipped over the blanks and, where these run into a line break, over the blank
lines and the blanks of the next line with text. -/
theorem skipIndent_eq (c : Cursor) :
    c.skipIndent =
      if c.skipInlineBlanks.current = some '\n' then
        c.skipInlineBlanks.next.skipBlankLines.2.skipInlineBlanks
      else c.skipInlineBlanks := rfl

theorem to_skipIndent (c : Cursor) : c.To c.skipIndent := by
  have hblanks : c.To c.skipInlineBlanks := to_skipWhile isInlineBlank c
  rw [skipIndent_eq]
  split
  · exact hblanks.trans ((to_next _).trans ((to_skipBlankLines _).trans (to_skipWhile _ _)))
  · exact hblanks

/-! ### Cursors without pending lookahead -/

/-- The peek position stands at the committed one, and the size counts the text. -/
structure Ready (c : Cursor) : Prop where
  ahead_eq : c.ahead = c.here
  size_eq : c.size = c.here.offset + byteLength c.here.rest

variable {c d : Cursor}

/-- At the start of a text no lookahead is pending. -/
theorem ready_atStart (text : List Char) : (atStart text).Ready :=
  ⟨rfl, by simp [atStart]⟩

theorem ready_ofText (source : List Char) : (ofText source).Ready := ready_atStart _

/-- The size that the cursor reports stays the end of its source on every move. -/
theorem To.size_eq (h : c.To d) (hc : c.size = c.here.offset + byteLength c.here.rest) :
    d.size = d.here.offset + byteLength d.here.rest := by
  obtain ⟨taken, hreads⟩ := h.reads
  rw [hreads.size, hc, hreads.here.2, hreads.here.1, Text.byteLength_append, Nat.add_assoc]

/-- Wherever moves lead, the cursor is ready if the lookahead stands where the cursor does. -/
theorem Ready.of_to (hc : c.Ready) (h : c.To d) (hd : d.ahead = d.here) : d.Ready :=
  ⟨hd, h.size_eq hc.size_eq⟩

/-- For a cursor without pending lookahead, what remains is the length of its rest. -/
theorem Ready.remaining (hc : c.Ready) : c.remaining = byteLength c.here.rest := by
  simp [Cursor.remaining, hc.size_eq]

theorem Ready.resetPeek (hc : c.Ready) : c.resetPeek = c := by
  have := hc.ahead_eq
  cases c
  simp_all [Cursor.resetPeek]

/-- Taking a character takes the lookahead along. -/
theorem next_ahead (hc : c.ahead = c.here) : c.next.ahead = c.next.here := by
  unfold next
  split
  · exact hc
  · rfl

theorem Ready.next (hc : c.Ready) : c.next.Ready :=
  hc.of_to c.to_next (next_ahead hc.ahead_eq)

/-- Taking a character is one step of the mark at the cursor. -/
theorem next_here {ch : Char} (h : c.current = some ch) : c.next.here = c.here.step := by
  simp [Cursor.next, h]

/-- Taking a character moves forward. -/
theorem offset_lt_next {ch : Char} (h : c.current = some ch) : c.offset < c.next.offset := by
  unfold offset
  rw [next_here h]
  exact Mark.offset_lt_step h

/-- Skipping moves the mark at the cursor, wherever the lookahead stands. -/
theorem skipWhile_here (p : Char → Bool) (c : Cursor) :
    (c.skipWhile p).here = c.here.skipWhile p := by
  fun_induction skipWhile p c with
  | case1 c ch hc hp ih =>
    rw [ih, next_here hc]
    exact (Mark.skipWhile_of_pos hc hp).symm
  | case2 c ch hc hp =>
    refine (Mark.skipWhile_of_neg fun d hd => ?_).symm
    obtain rfl : ch = d := Option.some.inj (hc.symm.trans hd)
    simpa using hp
  | case3 c hc =>
    refine (Mark.skipWhile_of_neg fun d hd => ?_).symm
    exact absurd (hc.symm.trans hd) (by simp)

theorem Ready.skipWhile (hc : c.Ready) (p : Char → Bool) : (c.skipWhile p).Ready := by
  fun_induction Cursor.skipWhile p c with
  | case1 c _ _ _ ih => exact ih hc.next
  | case2 => exact hc
  | case3 => exact hc

/-- Skipping characters that are no line breaks reads the longest such run. -/
theorem skipWhile_reads {p : Char → Bool} (hp : ∀ ch, isLineBreak ch → p ch = false)
    (c : Cursor) : c.Reads (c.here.rest.takeWhile p) (c.skipWhile p) := by
  obtain ⟨taken, hreads⟩ := (to_skipWhile p c).reads
  refine ⟨?_, hreads.size, hreads.source, hreads.capture⟩
  rw [skipWhile_here]
  exact (Mark.skipWhile_reads hp c.here).1

/-- Behind a skip stands the text without its longest run of such characters. -/
theorem skipWhile_rest {p : Char → Bool} (hp : ∀ ch, isLineBreak ch → p ch = false)
    (c : Cursor) : (c.skipWhile p).here.rest = c.here.rest.dropWhile p := by
  rw [skipWhile_here]
  exact (Mark.skipWhile_reads hp c.here).2

theorem skipInlineBlanks_rest (c : Cursor) :
    c.skipInlineBlanks.here.rest = c.here.rest.dropWhile isInlineBlank :=
  skipWhile_rest (fun _ => Text.not_isInlineBlank_of_isLineBreak) c

theorem skipWhile_of_neg {p : Char → Bool} (h : ∀ ch ∈ c.current, p ch = false) :
    c.skipWhile p = c := by
  rw [Cursor.skipWhile]
  split
  · next ch hch => simp [h ch hch]
  · rfl

theorem skipWhile_of_pos {p : Char → Bool} {ch : Char} (hch : c.current = some ch) (h : p ch) :
    c.skipWhile p = c.next.skipWhile p := by
  rw [Cursor.skipWhile]
  split
  · next d hd =>
    obtain rfl : d = ch := Option.some.inj (hd.symm.trans hch)
    simp [h]
  · next hnone => simp [hnone] at hch

/-- A character that is taken discards the lookahead, so resetting it first changes nothing. -/
theorem resetPeek_next {ch : Char} (h : c.current = some ch) : c.resetPeek.next = c.next := by
  have h' : c.resetPeek.current = some ch := h
  rw [Cursor.next, Cursor.next, h, h']
  rfl

/-- Committing up to where a class of characters ends is skipping that class. -/
theorem advanceTo_skipWhile (p : Char → Bool) {target : Nat}
    (htarget : target = (c.here.skipWhile p).offset) :
    (c.advanceTo target).resetPeek = c.resetPeek.skipWhile p := by
  fun_induction advanceTo target c with
  | case1 c hnone =>
    rw [skipWhile_of_neg]
    intro ch hch
    exact absurd (hnone.symm.trans hch) (by simp)
  | case2 c ch hch hlt ih =>
    -- short of the target the skipping has not stopped yet
    have hp : p ch := by
      by_contra hp
      rw [htarget, Mark.skipWhile_of_neg] at hlt
      · exact absurd hlt (Nat.lt_irrefl _)
      · intro d hd
        obtain rfl : ch = d := Option.some.inj (hch.symm.trans hd)
        simpa using hp
    rw [ih (by rw [htarget, next_here hch, Mark.skipWhile_of_pos hch hp]),
      skipWhile_of_pos (c := c.resetPeek) hch hp, resetPeek_next hch]
    rw [show c.next.resetPeek = c.next by simp [Cursor.resetPeek, Cursor.next, hch]]
  | case3 c ch hch hge =>
    rw [skipWhile_of_neg]
    intro d hd
    obtain rfl : ch = d := Option.some.inj (hch.symm.trans hd)
    by_contra hp
    refine hge (htarget ▸ ?_)
    rw [Mark.skipWhile_of_pos hch (by simpa using hp)]
    exact Nat.lt_of_lt_of_le (Mark.offset_lt_step hch) (Mark.offset_le_skipWhile _ _)

/-- Peeking over the blanks and following the lookahead is the same as skipping them. -/
theorem Ready.peekInlineBlanks_skipToPeek (hc : c.Ready) :
    c.peekInlineBlanks.skipToPeek = c.skipInlineBlanks := by
  have hreset : c.peekInlineBlanks.resetPeek = c := hc.resetPeek
  have htarget : c.peekInlineBlanks.ahead.offset =
      (c.peekInlineBlanks.here.skipWhile isInlineBlank).offset := by
    rw [show c.peekInlineBlanks.ahead = c.here.skipWhile isInlineBlank by rw [← hc.ahead_eq]; rfl]
    rfl
  exact (advanceTo_skipWhile isInlineBlank htarget).trans (by rw [hreset]; rfl)

/-- What is seen by peeking over the blanks is what stands behind them. -/
theorem Ready.peekInlineBlanks_peeked (hc : c.Ready) :
    c.peekInlineBlanks.peeked = c.skipInlineBlanks.current := by
  unfold Cursor.peeked Cursor.current Cursor.skipInlineBlanks
  rw [skipWhile_here, ← hc.ahead_eq]
  rfl

/-! ### Progress -/

/-- A move that reads something leaves less to read. -/
theorem Reads.remaining_lt {taken : List Char} (h : c.Reads taken d)
    (hc : c.size = c.here.offset + byteLength c.here.rest) (hne : taken ≠ []) :
    d.remaining < c.remaining := by
  have hpos := Mark.byteLength_pos hne
  have hlength : byteLength c.here.rest = byteLength taken + byteLength d.here.rest := by
    rw [h.here.1, Text.byteLength_append]
  have hoffset := h.here.2
  have hsize := h.size
  unfold remaining
  omega

/-- Less remains exactly if fewer characters do. -/
theorem To.remaining_lt_iff (h : c.To d)
    (hc : c.size = c.here.offset + byteLength c.here.rest) :
    d.remaining < c.remaining ↔ d.here.rest.length < c.here.rest.length := by
  obtain ⟨taken, hreads⟩ := h.reads
  have hrest := congrArg List.length hreads.here.1
  rw [List.length_append] at hrest
  cases taken with
  | nil =>
    have := hreads.here.2
    have := hreads.size
    unfold remaining
    simp_all
  | cons ch taken =>
    have := hreads.remaining_lt hc (by simp)
    simp only [List.length_cons] at hrest
    omega

/-- The cursor shows no character just at the end of its source. -/
theorem current_eq_none_iff : c.current = none ↔ c.here.rest = [] := Mark.char?_eq_none_iff

/-- The cursor shows a line feed just in front of a line break. -/
theorem current_eq_newline_iff :
    c.current = some '\n' ↔ (afterBreak? c.here.rest).isSome := Mark.char?_eq_newline_iff

/-- The cursor shows any other character just in front of that character. -/
theorem current_eq_some_iff {ch : Char} (h : ch ≠ '\n') :
    c.current = some ch ↔ isLineBreak ch = false ∧ ∃ rest, c.here.rest = ch :: rest :=
  Mark.char?_eq_some_iff h

theorem current_of_cons {ch : Char} {rest : List Char} (hbreak : isLineBreak ch = false)
    (h : c.here.rest = ch :: rest) : c.current = some ch := by
  refine (current_eq_some_iff ?_).2 ⟨hbreak, rest, h⟩
  rintro rfl
  exact absurd hbreak (by decide)

theorem next_rest_of_cons {ch : Char} {rest : List Char} (hbreak : isLineBreak ch = false)
    (h : c.here.rest = ch :: rest) : c.next.here.rest = rest := by
  rw [next_here (current_of_cons hbreak h), Mark.step_of_cons hbreak h]

theorem next_reads_of_cons {ch : Char} {rest : List Char} (hbreak : isLineBreak ch = false)
    (h : c.here.rest = ch :: rest) : c.Reads [ch] c.next := by
  obtain ⟨taken, hreads⟩ := c.next_reads
  refine ⟨?_, hreads.size, hreads.source, hreads.capture⟩
  rw [next_here (current_of_cons hbreak h), Mark.step_of_cons hbreak h]
  exact ⟨h, by simp⟩

/-- Taking a line break leaves what stands behind the whole break. -/
theorem next_rest_of_break {rest : List Char} (h : afterBreak? c.here.rest = some rest) :
    c.next.here.rest = rest := by
  rw [next_here (current_eq_newline_iff.2 (by simp [h])), Mark.step_rest_of_break h]

/-- Committing a character takes nothing at the end, a character within a line, or a whole line
break, of which the line and the column take account. -/
theorem next_cases (c : Cursor) :
    c.here.rest = [] ∧ c.next = c ∨
    (∃ ch, isLineBreak ch = false ∧ c.Reads [ch] c.next ∧ c.next.line = c.line ∧
      c.next.column = c.column + 1) ∨
    ∃ ending, IsEnding ending ∧ (ending = ['\r'] → c.next.here.rest.head? ≠ some '\n') ∧
      c.Reads ending c.next ∧ c.next.line = c.line + 1 ∧ c.next.column = 1 := by
  cases hcurrent : c.current with
  | none => exact .inl ⟨current_eq_none_iff.1 hcurrent, next_of_none hcurrent⟩
  | some ch =>
    by_cases hch : ch = '\n'
    · subst hch
      -- the character seen is a line feed: what is taken is one of the three endings
      obtain ⟨rest, hbreak⟩ := Option.isSome_iff_exists.1 (current_eq_newline_iff.1 hcurrent)
      obtain ⟨ending, hending, hwhole, hrest⟩ := Text.afterBreak?_eq_some_iff.1 hbreak
      obtain ⟨taken, hreads⟩ := c.next_reads
      have hsplit := hreads.here.1
      rw [next_rest_of_break hbreak, hrest] at hsplit
      obtain rfl := List.append_cancel_right hsplit
      rw [← next_rest_of_break hbreak] at hwhole
      exact .inr (.inr ⟨ending, hending, hwhole, hreads, by simp [Cursor.next, hcurrent],
        by simp [Cursor.next, hcurrent]⟩)
    · obtain ⟨hbreak, rest, hrest⟩ := (current_eq_some_iff hch).1 hcurrent
      exact .inr (.inl ⟨ch, hbreak, next_reads_of_cons hbreak hrest,
        by simp [Cursor.next, hcurrent, hch], by simp [Cursor.next, hcurrent, hch]⟩)

/-- Taking a character shortens the text that is left. -/
theorem next_rest_length_lt {ch : Char} (h : c.current = some ch) :
    c.next.here.rest.length < c.here.rest.length := next_length_lt h

/-- A class without line breaks is taken as it stands in the text. -/
theorem takeWhile_fst {p : Char → Bool} (hp : ∀ ch, isLineBreak ch → p ch = false)
    (c : Cursor) : (c.takeWhile p).1 = c.here.rest.takeWhile p := by
  fun_induction Cursor.takeWhile p c with
  | case1 c ch hch hpc taken c' hcall ih =>
    have hne : ch ≠ '\n' := by
      rintro rfl
      rw [hp _ (by decide)] at hpc
      cases hpc
    obtain ⟨hbreak, rest, hrest⟩ := (current_eq_some_iff hne).1 hch
    rw [next_rest_of_cons hbreak hrest, hcall] at ih
    rw [hrest, List.takeWhile_cons_of_pos hpc, ← ih]
  | case2 c ch hch hpc =>
    have hskip := skipWhile_rest hp c
    rw [skipWhile_of_neg (by simpa [hch] using hpc)] at hskip
    have hsplit := List.takeWhile_append_dropWhile (p := p) (l := c.here.rest)
    rw [← hskip] at hsplit
    exact (List.append_left_eq_self.1 hsplit).symm
  | case3 c hch =>
    rw [current_eq_none_iff.1 hch]
    rfl

/-! ### Blank lines -/

theorem Ready.skipInlineBlanks (hc : c.Ready) : c.skipInlineBlanks.Ready := hc.skipWhile _

/-- Behind the blank lines the cursor is ready again, and only the blank lines are gone. -/
theorem Ready.skipBlankLines (hc : c.Ready) :
    c.skipBlankLines.2.Ready ∧ c.skipBlankLines.2.here.rest = behindBlankLines c.here.rest := by
  fun_induction Cursor.skipBlankLines c with
  | case1 c p hp next hlt n d hcall ih =>
    -- a blank line: its break is stepped over, and the rest is skipped from there
    have hskip : next = c.skipInlineBlanks.next := by
      rw [← hc.peekInlineBlanks_skipToPeek]
    have hbreak : (afterBreak? (c.here.rest.dropWhile isInlineBlank)).isSome := by
      rw [← skipInlineBlanks_rest, ← current_eq_newline_iff, ← hc.peekInlineBlanks_peeked]
      exact hp
    obtain ⟨rest, hrest⟩ := Option.isSome_iff_exists.1 hbreak
    have hnext : next.here.rest = rest := by
      rw [hskip]
      exact next_rest_of_break (by rw [skipInlineBlanks_rest, hrest])
    have ih := ih (hskip ▸ hc.skipInlineBlanks.next)
    rw [hcall] at ih
    rw [Text.behindBlankLines_of_break hrest, ← hnext]
    exact ih
  | case2 c p hp next hge =>
    have hskip : next = c.skipInlineBlanks.next := by
      rw [← hc.peekInlineBlanks_skipToPeek]
    -- the line break is a step forward, so the run never stops here
    have hmoves : c.To next := hskip ▸ (to_skipWhile _ c).trans (to_next _)
    refine absurd ((hmoves.remaining_lt_iff hc.size_eq).2 ?_) hge
    have hlt := next_rest_length_lt (hc.peekInlineBlanks_peeked.symm.trans hp)
    have hle := (List.dropWhile_suffix (l := c.here.rest) isInlineBlank).length_le
    rw [hskip]
    rw [skipInlineBlanks_rest] at hlt
    omega
  | case3 c p hp =>
    -- only blanks are left in the text: they are taken too
    have hnil : c.here.rest.dropWhile isInlineBlank = [] := by
      rw [← skipInlineBlanks_rest, ← current_eq_none_iff, ← hc.peekInlineBlanks_peeked]
      exact hp
    rw [show p.skipToPeek = c.skipInlineBlanks from hc.peekInlineBlanks_skipToPeek]
    refine ⟨hc.skipInlineBlanks, ?_⟩
    simp [skipInlineBlanks_rest, Text.behindBlankLines, hnil,
      Text.afterBlankLines_of_none
        (show afterBreak? (c.here.rest.dropWhile isInlineBlank) = none by simp [hnil])]
  | case4 c p ch hne hp =>
    -- a character of content: the cursor goes back in front of its indent
    have hcurrent : c.skipInlineBlanks.current = some ch :=
      hc.peekInlineBlanks_peeked.symm.trans hp
    have hreset : p.resetPeek = c := hc.resetPeek
    have hcontent : c.here.rest.dropWhile isInlineBlank ≠ [] := by
      rw [← skipInlineBlanks_rest]
      intro hnil
      simp [current_eq_none_iff.2 hnil] at hcurrent
    have hnone : afterBreak? (c.here.rest.dropWhile isInlineBlank) = none := by
      rw [← skipInlineBlanks_rest, ← Option.not_isSome_iff_eq_none, ← current_eq_newline_iff,
        hcurrent]
      simpa using hne
    rw [hreset]
    refine ⟨hc, ?_⟩
    simp [Text.behindBlankLines, Text.afterBlankLines_of_none hnone, hcontent]

theorem Ready.skipIndent (hc : c.Ready) : c.skipIndent.Ready := by
  rw [skipIndent_eq]
  split
  · exact hc.skipInlineBlanks.next.skipBlankLines.1.skipInlineBlanks
  · exact hc.skipInlineBlanks

end Cursor

end Localization
