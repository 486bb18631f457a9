import Localization.Proofs.Resource.Progress
import Localization.Proofs.Resource.Spelling.Entry
import Localization.Proofs.Text.Slices

/-!
# Entries and what is skipped behind broken ones

Reading goes from the start of a line to the start of another. An entry that breaks the grammar is
cut in front of the next line that can start an entry, and the cut text is the text that has been
read.

## Main definitions

* `Cursor.Starts` — a cursor between entries: at the start of a line, or at the end
* `Cursor.behindEntry` — the cursor behind the next entry
* `Cursor.TakesEntry` — the next entry and what has been read of the text

## Main statements

* `Cursor.Starts.takesEntry` — an entry is taken from the start of a line to the start of another
-/

namespace Localization

open Localization.Parser (entryLine)
open Text (EndsLine Joins byteLength)

instance : Parser.Steady entryLine := by
  unfold entryLine
  infer_instance

/-- What is read with an entry ends a line, unless nothing follows. -/
theorem IsLineEnd.resumes {ending rest : List Char} (h : IsLineEnd ending rest) (text : List Char) :
    rest = [] ∨ EndsLine (text ++ ending) := by
  rcases h with ⟨-, hrest⟩ | hbreak
  · exact .inl hrest
  · obtain ⟨ending', hending, hsplit⟩ := Text.afterBreak?_eq_some hbreak
    obtain rfl := List.append_cancel_right hsplit
    exact .inr (hending.endsLine text)

/-- What is spelled is not junk. -/
theorem SpellsEntry.ne_junk {start : Nat} {text : List Char} {entry : Entry}
    (h : SpellsEntry start text entry rest) {junk : Junk} : entry ≠ .junk junk := by
  rintro rfl
  generalize hjunk : Entry.junk junk = entry at h
  cases h with
  | message => split at hjunk <;> cases hjunk
  | _ => cases hjunk

namespace Cursor

variable {c d : Cursor} {taken : List Char}

theorem not_endsLine_lineText (c : Cursor) : ¬EndsLine c.lineText := by
  rintro ⟨ch, hch, hbreak⟩
  have hmem := List.mem_takeWhile_imp (List.mem_of_getLast? hch)
  simp [hbreak] at hmem

/-! ### Columns -/

theorem Step.column (h : Step c d) (hpos : 1 ≤ c.column) :
    1 ≤ d.column ∧ ∃ taken, c.Reads taken d ∧
      (d.column = 1 ↔ EndsLine taken ∨ taken = [] ∧ c.column = 1) := by
  cases h with
  | look m => exact ⟨hpos, [], ⟨.refl _, rfl, rfl, rfl⟩, by simp [EndsLine]⟩
  | line =>
    refine ⟨Nat.le_trans hpos (Nat.le_add_right _ _), c.lineText, c.takeLine_reads, ?_⟩
    have hcolumn : c.takeLine.2.column = c.column + c.lineText.length := rfl
    -- what is taken here holds no line break, so the column only grows
    have hline := c.not_endsLine_lineText
    rw [hcolumn]
    constructor
    · intro h
      exact .inr ⟨List.length_eq_zero_iff.1 (by omega), by omega⟩
    · rintro (hends | ⟨hnil, hone⟩)
      · exact absurd hends hline
      · rw [hnil, hone]
        rfl
  | next =>
    rcases c.next_cases with ⟨-, heq⟩ | ⟨ch, hbreak, hreads, -, hcolumn⟩ |
        ⟨ending, hending, -, hreads, -, hcolumn⟩
    · rw [heq]
      exact ⟨hpos, [], .refl c, by simp [EndsLine]⟩
    · rw [hcolumn]
      refine ⟨by omega, [ch], hreads, iff_of_false (by omega) ?_⟩
      simp [EndsLine, hbreak]
    · rw [hcolumn]
      exact ⟨Nat.le_refl 1, ending, hreads, iff_of_true rfl (.inl (hending.endsLine []))⟩

theorem To.column (h : c.To d) (hpos : 1 ≤ c.column) :
    1 ≤ d.column ∧ ∃ taken, c.Reads taken d ∧
      (d.column = 1 ↔ EndsLine taken ∨ taken = [] ∧ c.column = 1) := by
  induction h with
  | refl => exact ⟨hpos, [], .refl c, by simp [EndsLine]⟩
  | tail _ step ih =>
    obtain ⟨hmid, first, hfirst, hiff⟩ := ih
    obtain ⟨hlast, second, hsecond, hiff'⟩ := step.column hmid
    refine ⟨hlast, first ++ second, hfirst.trans hsecond, ?_⟩
    rw [hiff', hiff]
    by_cases hnil : second = []
    · subst hnil
      simp [EndsLine]
    · rw [Text.endsLine_append hnil]
      simp [hnil]

/-- A line starts where a text that ends with a line break has been read. -/
theorem To.column_eq_one_iff (h : c.To d) (hpos : 1 ≤ c.column) (hreads : c.Reads taken d) :
    d.column = 1 ↔ EndsLine taken ∨ taken = [] ∧ c.column = 1 := by
  obtain ⟨-, taken', hreads', hiff⟩ := h.column hpos
  obtain rfl : taken = taken' :=
    List.append_cancel_right (hreads.here.1.symm.trans hreads'.here.1)
  exact hiff

/-! ### Whole line breaks -/

theorem Step.reads_whole {c d : Cursor} (h : Step c d) :
    ∃ taken, c.Reads taken d ∧ ¬Joins taken d.here.rest := by
  cases h with
  | look m => exact ⟨[], ⟨.refl _, rfl, rfl, rfl⟩, Text.not_joins_nil⟩
  | line =>
    exact ⟨c.lineText, c.takeLine_reads, Text.not_joins_of_not_endsLine c.not_endsLine_lineText⟩
  | next =>
    rcases c.next_cases with ⟨-, heq⟩ | ⟨ch, hbreak, hreads, -, -⟩ |
        ⟨ending, hending, hwhole, hreads, -, -⟩
    · rw [heq]
      exact ⟨[], .refl c, Text.not_joins_nil⟩
    · exact ⟨[ch], hreads, Text.not_joins_of_not_endsLine (by simp [EndsLine, hbreak])⟩
    · exact ⟨ending, hreads, hending.not_joins hwhole⟩

/-- Moving never stops inside a line break. -/
theorem To.reads_whole {c d : Cursor} (h : c.To d) :
    ∃ taken, c.Reads taken d ∧ ¬Joins taken d.here.rest := by
  induction h with
  | refl => exact ⟨[], .refl c, Text.not_joins_nil⟩
  | tail _ step ih =>
    obtain ⟨first, hfirst, hwhole⟩ := ih
    obtain ⟨second, hsecond, hwhole'⟩ := step.reads_whole
    rw [hsecond.here.1] at hwhole
    exact ⟨first ++ second, hfirst.trans hsecond, Text.not_joins_append hwhole hwhole'⟩

/-! ### Lines that are skipped -/

theorem takeLine_next_remaining_lt (hc : c.Ready) (hne : c.takeLine.2.here.rest ≠ []) :
    c.takeLine.2.next.remaining < c.remaining := by
  have hmove : c.To c.takeLine.2.next := c.to_takeLine.trans (to_next _)
  refine (hmove.remaining_lt_iff hc.size_eq).2 ?_
  obtain ⟨ch, hch⟩ := Option.ne_none_iff_exists'.1 (mt current_eq_none_iff.1 hne)
  have hlt := next_rest_length_lt hch
  have hle := congrArg List.length c.takeLine_reads.here.1
  rw [List.length_append] at hle
  omega

theorem skipLines_eq (hc : c.Ready) :
    c.skipLines =
      if c.takeLine.2.here.rest = [] then c.takeLine.2
      else if c.takeLine.2.next.current.any isEntryStart then c.takeLine.2.next
      else c.takeLine.2.next.skipLines := by
  rw [skipLines]
  dsimp only
  split
  · next hnone => rw [if_pos (current_eq_none_iff.1 hnone)]
  · next ch hch =>
    have hne : c.takeLine.2.here.rest ≠ [] := by
      intro hnil
      rw [current_eq_none_iff.2 hnil] at hch
      cases hch
    rw [if_neg hne, if_pos (takeLine_next_remaining_lt hc hne)]

/-- Behind a line break or at the end a line is complete. -/
theorem takeLine_next (hc : c.Ready) (hne : c.takeLine.2.here.rest ≠ []) :
    ∃ taken, c.Takes taken c.takeLine.2.next ∧ EndsLine taken := by
  obtain ⟨h₁, -, hends⟩ := Parser.takeLine_takes hc
  obtain ⟨rest, hbreak⟩ := Option.isSome_iff_exists.1
    (Text.startsBreak_iff_isSome.1 ((lineEnds_iff.1 hends).resolve_left hne))
  obtain ⟨ending, hending, hrest⟩ := Text.afterBreak?_eq_some hbreak
  exact ⟨_, h₁.trans (h₁.ready.next_takes_break hbreak hrest), hending.endsLine _⟩

/-- Where a line can start an entry, or where the text ends. -/
def Resumes (taken rest : List Char) : Prop :=
  rest = [] ∨ EndsLine taken ∧ ∃ ch ∈ rest.head?, isEntryStart ch

theorem exists_isEntryStart (h : c.current.any isEntryStart) :
    ∃ ch ∈ c.here.rest.head?, isEntryStart ch := by
  rw [show c.current.any isEntryStart = c.here.rest.head?.any isEntryStart from
    Mark.any_char? (by decide)] at h
  obtain ⟨ch, hch, hstart⟩ := (Option.any_eq_true _ _).1 h
  exact ⟨ch, hch, hstart⟩

/-- Lines are skipped up to one that can start an entry. -/
theorem Ready.skipLines (hc : c.Ready) :
    c.To c.skipLines ∧
      ∃ taken, c.Takes taken c.skipLines ∧ Resumes taken c.skipLines.here.rest := by
  induction hn : c.remaining using Nat.strongRecOn generalizing c with
  | ind n ih =>
    subst hn
    rw [skipLines_eq hc]
    split
    · next hnil => exact ⟨c.to_takeLine, _, (Parser.takeLine_takes hc).1, .inl hnil⟩
    · next hne =>
      obtain ⟨taken, h₁, hline⟩ := takeLine_next hc hne
      have hmove := c.to_takeLine.trans (to_next _)
      split
      · next hstart => exact ⟨hmove, taken, h₁, .inr ⟨hline, exists_isEntryStart hstart⟩⟩
      · obtain ⟨hmore, more, h₂, hresumes⟩ :=
          ih _ (takeLine_next_remaining_lt hc hne) h₁.ready rfl
        refine ⟨hmove.trans hmore, taken ++ more, h₁.trans h₂, hresumes.imp_right ?_⟩
        rintro ⟨hends, hstart⟩
        exact ⟨(Text.endsLine_append hends.ne_nil).2 hends, hstart⟩

/-! ### The end of a broken entry -/

theorem skipLines_resetPeek (c : Cursor) : c.resetPeek.skipLines = c.skipLines := by
  rw [skipLines, skipLines]
  rfl

theorem skipToEntryStart_resetPeek (entryStart : Nat) (hc : c.resetPeek.Ready) :
    (c.skipToEntryStart entryStart).resetPeek = c.resetPeek.skipToEntryStart entryStart := by
  unfold Cursor.skipToEntryStart
  by_cases h : entryStart < c.offset ∧ c.column = 1 ∧ c.current.any isEntryStart
  · rw [if_pos h]
    exact (if_pos h).symm
  · rw [if_neg h]
    refine Eq.trans ?_ (if_neg h).symm
    obtain ⟨-, taken, h₁, -⟩ := hc.skipLines
    rw [← skipLines_resetPeek, h₁.ready.resetPeek]

/-- A broken entry is not empty, and it ends where a line can start another one. -/
theorem Takes.skipToEntryStart {e : Cursor} (h : c.Takes taken d) (hmove : c.To d)
    (hcolumn : c.column = 1) (hne : c.here.rest ≠ []) (he : d.skipToEntryStart c.offset = e) :
    c.To e ∧ ∃ text, c.Takes text e ∧ text ≠ [] ∧ Resumes text e.here.rest := by
  unfold Cursor.skipToEntryStart at he
  split at he
  · next hstart =>
    subst he
    -- it stops at once only behind the start of the entry, so something has been taken
    have htaken : taken ≠ [] := by
      rintro rfl
      exact absurd hstart.1 (by rw [h.offset]; simp)
    refine ⟨hmove, taken, h, htaken, .inr ⟨?_, exists_isEntryStart hstart.2.2⟩⟩
    refine ((hmove.column_eq_one_iff (by omega) h.reads).1 hstart.2.1).resolve_right ?_
    exact fun hnil => htaken hnil.1
  · subst he
    obtain ⟨hmore, more, h₁, hresumes⟩ := h.ready.skipLines
    refine ⟨hmove.trans hmore, taken ++ more, h.trans h₁, fun hnil => ?_, hresumes.imp_right ?_⟩
    · obtain ⟨rfl, rfl⟩ := List.append_eq_nil_iff.1 hnil
      -- either the text ends here or a line break has been skipped
      rcases hresumes with hend | ⟨hline, -⟩
      · exact hne (by rw [h.rest, h₁.rest, hend]; rfl)
      · exact hline.ne_nil rfl
    · rintro ⟨hends, hstart⟩
      exact ⟨(Text.endsLine_append hends.ne_nil).2 hends, hstart⟩

/-! ### Entries that are taken -/

/-- A cursor between entries: at the start of a line, or at the end. -/
structure Starts (c : Cursor) : Prop where
  ready : c.Ready
  line : c.here.rest ≠ [] → c.column = 1
  capture : c.captureStart = none

/-- The cursor behind the next entry. -/
def behindEntry (c : Cursor) : Cursor := c.takeEntry.2.resetPeek

/-- The next entry and what is read of the text: an entry and the end of its line, or the raw text
of a broken entry. -/
inductive TakesEntry (c : Cursor) : Entry → Cursor → Prop
  | read {text ending entry k d} : entryLine c.beginCapture = .ok entry k →
      SpellsEntry c.offset text entry (ending ++ d.here.rest) →
      IsLineEnd ending d.here.rest → c.Takes (text ++ ending) d → TakesEntry c entry d
  | junk {text e k d} : entryLine c.beginCapture = .error e k →
      (k.skipToEntryStart c.offset).resetPeek.here = d.here → text ≠ [] → c.Takes text d →
      Resumes text d.here.rest →
      TakesEntry c (.junk ⟨String.ofList text,
        [e.diagnosticAt (min (max e.offset c.offset) d.offset)], spanOf c.offset text⟩) d

theorem takeEntry_of_ok {entry : Entry} (h : entryLine c.beginCapture = .ok entry d) :
    c.takeEntry = (entry, d.endCapture.2) := by
  unfold takeEntry
  rw [h]

theorem takeEntry_of_error {e : SyntaxError} (h : entryLine c.beginCapture = .error e d) :
    c.takeEntry =
      (.junk ⟨String.ofList (d.skipToEntryStart c.offset).captured,
        [e.diagnosticAt (min (max e.offset c.offset) (d.skipToEntryStart c.offset).offset)],
        ⟨c.offset, (d.skipToEntryStart c.offset).offset⟩⟩,
        (d.skipToEntryStart c.offset).endCapture.2) := by
  unfold takeEntry
  rw [h]
  rfl

theorem captured_of_takes (h : c.beginCapture.Takes taken d) : d.captured = taken := by
  have hcapture : d.captureStart = some c.here := h.reads.capture
  have hoffset : d.here.offset - c.here.offset = byteLength taken := by
    have := h.reads.here.2
    change d.here.offset = c.here.offset + byteLength taken at this
    omega
  have hrest : c.here.rest = taken ++ d.here.rest := h.rest
  unfold captured
  rw [hcapture]
  dsimp only
  rw [hoffset, hrest, Text.takeBytes?_append]
  rfl

/-- Reading on under a capture is reading on. -/
theorem Takes.endCapture (hc : c.captureStart = none) (h : c.beginCapture.Takes taken d) :
    c.Takes taken d.endCapture.2 :=
  ⟨⟨h.reads.here, h.reads.size, h.reads.source, hc.symm⟩, ⟨h.ready.ahead_eq, h.ready.size_eq⟩⟩

theorem Ready.beginCapture (hc : c.Ready) : c.beginCapture.Ready := ⟨hc.ahead_eq, hc.size_eq⟩

/-- Behind a text that ends with a line break a cursor is at the start of a line. -/
theorem Starts.of_takes (h : c.Starts) (hne : c.here.rest ≠ []) (hmove : c.beginCapture.To d)
    (htakes : c.beginCapture.Takes taken d) (hline : d.here.rest = [] ∨ EndsLine taken) :
    d.endCapture.2.Starts where
  ready := ⟨htakes.ready.ahead_eq, htakes.ready.size_eq⟩
  capture := rfl
  line hrest :=
    (hmove.column_eq_one_iff (Nat.le_of_eq (h.line hne).symm) htakes.reads).2
      (.inl (hline.resolve_left hrest))

/-- An entry is taken from the start of a line to the start of another. -/
theorem Starts.takesEntry (h : c.Starts) (hne : c.here.rest ≠ []) :
    TakesEntry c c.takeEntry.1 c.behindEntry ∧ c.behindEntry.Starts := by
  unfold behindEntry
  cases hrun : entryLine c.beginCapture with
  | ok entry d =>
    -- an entry that is read takes the line break behind it
    obtain ⟨text, ending, htakes, hspells, hend⟩ :=
      Parser.entryLine_returns h.ready.beginCapture hrun
    have htakes' := htakes.endCapture h.capture
    rw [takeEntry_of_ok hrun, htakes'.ready.resetPeek]
    exact ⟨.read hrun hspells hend htakes',
      h.of_takes hne (Parser.Forward.to_ok hrun) htakes (hend.resumes text)⟩
  | error e k =>
    rw [takeEntry_of_error hrun]
    -- a failed entry is junk: what was read of it and the lines up to the next start
    have hmove : c.beginCapture.To k.resetPeek :=
      (Parser.Forward.to_error hrun).trans k.to_resetPeek
    have hready := (Parser.Steady.settled_of_error h.ready.beginCapture hrun).resetPeek_ready
    obtain ⟨taken, hreads⟩ := hmove.reads
    obtain ⟨hmore, text, htext, hnonempty, hresumes⟩ :=
      Takes.skipToEntryStart ⟨hreads, hready⟩ hmove (h.line hne) hne rfl
    rw [show c.beginCapture.offset = c.offset from rfl,
      ← skipToEntryStart_resetPeek _ hready] at hmore htext hresumes
    have hcaptured : (k.skipToEntryStart c.offset).resetPeek.captured = text :=
      captured_of_takes htext
    have htakes := htext.endCapture h.capture
    have hspan : (⟨c.offset, (k.skipToEntryStart c.offset).offset⟩ : Span) = spanOf c.offset text :=
      htakes.span_eq
    rw [show (k.skipToEntryStart c.offset).captured = text from hcaptured, hspan]
    exact ⟨.junk (d := (k.skipToEntryStart c.offset).resetPeek.endCapture.2) hrun rfl hnonempty
      htakes hresumes, h.of_takes hne hmore htext (hresumes.imp_right And.left)⟩

/-- A broken entry is taken as junk. -/
theorem Starts.takeEntry_junk {e : SyntaxError} {k : Cursor} (h : c.Starts)
    (hne : c.here.rest ≠ []) (hrun : entryLine c.beginCapture = .error e k) :
    ∃ text, c.takeEntry.1 = .junk ⟨String.ofList text,
        [e.diagnosticAt (min (max e.offset c.offset) c.behindEntry.offset)], spanOf c.offset text⟩ ∧
      (k.resetPeek.skipToEntryStart c.offset).here = c.behindEntry.here ∧
      c.Takes text c.behindEntry := by
  have hready := (Parser.Steady.settled_of_error h.ready.beginCapture hrun).resetPeek_ready
  have hentry := (h.takesEntry hne).1
  generalize c.takeEntry.1 = entry, c.behindEntry = d at hentry ⊢
  cases hentry with
  | read hrun' => rw [hrun] at hrun'; cases hrun'
  | junk hrun' hhere _ htakes =>
    rw [hrun] at hrun'
    cases hrun'
    rw [skipToEntryStart_resetPeek _ hready] at hhere
    exact ⟨_, rfl, hhere, htakes⟩

/-- An entry fails where the reading of it stopped, which is inside no line break. -/
theorem exists_stop {e : SyntaxError} {k : Cursor} (hrun : entryLine c.beginCapture = .error e k) :
    ∃ taken, c.here.rest = taken ++ k.here.rest ∧ ¬Joins taken k.here.rest ∧
      e.offset = c.offset + byteLength taken := by
  obtain ⟨taken, hreads, hjoins⟩ := (Parser.Forward.to_error hrun).reads_whole
  exact ⟨taken, hreads.here.1, hjoins, (Parser.Forward.stops _ _ _ hrun).trans hreads.here.2⟩

/-- Junk is what was taken of a text where reading an entry failed. -/
theorem Starts.exists_junk (h : c.Starts) (hne : c.here.rest ≠ []) {junk : Junk}
    (hentry : c.takeEntry.1 = .junk junk) :
    ∃ text e k, entryLine c.beginCapture = .error e k ∧ text ≠ [] ∧ c.Takes text c.behindEntry ∧
      Resumes text c.behindEntry.here.rest ∧ junk = ⟨String.ofList text,
        [e.diagnosticAt (min (max e.offset c.offset) c.behindEntry.offset)],
        spanOf c.offset text⟩ := by
  have htakes := (h.takesEntry hne).1
  rw [hentry] at htakes
  generalize c.behindEntry = d at htakes ⊢
  generalize hjunk : Entry.junk junk = entry at htakes
  cases htakes with
  | read _ hspells => exact absurd hjunk.symm hspells.ne_junk
  | junk hrun _ htext htakes hresumes =>
    cases hjunk
    exact ⟨_, _, _, hrun, htext, htakes, hresumes, rfl⟩

end Cursor

end Localization
