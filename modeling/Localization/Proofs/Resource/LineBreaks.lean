import Localization.Proofs.Resource.Folding

/-!
# Line breaks do not matter

Whether its lines end with a line feed, a carriage return, or the two in that order makes no
difference to what a source says: the fold of a source holds the same entries at corresponding
offsets, and only the raw text of junk shows how the lines end.

## Main definitions

* `Entry.inFold`, `Resource.inFold` — what a tree becomes in the fold of its source

## Main statements

* `Cursor.Folds.takeEntries` — the entries of a source and of its fold
* `Resource.parse_foldBreaks` — reading a source and reading its fold
-/

namespace Localization

open Cursor (held)
open Localization.Parser (entryLine)
open Text (EndsLine Joins afterBreak? byteLength foldBreaks foldOffset)

/-! ### Trees in the fold -/

variable (source : List Char)

/-- The junk at its place in the fold of a source, with its text folded as well. -/
def Junk.inFold (junk : Junk) : Junk :=
  { junk.mapOffsets (foldOffset source) with
    content := String.ofList (foldBreaks junk.content.toList) }

/-- The entry at its place in the fold of a source. -/
def Entry.inFold : Entry → Entry
  | .junk j => .junk (j.inFold source)
  | entry => entry.mapOffsets (foldOffset source)

/-- The resource of a source, at its places in the fold of that source. -/
def Resource.inFold (resource : Resource) : Resource :=
  ⟨resource.body.map (Entry.inFold source), resource.span.mapOffsets (foldOffset source)⟩

theorem Entry.moves_inFold : Entry.Moves (foldOffset source) (Entry.inFold source) :=
  ⟨fun _ => ⟨_, rfl⟩, fun _ => rfl, fun _ => rfl, fun _ _ => rfl⟩

/-- Only junk folds to junk. -/
theorem Entry.exists_junk {entry : Entry} {junk' : Junk} (h : entry.inFold source = .junk junk') :
    ∃ junk, entry = .junk junk := by
  cases entry with
  | junk junk => exact ⟨junk, rfl⟩
  | _ => cases h

/-- An entry that is spelled is no junk. -/
theorem SpellsEntry.inFold {start : Nat} {text rest : List Char} {entry : Entry}
    (h : SpellsEntry start text entry rest) :
    entry.inFold source = entry.mapOffsets (foldOffset source) := by
  cases h with
  | message _ _ _ => split <;> rfl
  | _ => rfl

variable {source : List Char}

/-! ### Comments -/

namespace Parser

theorem takeMarkers_alike {A : Alignment} (n : Nat) :
    Alike A id (takeMarkers n) (takeMarkers n) := by
  induction n with
  | zero => exact fun c d h => Mirrors.pure h rfl
  | succ n ih =>
    intro c d h
    unfold takeMarkers
    refine Mirrors.current_bind h.current
      (Mirrors.ite (fun hmark => ?_) fun _ => Mirrors.pure h rfl)
    refine Mirrors.modify_bind ?_
    exact (ih _ _ (h.next hmark (by decide))).bind fun more c₁ d₁ h₁ => Mirrors.pure h₁ rfl

theorem expectMarkers_alike {A : Alignment} (n : Nat) :
    Alike A id (expectMarkers n) (expectMarkers n) := by
  induction n with
  | zero => exact fun c d h => Mirrors.pure h rfl
  | succ n ih =>
    intro c d h
    unfold expectMarkers
    exact (expectChar_alike (by decide) c d h).bind fun _ c₁ d₁ h₁ => ih c₁ d₁ h₁

/-- Taking a line is mirrored in the folded source. -/
theorem takeLine_mirrors {c d : Cursor} (h : c.Folds source d) :
    Mirrors (.folded source) (fun _ => Cursor.Folds source) id takeLine takeLine c d :=
  ⟨h.takeLine.1, h.takeLine.2⟩

/-- A line of a comment is read alike in the folded source. -/
theorem commentLine_alike : Alike (.folded source) id commentLine commentLine := by
  intro c d h
  unfold commentLine
  refine Mirrors.current_bind h.current ?_
  split
  · exact Mirrors.pure h rfl
  · exact Mirrors.pure h rfl
  · next hblank => exact Mirrors.modify_bind (takeLine_mirrors (h.next hblank (by decide)))
  · exact Mirrors.fail h.toFollowed _ _

theorem commentRound_alike (level : Nat) (before : List Char) :
    Alike (.folded source) (Round.map id id) (commentRound level before)
      (commentRound level (id before)) := by
  intro c d h
  unfold commentRound
  refine (commentLine_alike c d h).bind fun line c₁ d₁ (h₁ : c₁.Folds source d₁) => ?_
  refine Mirrors.ask_bind (h₁.left.isNextLineComment level) ?_
    (Mirrors.ite (fun _ => ?_) fun _ => ?_)
  · rw [h₁.right.isNextLineComment, h₁.rest, Text.startsComment_foldBreaks]
  · refine Mirrors.modify_bind ?_
    exact (expectMarkers_alike level _ _ h₁.next).bind fun _ c₂ d₂ h₂ => Mirrors.pure h₂ rfl
  · exact Mirrors.pure h₁ rfl

/-- A comment is read alike in the folded source, with folded spans. -/
theorem comment_alike :
    Alike (.folded source) (Entry.mapOffsets (foldOffset source)) comment comment := by
  intro c d h
  unfold comment
  refine Mirrors.offset_bind h.toFollowed ?_
  refine (takeMarkers_alike 3 c d h).bind fun level c₁ d₁ h₁ => ?_
  refine (Alike.rounds (commentRound_alike level) [] c₁ d₁ h₁).bind fun content c₂ d₂ h₂ => ?_
  exact Mirrors.spanFrom_bind h₂.toFollowed (Mirrors.pure h₂ rfl)

theorem legacyCommentRound_alike (before : List Char) :
    Alike (.folded source) (Round.map id id) (legacyCommentRound before)
      (legacyCommentRound (id before)) := by
  -- the line is taken alike with and without the space in front of it
  have hline : ∀ c d : Cursor, c.Folds source d →
      Mirrors (.folded source) (fun _ => Cursor.Folds source) (Round.map id id)
        (do
          let text := before ++ (← takeLine)
          if ← ask Cursor.isNextLineLegacyComment then
            modify Cursor.next
            return .again (text ++ ['\n'])
          else return .done text)
        (do
          let text := before ++ (← takeLine)
          if ← ask Cursor.isNextLineLegacyComment then
            modify Cursor.next
            return .again (text ++ ['\n'])
          else return .done text) c d := by
    intro c d h
    refine (takeLine_mirrors h).bind fun line c₁ d₁ h₁ => ?_
    refine Mirrors.ask_bind h₁.left.isNextLineLegacyComment ?_
      (Mirrors.ite (fun _ => ?_) fun _ => Mirrors.pure h₁ rfl)
    · rw [h₁.right.isNextLineLegacyComment, h₁.rest, Text.startsLegacyComment_foldBreaks]
    · exact Mirrors.modify_bind (Mirrors.pure h₁.next rfl)
  intro c d h
  unfold legacyCommentRound
  refine (expectChar_alike (by decide) c d h).bind fun _ c₁ d₁ h₁ => ?_
  refine (expectChar_alike (by decide) c₁ d₁ h₁).bind fun _ c₂ d₂ h₂ => ?_
  refine Mirrors.current_bind h₂.current (Mirrors.ite (fun hblank => ?_) fun _ => hline c₂ d₂ h₂)
  exact Mirrors.modify_bind (hline _ _ (h₂.next hblank (by decide)))

/-- A comment with slashes is read alike in the folded source, with folded spans. -/
theorem legacyComment_alike :
    Alike (.folded source) (Entry.mapOffsets (foldOffset source)) legacyComment legacyComment := by
  intro c d h
  unfold legacyComment
  refine Mirrors.offset_bind h.toFollowed ?_
  refine (Alike.rounds legacyCommentRound_alike [] c d h).bind fun content c₁ d₁ h₁ => ?_
  exact Mirrors.spanFrom_bind h₁.toFollowed (Mirrors.pure h₁ rfl)

/-- An entry and the end of its line are read alike. -/
theorem entryLine_alike :
    Alike (.folded source) (Entry.mapOffsets (foldOffset source)) entryLine entryLine :=
  fun c d h => entryLine_mirrors h (fun _ => comment_alike c d h) fun _ => legacyComment_alike c d h

end Parser

/-! ### Entries one by one -/

namespace Cursor

variable {c d c₀ d₀ : Cursor}

/-- Both sources come to their end together. -/
theorem Folds.rest_eq_nil (h : Folds source c d) : d.here.rest = [] ↔ c.here.rest = [] := by
  rw [h.rest, Text.foldBreaks_eq_nil]

/-- Lines are skipped alike. -/
theorem Folds.skipLines (h : Folds source c d) : Folds source c.skipLines d.skipLines := by
  induction hlength : c.remaining using Nat.strongRecOn generalizing c d with
  | ind length ih =>
    subst hlength
    have hline := h.takeLine.2
    have hnext := hline.next
    rw [skipLines_eq h.left, skipLines_eq h.right, hnext.current]
    simp only [hline.rest_eq_nil]
    split
    · exact hline
    · next hne =>
      split
      · exact hnext
      · exact ih _ (takeLine_next_remaining_lt h.left hne) hnext rfl

/-- Cursors at the start of a line that read on to the same place reach the start of a line
together, and move on together. -/
theorem Folds.column_iff (h : Folds source c₀ d₀) (hc : c₀.column = 1) (hd : d₀.column = 1)
    (hleft : c₀.To c) (hright : d₀.To d) (h' : FoldsAt source c d) :
    (d.column = 1 ↔ c.column = 1) ∧ (d₀.offset < d.offset ↔ c₀.offset < c.offset) := by
  obtain ⟨taken, hreads⟩ := hleft.reads
  obtain ⟨taken', hreads'⟩ := hright.reads
  obtain rfl := h.toFoldsAt.reads h' hreads hreads'
  constructor
  · rw [hleft.column_eq_one_iff (Nat.le_of_eq hc.symm) hreads,
      hright.column_eq_one_iff (Nat.le_of_eq hd.symm) hreads', Text.endsLine_foldBreaks,
      Text.foldBreaks_eq_nil, hc, hd]
  · have hempty := @Text.byteLength_eq_zero_iff (foldBreaks taken)
    rw [Text.foldBreaks_eq_nil, ← Text.byteLength_eq_zero_iff] at hempty
    unfold Cursor.offset
    rw [hreads.here.2, hreads'.here.2]
    omega

/-- Broken entries end alike. -/
theorem Folds.skipToEntryStart (h : Folds source c₀ d₀) (hc : c₀.column = 1) (hd : d₀.column = 1)
    (hleft : c₀.To c) (hright : d₀.To d) (h' : Folds source c d) :
    Folds source (c.skipToEntryStart c₀.offset) (d.skipToEntryStart d₀.offset) := by
  obtain ⟨hcolumn, hoffset⟩ := h.column_iff hc hd hleft hright h'.toFoldsAt
  unfold Cursor.skipToEntryStart
  rw [h'.current]
  simp only [hcolumn, hoffset]
  split
  · exact h'
  · exact h'.skipLines

theorem Folds.beginCapture (h : Folds source c d) : Folds source c.beginCapture d.beginCapture :=
  ⟨h.toFoldsAt.congr rfl rfl, ⟨h.left.ahead_eq, h.left.size_eq⟩,
    ⟨h.right.ahead_eq, h.right.size_eq⟩⟩

/-- The annotation of an error is folded with the error and with the junk that holds it. -/
theorem diagnosticAt_foldOffset (e : SyntaxError) (start stop : Nat) :
    (e.mapOffsets (foldOffset source)).diagnosticAt
        (min (max (foldOffset source e.offset) (foldOffset source start))
          (foldOffset source stop)) =
      (e.diagnosticAt (min (max e.offset start) stop)).mapOffsets (foldOffset source) := by
  rw [← (Text.foldOffset_monotone source).map_max, ← (Text.foldOffset_monotone source).map_min]
  rfl

/-- The next entry is the same in the fold. -/
theorem Folds.takeEntry (h : Folds source c d) (hc : c.Starts) (hd : d.Starts)
    (hne : c.here.rest ≠ []) :
    d.takeEntry.1 = c.takeEntry.1.inFold source ∧ Folds source c.behindEntry d.behindEntry := by
  have hdne : d.here.rest ≠ [] := mt h.rest_eq_nil.1 hne
  have hleft := (hc.takesEntry hne).2.ready
  have hright := (hd.takesEntry hdne).2.ready
  have halike := Parser.entryLine_alike _ _ h.beginCapture
  -- what is read is folded entry by entry; what is not is skipped to the same line
  cases hrun : entryLine c.beginCapture with
  | ok entry c' =>
    obtain ⟨d', hrun', h'⟩ := halike.exists_ok hrun
    obtain ⟨text, ending, -, hspells, -⟩ :=
      Parser.entryLine_returns hc.ready.beginCapture hrun
    unfold behindEntry at hleft hright ⊢
    rw [takeEntry_of_ok hrun] at hleft ⊢
    rw [takeEntry_of_ok hrun'] at hright ⊢
    exact ⟨(hspells.inFold source).symm, h'.toFoldsAt.congr rfl rfl, hleft, hright⟩
  | error e k =>
    obtain ⟨l, hrun', hplace⟩ := halike.exists_error hrun
    have hkready := (Parser.Steady.settled_of_error hc.ready.beginCapture hrun).resetPeek_ready
    have hlready := (Parser.Steady.settled_of_error hd.ready.beginCapture hrun').resetPeek_ready
    have hskip := h.beginCapture.skipToEntryStart (hc.line hne) (hd.line hdne)
      ((Parser.Forward.to_error hrun).trans k.to_resetPeek)
      ((Parser.Forward.to_error hrun').trans l.to_resetPeek)
      ⟨hplace.congr rfl rfl, hkready, hlready⟩
    obtain ⟨text, hentry, hhere, htakes⟩ := hc.takeEntry_junk hne hrun
    obtain ⟨text', hentry', hhere', htakes'⟩ := hd.takeEntry_junk hdne hrun'
    have hbehind : Folds source c.behindEntry d.behindEntry :=
      ⟨hskip.toFoldsAt.congr hhere.symm hhere'.symm, hleft, hright⟩
    refine ⟨?_, hbehind⟩
    -- the junk of the fold is the fold of the junk
    obtain rfl := h.toFoldsAt.reads hbehind.toFoldsAt htakes.reads htakes'.reads
    rw [hentry, hentry', ← htakes.span_eq, ← htakes'.span_eq, h.offset, hbehind.offset]
    simp only [Entry.inFold, Junk.inFold, Junk.mapOffsets, String.toList_ofList, List.map_cons,
      List.map_nil, ← diagnosticAt_foldOffset]
    rfl

/-- Whether an entry touches the next one does not depend on how line breaks are written. -/
theorem Folds.touchesNext (h : Folds source c.behindEntry d.behindEntry) :
    d.touchesNext = c.touchesNext := by
  unfold Cursor.touchesNext
  rw [decide_eq_decide, h.left.skipBlankLines_fst, h.right.skipBlankLines_fst, h.rest,
    Text.dropWhile_isInlineBlank_foldBreaks, Text.afterBreak?_foldBreaks, Option.map_eq_none_iff]

/-- A source and its fold hold the same entries, and the same of them touch. -/
theorem Folds.takeEntries (h : Folds source c d) (hc : c.AtEntry) (hd : d.AtEntry) :
    d.takeEntries = c.takeEntries.map (Prod.map (Entry.inFold source) id) := by
  induction hc using AtEntry.induction generalizing d with
  | done c hc hnil =>
    rw [takeEntries_of_nil hnil, takeEntries_of_nil (h.rest_eq_nil.2 hnil)]
    rfl
  | entry c hc hne hnext ih =>
    have hdne : d.here.rest ≠ [] := mt h.rest_eq_nil.1 hne
    obtain ⟨hentry, hbehind⟩ := h.takeEntry hc.toStarts hd.toStarts hne
    rw [hc.takeEntries_eq hne, hd.takeEntries_eq hdne, hentry, hbehind.touchesNext]
    exact congrArg _ (ih hbehind.skipBlankLines (hd.nextEntry hdne).1)

/-! ### The first message or term -/

/-- At the end there is no entry, which is reported as empty junk. -/
theorem takeEntry_of_nil (hc : c.Ready) (hnil : c.here.rest = []) :
    c.takeEntry.1 = .junk ⟨"",
      [(SyntaxError.mk .expectedEntry [] c.offset).diagnosticAt c.offset], .point c.offset⟩ := by
  have hready : c.beginCapture.Ready := ⟨hc.ahead_eq, hc.size_eq⟩
  have hnone : c.beginCapture.current = none := current_eq_none_iff.2 hnil
  have hrun : entryLine c.beginCapture = .error ⟨.expectedEntry, [], c.offset⟩ c.beginCapture := by
    refine Parser.entry_error ?_
    unfold Parser.entry
    rw [Parser.current_bind, hnone]
    rfl
  have hline : c.beginCapture.lineText = [] := by
    unfold lineText
    rw [show c.beginCapture.here.rest = [] from hnil]
    rfl
  have htakes : c.beginCapture.Takes [] c.beginCapture.takeLine.2 :=
    ⟨hline ▸ c.beginCapture.takeLine_reads, hready.of_to c.beginCapture.to_takeLine rfl⟩
  have hskip : c.beginCapture.skipToEntryStart c.offset = c.beginCapture.takeLine.2 := by
    unfold Cursor.skipToEntryStart
    rw [if_neg (fun hlt => Nat.lt_irrefl _ hlt.1), skipLines_eq hready,
      if_pos (htakes.rest_eq hnil)]
  have hoffset : c.beginCapture.takeLine.2.offset = c.offset := htakes.offset
  rw [takeEntry_of_error hrun, hskip, captured_of_takes htakes, hoffset, Nat.max_self, Nat.min_self]
  rfl

/-- At the end of both sources, the entry read is the same. -/
theorem Folds.takeEntry_of_nil (h : Folds source c d) (hnil : c.here.rest = []) :
    d.takeEntry.1 = c.takeEntry.1.inFold source := by
  rw [Cursor.takeEntry_of_nil h.left hnil, Cursor.takeEntry_of_nil h.right (h.rest_eq_nil.2 hnil),
    h.offset]
  rfl

end Cursor

namespace Entry

variable {c : Cursor}

/-- The first message or term is read behind the entries that start with a marker, unless one of
these is junk. -/
theorem first_eq (c : Cursor) :
    first c =
      match c.current, c.takeEntry.1 with
      | some '#', .junk j => .junk j
      | some '#', _ =>
        if c.takeEntry.2.skipBlankLines.2.remaining < c.remaining then
          first c.takeEntry.2.skipBlankLines.2
        else c.takeEntry.1
      | _, _ => c.takeEntry.1 :=
  first.eq_def c

/-- An entry that starts with no marker is the first message or term, whatever it is. -/
theorem first_of_ne (h : c.current ≠ some '#') : first c = c.takeEntry.1 := by
  rw [first_eq]
  split
  · next hcurrent _ => exact absurd hcurrent h
  · next hcurrent _ => exact absurd hcurrent h
  · rfl

/-- Junk is returned as it is. -/
theorem first_of_junk {junk : Junk} (h : c.takeEntry.1 = .junk junk) : first c = .junk junk := by
  rw [first_eq, h]
  split
  · next hjunk => exact hjunk.symm
  · next hjunk => exact absurd rfl (hjunk junk)
  · rfl

/-- Comments are passed over. -/
theorem first_of_comment (h : c.Starts) (hcurrent : c.current = some '#')
    (hjunk : ∀ junk, c.takeEntry.1 ≠ .junk junk) : first c = first c.nextEntry := by
  have hne : c.here.rest ≠ [] := by
    rw [Ne, ← Cursor.current_eq_none_iff, hcurrent]
    simp
  rw [first_eq, hcurrent, h.ready.takeEntry_settled.skipBlankLines]
  split
  · next hentry => exact absurd hentry (hjunk _)
  · exact if_pos (h.nextEntry_remaining_lt hne)
  · next hmark _ => exact (hmark rfl).elim

end Entry

namespace Cursor

/-- The first message or term is the same in the fold. -/
theorem Folds.first (h : Folds source c d) (hc : c.AtEntry) (hd : d.AtEntry) :
    Entry.first d = (Entry.first c).inFold source := by
  induction hc using AtEntry.induction generalizing d with
  | done c hc hnil =>
    have hhash : c.current ≠ some '#' := by simp [current_eq_none_iff.2 hnil]
    rw [Entry.first_of_ne hhash, Entry.first_of_ne (h.current ▸ hhash), h.takeEntry_of_nil hnil]
  | entry c hc hne hnext ih =>
    have hdne : d.here.rest ≠ [] := mt h.rest_eq_nil.1 hne
    obtain ⟨hentry, hbehind⟩ := h.takeEntry hc.toStarts hd.toStarts hne
    -- only comments are passed over
    by_cases hhash : c.current = some '#'
    · have hhash' : d.current = some '#' := h.current.trans hhash
      by_cases hjunk : ∃ junk, c.takeEntry.1 = .junk junk
      · obtain ⟨junk, hjunk⟩ := hjunk
        rw [hjunk] at hentry
        rw [Entry.first_of_junk hjunk, Entry.first_of_junk hentry]
        rfl
      · rw [not_exists] at hjunk
        rw [Entry.first_of_comment hc.toStarts hhash hjunk,
          Entry.first_of_comment hd.toStarts hhash' fun junk hjunk' => ?_]
        · exact ih hbehind.skipBlankLines (hd.nextEntry hdne).1
        · rw [hentry] at hjunk'
          exact (Entry.exists_junk source hjunk').elim hjunk
    · rw [Entry.first_of_ne hhash, Entry.first_of_ne (h.current ▸ hhash), hentry]

/-- At the start, a source and its fold correspond. -/
theorem folds_atStart (source : List Char) :
    Folds source (atStart source) (atStart (foldBreaks source)) :=
  ⟨⟨⟨[], rfl, Text.not_joins_nil, rfl, rfl⟩, rfl⟩, ready_atStart _, ready_atStart _⟩

end Cursor

/-- The span of a source, in its fold. -/
theorem Text.foldOffset_byteLength (source : List Char) :
    foldOffset source (byteLength source) = byteLength (foldBreaks source) := by
  have hend := foldOffset_append source []
  rwa [List.append_nil] at hend

/-- The entries of the folded source are the folded entries. -/
theorem Resource.read_foldBreaks (source : List Char) :
    read (foldBreaks source) = (read source).inFold source := by
  have hfolds := (Cursor.folds_atStart source).skipBlankLines
  have hentries := hfolds.takeEntries (Cursor.starts_atStart source).skipBlankLines.1
    (Cursor.starts_atStart _).skipBlankLines.1
  unfold Resource.inFold
  rw [read_eq, read_eq, hentries, attachComments_map (Entry.moves_inFold source), Span.mapOffsets,
    Text.foldOffset_byteLength, show foldOffset source 0 = 0 from Text.foldOffset_append [] source]

/-- The first entry of the folded source is the folded first entry. -/
theorem Entry.read_foldBreaks (source : List Char) :
    read (foldBreaks source) = (read source).inFold source :=
  (Cursor.folds_atStart source).skipBlankLines.first (Cursor.starts_atStart source).skipBlankLines.1
    (Cursor.starts_atStart _).skipBlankLines.1

/-- How its lines end makes no difference to what a source says. With a line feed for each line
break that is held of it, a source has the same entries at corresponding offsets, and so has the
reading of its first message or term. -/
theorem Resource.parse_foldBreaks (source : String) :
    parse (String.ofList (foldBreaks (held source.toList))) =
        (parse source).inFold (held source.toList) ∧
      Entry.parse (String.ofList (foldBreaks (held source.toList))) =
        (Entry.parse source).inFold (held source.toList) := by
  -- a fold is no longer than the text, so it fits as well
  have hfits : Cursor.Fits (foldBreaks (held source.toList)) :=
    (Text.byteLength_foldBreaks_le _).trans (Cursor.fits_held _)
  unfold parse Entry.parse
  rw [String.toList_ofList, ofText_of_fits hfits, Entry.ofText_of_fits hfits]
  exact ⟨read_foldBreaks _, Entry.read_foldBreaks _⟩

end Localization
