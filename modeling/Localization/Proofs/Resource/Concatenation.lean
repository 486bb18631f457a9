import Localization.Proofs.Resource.Locality
import Localization.Proofs.Resource.Spelling.Lines

/-!
# Texts that follow one another

A text of complete lines gives the same entries whatever entry follows it, unless it ends with a
comment that the next line goes on with or touches. No entry, however it breaks off, takes a later
line with it that can start an entry.

## Main definitions

* `Text.EndsBlankLine` — a text whose last line is blank

## Main statements

* `Resource.body_append` — the entries of two texts, one after the other
-/

namespace Localization

open Text (EndsLine HasContent IsBlanks IsEnding IsGap afterBreak? byteLength isVisible)

variable {start : Nat} {text rest before blanks ending : List Char} {entry : Entry}

/-! ### Blank lines at the end -/

namespace Text

/-- The last line of the text ends with a line break and has no visible characters. -/
def EndsBlankLine (text : List Char) : Prop :=
  ∃ before blanks ending, text = before ++ (blanks ++ ending) ∧ (before = [] ∨ EndsLine before) ∧
    IsBlanks blanks ∧ IsEnding ending ∧
    (before.getLast? = some '\r' → (blanks ++ ending).head? ≠ some '\n')

theorem EndsBlankLine.endsLine (h : EndsBlankLine text) : EndsLine text := by
  obtain ⟨before, blanks, ending, rfl, -, -, hending, -⟩ := h
  rw [← List.append_assoc]
  exact hending.endsLine _

/-- In a gap that ends with a line break, a line break stands behind the blanks at the start. -/
theorem IsGap.afterBreak?_ne_none (h : IsGap text) (hline : EndsLine text) :
    afterBreak? (text.dropWhile isInlineBlank) ≠ none := by
  have hdrop := hline.dropWhile fun ch => not_isInlineBlank_of_isLineBreak
  obtain ⟨ch, more, heq⟩ := List.exists_cons_of_ne_nil hdrop.ne_nil
  have hgap := h ch ((List.dropWhile_suffix isInlineBlank).mem
    (by rw [heq]; exact List.mem_cons_self))
  have hblank : isInlineBlank ch = false := by
    have hhead := List.head?_dropWhile_not isInlineBlank text
    rw [heq] at hhead
    simpa using hhead
  rw [heq, Option.ne_none_iff_isSome, afterBreak?_isSome_iff]
  exact (isVisible_eq_false_iff.1 hgap).resolve_left (by simp [hblank])

/-- A text in front of a line of content does not take the blank line at the end away. -/
theorem EndsBlankLine.of_append (h : EndsBlankLine (text ++ rest)) (hcontent : HasContent rest) :
    EndsBlankLine rest := by
  obtain ⟨before, blanks, ending, heq, hbefore, hblanks, hending, hfeed⟩ := h
  rcases List.append_eq_append_iff.1 heq with ⟨within, rfl, rfl⟩ | ⟨more, -, hmore⟩
  · have hwithin : within ≠ [] := by
      rintro rfl
      obtain ⟨blanks', ch, more, -, hch, hline⟩ := hcontent
      have hmem : ch ∈ blanks ++ ending := by
        rw [List.nil_append] at hline
        simp [hline]
      rw [isGap_append.2 ⟨hblanks.isGap, hending.isGap⟩ ch hmem] at hch
      cases hch
    refine ⟨within, blanks, ending, rfl, .inr ?_, hblanks, hending, fun hlast => hfeed ?_⟩
    · exact (endsLine_append hwithin).1 (hbefore.resolve_left (by simp [hwithin]))
    · rw [List.getLast?_append_of_ne_nil _ hwithin, hlast]
  · obtain ⟨blanks', ch, more', -, hch, rfl⟩ := hcontent
    have hmem : ch ∈ blanks ++ ending := by simp [hmore]
    rw [isGap_append.2 ⟨hblanks.isGap, hending.isGap⟩ ch hmem] at hch
    cases hch

/-- A line break at the end of a text is the one behind the blanks of the last line. -/
theorem eq_of_append_ending {ending' : List Char} (hending : IsEnding ending)
    (hending' : IsEnding ending') (hblanks : IsBlanks blanks) (hline : ¬EndsLine text)
    (hfeed : before.getLast? = some '\r' → (blanks ++ ending').head? ≠ some '\n')
    (h : text ++ ending = before ++ (blanks ++ ending')) : text = before ++ blanks := by
  rw [← List.append_assoc] at h
  have hlast := congrArg List.getLast? h
  rcases hending with rfl | rfl | rfl <;> rcases hending' with rfl | rfl | rfl
  case inl.inl | inr.inl.inr.inl | inr.inr.inr.inr => exact (List.append_inj' h rfl).1
  case inl.inr.inl | inr.inl.inl | inr.inl.inr.inr | inr.inr.inr.inl => simp at hlast
  case inl.inr.inr =>
    -- the text would end with the carriage return of the line break
    have htext : text ++ ['\n'] = (before ++ blanks ++ ['\r']) ++ ['\n'] := by simpa using h
    rw [(List.append_inj' htext rfl).1] at hline
    exact absurd ⟨'\r', by simp, rfl⟩ hline
  case inr.inr.inl =>
    have htext : (text ++ ['\r']) ++ ['\n'] = (before ++ blanks) ++ ['\n'] := by simpa using h
    have hreturn := congrArg List.getLast? (List.append_inj' htext rfl).1
    cases blanks using List.reverseRecOn with
    | nil => exact absurd rfl (hfeed (by simpa using hreturn.symm))
    | append_singleton blanks last =>
      obtain rfl : '\r' = last := by simpa using hreturn
      exact absurd (hblanks '\r' (by simp)) (by decide)

end Text

/-! ### The last entry -/

namespace Cursor

variable {c d : Cursor}

/-- A comment at the end of a text does not touch what follows a blank line. -/
theorem AtEntry.touchesNext_of_endsBlankLine {level : CommentLevel} {comment : Comment}
    (h : c.AtEntry) (hne : c.here.rest ≠ []) (hblank : Text.EndsBlankLine c.here.rest)
    (hend : c.nextEntry.here.rest = []) (hcomment : c.takeEntry.1 = .comment level comment) :
    c.touchesNext = false := by
  obtain ⟨hentry, hstarts⟩ := h.takesEntry hne
  obtain ⟨-, gap, hgap, hgapTakes, -⟩ := h.nextEntry hne
  have hrest := hgapTakes.rest
  rw [hend, List.append_nil] at hrest
  by_contra htouches
  rw [Bool.not_eq_false] at htouches
  have hnone := hstarts.ready.skipBlankLines_fst.1 (of_decide_eq_true htouches)
  rw [hcomment] at hentry
  generalize hplain : Entry.comment level comment = entry at hentry
  cases hentry with
  | junk => cases hplain
  | @read text ending _ _ _ _ hspells hending htakes =>
    subst hplain
    have htext := htakes.rest
    -- what is behind the comment are blanks only, and a line break ends the text
    have hnil : c.behindEntry.here.rest = [] := by
      rcases (htext ▸ hblank.endsLine).of_append with hnil | hends
      · exact hnil
      · rw [hrest] at hends hnone
        exact absurd hnone (hgap.afterBreak?_ne_none hends)
    rw [hnil, List.append_nil] at htext
    have hline : ¬EndsLine text := hspells.not_endsLine
    have hbreak : IsEnding ending := hending.isEnding fun hending => by
      rw [htext, hending, List.append_nil] at hblank
      exact absurd hblank.endsLine hline
    obtain ⟨before, blanks, ending', heq, hbefore, hblanks, hending', hfeed⟩ := hblank
    obtain rfl : text = before ++ blanks :=
      Text.eq_of_append_ending hbreak hending' hblanks hline hfeed (htext.symm.trans heq)
    rcases hbefore with rfl | hbefore
    · obtain ⟨ch, more, hhead, hch⟩ := hspells.exists_head
      have hblank := hblanks ch (by rw [← List.nil_append blanks, hhead]; exact List.mem_cons_self)
      have hvisible := isVisible_of_isEntryStart hch
      rw [Text.not_isVisible_of_isInlineBlank hblank] at hvisible
      cases hvisible
    · exact hspells.not_endsLine_of_append hblanks rfl hbefore

/-- A comment at the end of a text does not touch what follows a blank line. -/
theorem AtEntry.getLast?_touches (h : c.AtEntry)
    (hblank : c.here.rest = [] ∨ Text.EndsBlankLine c.here.rest) :
    ∀ last ∈ c.takeEntries.getLast?, (∃ level comment, last.1 = .comment level comment) →
      last.2 = false := by
  induction h using AtEntry.induction with
  | done c h hnil =>
    rw [takeEntries_of_nil hnil]
    intro last hlast
    cases hlast
  | entry c h hne hnext ih =>
    have hblank := hblank.resolve_left hne
    rw [h.takeEntries_eq hne]
    -- only the last entry stands in front of the blank line
    by_cases hend : c.nextEntry.here.rest = []
    · rw [takeEntries_of_nil hend]
      rintro last hlast ⟨level, comment, hcomment⟩
      obtain rfl : (c.takeEntry.1, c.touchesNext) = last := by simpa using hlast
      exact h.touchesNext_of_endsBlankLine hne hblank hend hcomment
    · obtain ⟨text, htext⟩ := h.exists_takes_nextEntry hne
      rw [htext.rest] at hblank
      have hlast := ih (.inr (hblank.of_append (hnext.content.resolve_left hend)))
      rw [hnext.takeEntries_eq hend] at hlast ⊢
      exact hlast

end Cursor

/-! ### Two texts -/

namespace Resource

/-- Where two texts meet, the second one is read as it is read on its own. -/
theorem abuts_atStart (first second : List Char) (hline : first = [] ∨ EndsLine first)
    (hstart : ∀ ch ∈ second.head?, isEntryStart ch) :
    Cursor.Abuts second 0 (Cursor.atStart first) (Cursor.atStart (first ++ second)) :=
  ⟨⟨rfl, rfl, .inr hline, hstart⟩, Cursor.ready_atStart _, Cursor.ready_atStart _⟩

/-- No comment at the end of the first text reaches over its end. -/
theorem getLast?_touches (source : List Char)
    (hlast : (∀ level comment, (read source).body.getLast? ≠ some (.comment level comment)) ∨
      Text.EndsBlankLine source) :
    ∀ last ∈ (Cursor.atStart source).skipBlankLines.2.takeEntries.getLast?,
      (∃ level comment, last.1 = .comment level comment) → last.2 = false := by
  rcases hlast with hnone | hblank
  · rintro ⟨entry, touches⟩ hmem ⟨level, comment, rfl⟩
    exact absurd (attachComments_getLast? hmem) (hnone level comment)
  · obtain ⟨hentry, gap, -, htakes, -⟩ := (Cursor.starts_atStart source).skipBlankLines
    refine hentry.getLast?_touches (hentry.content.imp_right fun hcontent => ?_)
    rw [show source = _ from htakes.rest] at hblank
    exact hblank.of_append hcontent

theorem read_append (first second : List Char) (hline : first = [] ∨ EndsLine first)
    (hstart : ∃ ch ∈ second.head?, isEntryStart ch)
    (hlast : (∀ level comment, (read first).body.getLast? ≠ some (.comment level comment)) ∨
      Text.EndsBlankLine first) :
    (read (first ++ second)).body =
      (read first).body ++ (read second).body.map
        (Entry.mapOffsets (· + byteLength first)) := by
  obtain ⟨ch, hch, hstart⟩ := hstart
  have hcontent : HasContent second := by
    obtain ⟨more, rfl⟩ := List.head?_eq_some_iff.1 hch
    exact Text.hasContent_cons (Cursor.isVisible_of_isEntryStart hstart) more
  have htouches := getLast?_touches first hlast
  have hstart' : ∀ ch ∈ second.head?, isEntryStart ch :=
    fun ch' hch' => Option.mem_unique hch hch' ▸ hstart
  obtain ⟨hentry, gap, -, hgap, -⟩ := (Cursor.starts_atStart first).skipBlankLines
  obtain ⟨c, d, htakes, hmeet, hd, heq⟩ :=
    (abuts_atStart first second hline hstart').skipBlankLines.takeEntries hentry
      (Cursor.starts_atStart _).skipBlankLines.1 (.inr htouches)
  -- the second cursor goes on as a cursor in front of the second text does
  have hnil : c.here.rest = [] := List.self_eq_append_right.1 htakes.rest
  have htail : Cursor.Abuts [] (byteLength first) (Cursor.atStart second) d := by
    refine ⟨⟨?_, ?_, .inl rfl, fun _ h => by simp at h⟩, Cursor.ready_atStart _, hmeet.right⟩
    · rw [hmeet.rest, hnil, List.nil_append, List.append_nil]
      rfl
    · have hoffset := (hgap.trans htakes).offset
      rw [← hgap.rest] at hoffset
      rw [hmeet.offset, hoffset]
      rfl
  have hfirst : (Cursor.atStart first).skipBlankLines.2.takeEntries.map
      (Prod.map (Entry.mapOffsets (· + 0)) id) =
        (Cursor.atStart first).skipBlankLines.2.takeEntries := by
    rw [show Entry.mapOffsets (· + 0) = id from funext Entry.mapOffsets_id, Prod.map_id,
      List.map_id]
  rw [read_eq, heq, hfirst, htail.takeEntries_eq ⟨Cursor.starts_atStart _, .inr hcontent⟩ hd,
    attachComments_append, attachComments_map (Entry.moves_mapOffsets _), body_read hcontent]
  · rfl
  · intro comment hcomment
    cases htouches _ hcomment ⟨_, _, rfl⟩

/-- The entries of a text of complete lines and of a text that starts with an entry are those of
the two texts together, provided that no comment stands where they meet. Of the second text as much
counts as is held behind the first one: all of it if both fit together. -/
theorem body_append (first second : String) (hline : first = "" ∨ EndsLine first.toList)
    (hstart : ∃ ch ∈ second.toList.head?, isEntryStart ch)
    (hlast : (∀ level comment, (parse first).body.getLast? ≠ some (.comment level comment)) ∨
      Text.EndsBlankLine first.toList) :
    ∃ rest, rest.toList <+: second.toList ∧
      Cursor.held (first ++ second).toList = Cursor.held first.toList ++ rest.toList ∧
      (Cursor.Fits (first ++ second).toList → rest = second) ∧
      (parse (first ++ second)).body =
        (parse first).body ++
          (parse rest).body.map (Entry.mapOffsets (· + byteLength (Cursor.held first.toList))) := by
  obtain ⟨rest, hheld, hstarts, hcut⟩ := Cursor.held_append first.toList second.toList
  have hfits : Cursor.Fits rest :=
    (Cursor.fits_held _).of_isInfix (hheld ▸ (List.suffix_append _ rest).isInfix)
  have hbody : (parse (first ++ second)).body =
      (read (Cursor.held first.toList ++ rest)).body := by
    rw [← hheld, ← String.toList_append]
    rfl
  refine ⟨String.ofList rest, ?_⟩
  rw [String.toList_append, String.toList_ofList, hbody, parse, parse, String.toList_ofList,
    ofText_of_fits hfits]
  refine ⟨hstarts, hheld, fun hboth => ?_, ?_⟩
  · rw [Cursor.held_of_fits hboth,
      Cursor.held_of_fits (hboth.of_isInfix (List.prefix_append _ _).isInfix),
      List.append_cancel_left_eq] at hheld
    rw [← hheld, String.ofList_toList]
  · cases rest with
    | nil =>
      -- nothing is held of the second text
      rw [List.append_nil, body_nil, List.map_nil, List.append_nil]
      rfl
    | cons ch more =>
      have hwhole := hcut.resolve_left (List.cons_ne_nil ch more)
      obtain ⟨beyond, hsecond⟩ := hstarts
      rw [parse, ofText, hwhole] at hlast
      rw [ofText, hwhole]
      rw [← hsecond] at hstart
      exact read_append _ _ (hline.imp_left fun hnil => by rw [hnil]; rfl) hstart hlast

/-- A broken entry at the end of the first text ends in front of the second one. -/
theorem body_append_broken :
    (parse ("key = \x7b $count ->\n" ++ "other = value")).body =
      (parse "key = \x7b $count ->\n").body ++
        (parse "other = value").body.map (Entry.mapOffsets (· + 18)) := by
  obtain ⟨rest, -, -, hrest, hbody⟩ := body_append "key = \x7b $count ->\n" "other = value"
    (.inr ⟨'\n', by decide, rfl⟩) ⟨'o', by decide, rfl⟩ (.inl fun level comment hlast => by
      have hjunk : hasJunk ⟨(parse "key = \x7b $count ->\n").body.getLast?.toList, default⟩ := by
        decide +kernel
      rw [hlast] at hjunk
      cases hjunk)
  obtain rfl := hrest (by decide)
  exact hbody

end Resource

end Localization
