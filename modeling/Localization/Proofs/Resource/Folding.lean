import Localization.Proofs.Resource.Entries
import Localization.Proofs.Text.Folding

/-!
# A source and its fold, side by side

Every step that a cursor takes in a source, another one takes in its fold, where each line break is
a line feed.

## Main definitions

* `Cursor.Folds` — cursors at the same place of a source and of its fold
* `Alignment.folded` — the alignment of the two readings

## Main statements

* `Cursor.FoldsAt.of_to` — cursors that read on to the same text stay at the same place
-/

namespace Localization

open Text (Joins afterBreak? byteLength foldBreaks foldOffset indented?)

/-! ### Questions about folds -/

namespace Text

variable {text rest : List Char} {ch : Char}

/-- Only a line break at the start of a text is not the same in the fold. -/
theorem foldBreaks_cons_or (ch : Char) (rest : List Char) :
    isLineBreak ch ∧ (∃ tail, foldBreaks (ch :: rest) = '\n' :: tail) ∨
      isLineBreak ch = false ∧ foldBreaks (ch :: rest) = ch :: foldBreaks rest := by
  by_cases hch : isLineBreak ch
  · refine .inl ⟨hch, ?_⟩
    have hhead := @head?_foldBreaks (ch :: rest)
    rw [List.head?_cons, Option.map_some, if_pos hch] at hhead
    exact List.head?_eq_some_iff.1 hhead
  · exact .inr ⟨by simpa using hch, foldBreaks_cons_of_not (by simpa using hch)⟩

/-- Folding line breaks leaves any other first character. -/
theorem head?_foldBreaks_eq_some_iff (h : isLineBreak ch = false) :
    (foldBreaks text).head? = some ch ↔ text.head? = some ch := by
  have hne : ∀ other, isLineBreak other → other ≠ ch := by
    rintro other hother rfl
    rw [h] at hother
    cases hother
  rw [head?_foldBreaks]
  cases text with
  | nil => rfl
  | cons first rest =>
    rw [List.head?_cons, Option.map_some, Option.some_inj, Option.some_inj]
    split
    · next hfirst => exact iff_of_false (hne _ rfl) (hne _ hfirst)
    · rfl

/-- A question that looks behind one mark, and otherwise at the first character alone, has the same
answer for the fold. -/
theorem foldBreaks_congr {α : Type} {f : List Char → α} (mark : Char) (other : Option Char → α)
    (hmark : isLineBreak mark = false)
    (hother : ∀ text, text.head? ≠ some mark → f text = other text.head?)
    (hbreak : ∀ ch, isLineBreak ch → other (some ch) = other (some '\n'))
    (hbehind : ∀ rest, f (mark :: foldBreaks rest) = f (mark :: rest)) :
    f (foldBreaks text) = f text := by
  by_cases hhead : text.head? = some mark
  · obtain ⟨rest, rfl⟩ := List.head?_eq_some_iff.1 hhead
    rw [foldBreaks_cons_of_not hmark, hbehind]
  · rw [hother _ (mt (head?_foldBreaks_eq_some_iff hmark).1 hhead), hother _ hhead,
      head?_foldBreaks]
    cases text.head? with
    | none => rfl
    | some ch =>
      rw [Option.map_some]
      split
      · next hch => exact (hbreak ch hch).symm
      · rfl

/-- A text without line breaks starts the fold if it starts the text. -/
theorem exists_foldBreaks_eq_append_iff {lead : List Char}
    (hlead : ∀ ch ∈ lead, isLineBreak ch = false) :
    (∃ tail, foldBreaks text = lead ++ tail) ↔ ∃ tail, text = lead ++ tail := by
  induction lead generalizing text with
  | nil => simp
  | cons ch lead ih =>
    obtain ⟨hch, hlead⟩ := List.forall_mem_cons.1 hlead
    constructor
    · rintro ⟨tail, hfold⟩
      have hhead : text.head? = some ch := by
        rw [← head?_foldBreaks_eq_some_iff hch, hfold]
        rfl
      obtain ⟨rest, rfl⟩ := List.head?_eq_some_iff.1 hhead
      rw [foldBreaks_cons_of_not hch, List.cons_append, List.cons_inj_right] at hfold
      obtain ⟨tail', rfl⟩ := (ih hlead).1 ⟨tail, hfold⟩
      exact ⟨tail', rfl⟩
    · rintro ⟨tail, rfl⟩
      obtain ⟨tail', hfold⟩ := (ih hlead).2 ⟨tail, rfl⟩
      exact ⟨tail', by rw [List.cons_append, foldBreaks_cons_of_not hch, hfold, List.cons_append]⟩

/-- Whether a pattern goes on does not depend on how line breaks are written. -/
theorem startsPattern_foldBreaks : startsPattern (foldBreaks text) = startsPattern text := by
  unfold startsPattern
  rw [indented?_foldBreaks, Option.any_map]
  exact congrArg (Option.any · _) (funext fun content => any_head?_foldBreaks rfl)

theorem startsAttribute_foldBreaks : startsAttribute (foldBreaks text) = startsAttribute text := by
  unfold startsAttribute
  rw [indented?_foldBreaks, Option.any_map]
  refine congrArg (Option.any · _) (funext fun content => ?_)
  exact decide_eq_decide.2 (head?_foldBreaks_eq_some_iff rfl)

theorem startsBracket_foldBreaks : startsBracket (foldBreaks text) = startsBracket text := by
  refine foldBreaks_congr '[' (fun _ => false) rfl (fun text hhead => ?_)
    (fun _ _ => rfl) fun rest => ?_
  · rw [startsBracket]
    rintro rest rfl
    exact hhead rfl
  · exact decide_eq_decide.2 (not_congr (head?_foldBreaks_eq_some_iff rfl))

/-- The marker of a default variant is passed over alike in both texts. -/
theorem behindStar_foldBreaks : behindStar (foldBreaks text) = foldBreaks (behindStar text) := by
  cases text with
  | nil => rfl
  | cons ch rest =>
    rcases foldBreaks_cons_or ch rest with ⟨hch, tail, hfold⟩ | ⟨hch, hfold⟩
    · have hstar : ch ≠ '*' := by
        rintro rfl
        cases hch
      rw [behindStar_cons_of_ne hstar, hfold, behindStar_cons_of_ne (by decide)]
    · rw [hfold]
      by_cases hstar : ch = '*'
      · subst hstar
        rfl
      · rw [behindStar_cons_of_ne hstar, behindStar_cons_of_ne hstar, hfold]

/-- Whether a variant follows does not depend on how line breaks are written. -/
theorem startsVariant_foldBreaks : startsVariant (foldBreaks text) = startsVariant text := by
  unfold startsVariant
  rw [dropWhile_isInlineBlank_foldBreaks, indented?_foldBreaks, Option.any_map]
  refine congrArg (Option.any · _) (funext fun content => ?_)
  rw [behindStar_foldBreaks, startsBracket_foldBreaks]

/-- Whether a value follows does not depend on how line breaks are written. -/
theorem startsValue_foldBreaks : startsValue (foldBreaks text) = startsValue text := by
  unfold startsValue
  dsimp only
  rw [dropWhile_isInlineBlank_foldBreaks, afterBreak?_foldBreaks, Option.isSome_map,
    startsPattern_foldBreaks]
  split
  · rfl
  · rw [Bool.not_inj_iff, Bool.eq_iff_iff, List.isEmpty_iff, List.isEmpty_iff, foldBreaks_eq_nil]

theorem startsNumber_foldBreaks : startsNumber (foldBreaks text) = startsNumber text := by
  refine foldBreaks_congr '-' (Option.any Char.isDigit) rfl (fun text hhead => ?_)
    (fun ch hch => ?_) fun rest => any_head?_foldBreaks rfl
  · cases text with
    | nil => rfl
    | cons ch rest =>
      rw [startsNumber]
      · rfl
      · rintro rfl
        exact hhead rfl
  · rcases isLineBreak_iff.1 hch with rfl | rfl <;> rfl

theorem startsArrow_foldBreaks : startsArrow (foldBreaks text) = startsArrow text := by
  rw [Bool.eq_iff_iff, startsArrow_iff, startsArrow_iff]
  exact @exists_foldBreaks_eq_append_iff text ['-', '>'] (by simp [isLineBreak])

theorem startsMarked_foldBreaks (level : Nat) :
    startsMarked level (foldBreaks text) = startsMarked level text := by
  induction level generalizing text with
  | zero =>
    unfold startsMarked
    rw [head?_foldBreaks, Option.all_map]
    refine congrArg (Option.all · _) (funext fun ch => ?_)
    split
    · next hch => rw [hch]; simp [isLineBreak]
    · rfl
  | succ level ih =>
    refine foldBreaks_congr '#' (fun _ => false) rfl (fun text hhead => ?_)
      (fun _ _ => rfl) fun rest => ih
    rw [startsMarked]
    rintro rest rfl
    exact hhead rfl

/-- Whether a comment goes on does not depend on how line breaks are written. -/
theorem startsComment_foldBreaks (level : Nat) :
    startsComment level (foldBreaks text) = startsComment level text := by
  unfold startsComment
  rw [afterBreak?_foldBreaks, Option.any_map]
  exact congrArg (Option.any · _) (funext fun rest => startsMarked_foldBreaks level)

theorem startsSlashes_foldBreaks : startsSlashes (foldBreaks text) = startsSlashes text := by
  rw [Bool.eq_iff_iff, startsSlashes_iff, startsSlashes_iff]
  exact exists_foldBreaks_eq_append_iff (by simp [isLineBreak])

theorem startsLegacyComment_foldBreaks :
    startsLegacyComment (foldBreaks text) = startsLegacyComment text := by
  unfold startsLegacyComment
  rw [afterBreak?_foldBreaks, Option.any_map]
  exact congrArg (Option.any · _) (funext fun rest => startsSlashes_foldBreaks)

end Text

/-! ### Cursors -/

/-- Line breaks are read as line feeds. -/
theorem Mark.char?_eq_map (m : Mark) :
    m.char? = m.rest.head?.map fun ch => if isLineBreak ch then '\n' else ch := by
  unfold char?
  cases m.rest with
  | nil => rfl
  | cons ch rest =>
    rw [List.head?_cons, Option.map_some, Option.some_inj]
    by_cases hch : isLineBreak ch
    · rcases Text.isLineBreak_iff.1 hch with rfl | rfl <;> rfl
    · have hne : ch ≠ '\r' := by
        rintro rfl
        exact hch rfl
      rw [if_neg hne, if_neg hch]

namespace Cursor

variable {source : List Char} {c d c' d' : Cursor}

/-- Cursors at the same place of a source and of its fold, inside no line break. -/
structure FoldsAt (source : List Char) (c d : Cursor) : Prop where
  place : ∃ before, source = before ++ c.here.rest ∧ ¬Joins before c.here.rest ∧
    c.offset = byteLength before ∧ d.offset = byteLength (foldBreaks before)
  rest : d.here.rest = foldBreaks c.here.rest

/-- Cursors without pending lookahead at the same place of a source and of its fold. -/
structure Folds (source : List Char) (c d : Cursor) : Prop extends FoldsAt source c d where
  left : c.Ready
  right : d.Ready

/-- The offset in the folded source is the folded offset. -/
theorem FoldsAt.offset (h : FoldsAt source c d) : d.offset = foldOffset source c.offset := by
  obtain ⟨before, hsource, -, hleft, hright⟩ := h.place
  rw [hright, hleft, hsource, Text.foldOffset_append]

/-- That two cursors correspond depends on where they are committed, not on their lookahead. -/
theorem FoldsAt.congr (h : FoldsAt source c d) (hc : c'.here = c.here) (hd : d'.here = d.here) :
    FoldsAt source c' d' := by
  obtain ⟨hplace, hrest⟩ := h
  unfold Cursor.offset at hplace
  rw [← hc, ← hd] at hplace
  rw [← hc, ← hd] at hrest
  exact ⟨hplace, hrest⟩

/-- What is read between corresponding cursors is folded, unless it parts a CR from its line feed.
-/
theorem FoldsAt.reads_of_rest {taken taken' : List Char} (h : FoldsAt source c d)
    (hc : c.Reads taken c')
    (hd : d.Reads taken' d') (hrest : d'.here.rest = foldBreaks c'.here.rest)
    (hjoins : ¬Joins taken c'.here.rest) : taken' = foldBreaks taken := by
  have hboth := h.rest
  rw [hc.here.1, hd.here.1, Text.foldBreaks_append hjoins, hrest] at hboth
  exact List.append_cancel_right hboth

/-- Moves lead to corresponding cursors again if what is left corresponds. -/
theorem FoldsAt.of_to (h : FoldsAt source c d) (hc : c.To c') (hd : d.To d')
    (hrest : d'.here.rest = foldBreaks c'.here.rest) : FoldsAt source c' d' := by
  obtain ⟨taken, hleft, hjoins⟩ := hc.reads_whole
  obtain ⟨taken', hright⟩ := hd.reads
  obtain rfl := h.reads_of_rest hleft hright hrest hjoins
  obtain ⟨before, hsource, hbefore, hoffset, hoffset'⟩ := h.place
  rw [hleft.here.1] at hsource hbefore
  have htaken : ¬Joins before taken :=
    fun htaken => hbefore ⟨htaken.1, by rw [List.head?_append, htaken.2]; rfl⟩
  refine ⟨⟨before ++ taken, by rw [hsource, List.append_assoc],
    Text.not_joins_append hbefore hjoins, ?_, ?_⟩, hrest⟩
  · rw [Text.byteLength_append, ← hoffset]
    exact hleft.here.2
  · rw [Text.foldBreaks_append htaken, Text.byteLength_append, ← hoffset']
    exact hright.here.2

/-- Cursors that have read on to the same place have read a text and its fold. -/
theorem FoldsAt.reads {taken taken' : List Char} (h : FoldsAt source c d)
    (h' : FoldsAt source c' d') (hc : c.Reads taken c') (hd : d.Reads taken' d') :
    taken' = foldBreaks taken := by
  refine h.reads_of_rest hc hd h'.rest fun hjoins => ?_
  obtain ⟨before, hsource, -⟩ := h.place
  obtain ⟨before', hsource', hbefore', -⟩ := h'.place
  obtain rfl : before ++ taken = before' := by
    rw [hsource, hc.here.1, ← List.append_assoc] at hsource'
    exact List.append_cancel_right hsource'
  exact hbefore' ⟨by rw [List.getLast?_append, hjoins.1]; rfl, hjoins.2⟩

/-- Moves of ready cursors lead to corresponding ones again if what is left corresponds. -/
theorem Folds.of_to (h : Folds source c d) (hc : c.To c') (hd : d.To d') (hleft : c'.Ready)
    (hright : d'.Ready) (hrest : d'.here.rest = foldBreaks c'.here.rest) : Folds source c' d' :=
  ⟨h.toFoldsAt.of_to hc hd hrest, hleft, hright⟩

namespace Folds

variable (h : Folds source c d)
include h

/-- Corresponding cursors show the same character. -/
theorem current : d.current = c.current := by
  unfold Cursor.current
  rw [Mark.char?_eq_map, Mark.char?_eq_map, h.rest, Text.head?_foldBreaks, Option.map_map]
  refine congrArg (Option.map · _) (funext fun ch => ?_)
  dsimp only [Function.comp_apply]
  split
  · rfl
  · rfl

/-- One character is taken on both sides, or a whole line break. -/
theorem next : Folds source c.next d.next := by
  refine h.of_to c.to_next d.to_next h.left.next h.right.next ?_
  cases hcurrent : c.current with
  | none => rw [next_of_none hcurrent, next_of_none (h.current.trans hcurrent), h.rest]
  | some ch =>
    by_cases hch : ch = '\n'
    · subst hch
      obtain ⟨rest, hrest⟩ := Option.isSome_iff_exists.1 (current_eq_newline_iff.1 hcurrent)
      have hfold : afterBreak? d.here.rest = some (foldBreaks rest) := by
        rw [h.rest, Text.afterBreak?_foldBreaks, hrest, Option.map_some]
      rw [next_rest_of_break hrest, next_rest_of_break hfold]
    · obtain ⟨hbreak, rest, hrest⟩ := (current_eq_some_iff hch).1 hcurrent
      have hfold : d.here.rest = ch :: foldBreaks rest := by
        rw [h.rest, hrest, Text.foldBreaks_cons_of_not hbreak]
      rw [next_rest_of_cons hbreak hrest, next_rest_of_cons hbreak hfold]

/-- Skipping characters that are no line breaks goes on alike on both sides. -/
theorem skipWhile {p : Char → Bool} (hp : ∀ ch, isLineBreak ch → p ch = false) :
    Folds source (c.skipWhile p) (d.skipWhile p) := by
  refine h.of_to (to_skipWhile p c) (to_skipWhile p d) (h.left.skipWhile p) (h.right.skipWhile p) ?_
  rw [skipWhile_rest hp, skipWhile_rest hp, h.rest, Text.dropWhile_foldBreaks hp]

/-- The same run of characters is taken on both sides. -/
theorem takeWhile_fst {p : Char → Bool} (hp : ∀ ch, isLineBreak ch → p ch = false) :
    (d.takeWhile p).1 = (c.takeWhile p).1 := by
  rw [Cursor.takeWhile_fst hp, Cursor.takeWhile_fst hp, h.rest, Text.takeWhile_foldBreaks hp]

theorem skipInlineBlanks : Folds source c.skipInlineBlanks d.skipInlineBlanks :=
  h.skipWhile fun _ => Text.not_isInlineBlank_of_isLineBreak

/-- Skipping blank lines goes on alike on both sides. -/
theorem skipBlankLines : Folds source c.skipBlankLines.2 d.skipBlankLines.2 := by
  refine h.of_to (to_skipBlankLines c) (to_skipBlankLines d) h.left.skipBlankLines.1
    h.right.skipBlankLines.1 ?_
  rw [h.left.skipBlankLines.2, h.right.skipBlankLines.2, h.rest, Text.behindBlankLines_foldBreaks]

theorem skipIndent : Folds source c.skipIndent d.skipIndent := by
  have hblanks := h.skipInlineBlanks
  rw [skipIndent_eq, skipIndent_eq, hblanks.current]
  split
  · exact hblanks.next.skipBlankLines.skipInlineBlanks
  · exact hblanks

/-- The same line is taken on both sides. -/
theorem takeLine : d.takeLine.1 = c.takeLine.1 ∧ Folds source c.takeLine.2 d.takeLine.2 := by
  have hp : ∀ ch, isLineBreak ch → (!isLineBreak ch) = false := by simp
  refine ⟨?_, h.of_to c.to_takeLine d.to_takeLine (h.left.of_to c.to_takeLine rfl)
    (h.right.of_to d.to_takeLine rfl) ?_⟩
  · change d.here.rest.takeWhile _ = c.here.rest.takeWhile _
    rw [h.rest, Text.takeWhile_foldBreaks hp]
  · change d.here.rest.dropWhile _ = foldBreaks (c.here.rest.dropWhile _)
    rw [h.rest, Text.dropWhile_foldBreaks hp]

/-- Blanks at the start of the line are the same in the fold. -/
theorem indented : foldOffset source c.skipInlineBlanks.offset = foldOffset source c.offset ↔
    c.skipInlineBlanks.offset = c.offset := by
  rw [← h.offset, ← h.skipInlineBlanks.offset, h.left.skipInlineBlanks_takes.offset,
    h.right.skipInlineBlanks_takes.offset, h.rest,
    Text.takeWhile_foldBreaks fun _ => Text.not_isInlineBlank_of_isLineBreak]
  omega

/-- Blanks that have been read are the same in the fold. -/
theorem blanks {taken blanks : List Char}
    (htakes : c.Takes (taken ++ blanks) c') (hblanks : Text.IsBlanks blanks) :
    foldOffset source (c'.offset - byteLength blanks) =
      foldOffset source c'.offset - byteLength blanks := by
  obtain ⟨before, hsource, -, hoffset, -⟩ := h.place
  have hsplit : source = (before ++ taken) ++ (blanks ++ c'.here.rest) := by
    rw [hsource, htakes.rest]
    simp only [List.append_assoc]
  have hstart : c'.offset - byteLength blanks = byteLength (before ++ taken) := by
    rw [htakes.offset, hoffset, Text.byteLength_append, Text.byteLength_append]
    omega
  have hstop : c'.offset = byteLength ((before ++ taken) ++ blanks) := by
    rw [htakes.offset, hoffset]
    simp only [Text.byteLength_append]
    omega
  have hjoins : ¬Joins (before ++ taken) blanks := by
    refine Text.not_joins_of_head? fun hhead => ?_
    exact absurd (hblanks '\n' (List.mem_of_head? hhead)) (by decide)
  rw [hstart, hstop, hsplit, Text.foldOffset_append, ← List.append_assoc, Text.foldOffset_append,
    Text.foldBreaks_append hjoins, hblanks.foldBreaks, Text.byteLength_append]
  omega

/-- Less remains of the source exactly if less remains of the fold. -/
theorem remaining_lt_iff (h' : Folds source c' d') :
    d'.remaining < d.remaining ↔ c'.remaining < c.remaining := by
  obtain ⟨before, hsource, hjoins, -, -⟩ := h.place
  obtain ⟨before', hsource', hjoins', -, -⟩ := h'.place
  rw [h.left.remaining, h'.left.remaining, h.right.remaining, h'.right.remaining, h.rest, h'.rest]
  rw [hsource] at hsource'
  rcases List.append_eq_append_iff.1 hsource' with
    ⟨between, hbefore, hrest⟩ | ⟨between, hbefore, hrest⟩
  · rw [hbefore] at hjoins'
    obtain ⟨hsum, hempty⟩ := Text.byteLength_foldBreaks_append hjoins'
    rw [hrest, hsum, Text.byteLength_append]
    omega
  · rw [hbefore] at hjoins
    obtain ⟨hsum, hempty⟩ := Text.byteLength_foldBreaks_append hjoins
    rw [hrest, hsum, Text.byteLength_append]
    omega

end Folds

end Cursor

/-- A source and its fold. -/
def Alignment.folded (source : List Char) : Alignment where
  shift := foldOffset source
  Followed := Cursor.FoldsAt source
  Abuts := Cursor.Folds source
  Beside := Cursor.Folds source
  monotone := Text.foldOffset_monotone source
  followed_offset h := h.offset
  followed_congr h hc hd := h.congr hc hd
  abuts_followed h := h.toFoldsAt
  abuts_ready h := ⟨h.left, h.right⟩
  abuts_skipInlineBlanks h := h.skipInlineBlanks
  abuts_skipBlankLines h := h.skipBlankLines
  abuts_indented h := ⟨h.indented, fun _ => h.skipInlineBlanks⟩
  abuts_char h _ _ _ := .inl h
  beside_abuts h := h
  beside_current h := h.current
  beside_next h _ _ _ := h.next
  beside_break h _ := h.next
  beside_skipWhile h _ hp := ⟨h.skipWhile hp, h.takeWhile_fst hp⟩
  beside_skipIndent h := h.skipIndent
  beside_value h _ := h.skipIndent
  beside_nextLine h _ := h.next.skipInlineBlanks
  beside_blanks h _ _ _ htakes hblanks := h.blanks htakes hblanks
  beside_remaining h h' := h.remaining_lt_iff h'
  startsPattern h := by rw [h.rest, Text.startsPattern_foldBreaks]
  startsAttribute h := by rw [h.rest, Text.startsAttribute_foldBreaks]
  startsVariant h := by rw [h.rest, Text.startsVariant_foldBreaks]
  startsValue h := by rw [h.rest, Text.startsValue_foldBreaks]
  startsNumber h := by rw [h.rest, Text.startsNumber_foldBreaks]
  startsArrow h := by rw [h.rest, Text.startsArrow_foldBreaks]

end Localization
