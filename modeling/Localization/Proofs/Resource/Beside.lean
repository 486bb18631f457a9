import Localization.Proofs.Resource.Alignment

/-!
# Runs side by side

Two cursors read the same text, the second one with another text behind it and at other offsets.
The text behind starts a new entry on a line of its own, or is empty. As long as the first cursor
does not reach its end, every step of the two is the same up to the offsets. At its end the second
one stands in front of a character that starts an entry, which no construct under way goes on with.

## Main definitions

* `Cursor.Beside` — the first cursor has not reached its end, unless nothing follows
* `Cursor.Abuts` — it may have reached its end
* `Alignment.followedBy` — the alignment of the two readings
-/

namespace Localization

open Text (EndsLine IsGap IsIndent StartsBreak StartsVisible afterBreak? behindBlankLines
  byteLength)

/-! ### Cursors -/

namespace Cursor

/-- The second cursor reads what the first reads, `n` bytes further on, and then `post`. -/
structure Followed (post : List Char) (n : Nat) (c d : Cursor) : Prop where
  rest : d.here.rest = c.here.rest ++ post
  offset : d.offset = c.offset + n
  line : post = [] ∨ c.here.rest = [] ∨ EndsLine c.here.rest
  entryStart : ∀ ch ∈ post.head?, isEntryStart ch

/-- Two cursors without pending lookahead that read the same text up to `post`. -/
structure Abuts (post : List Char) (n : Nat) (c d : Cursor) : Prop
    extends Followed post n c d where
  left : c.Ready
  right : d.Ready

/-- Two cursors without pending lookahead that read the same text, of which some is left in front
of `post`. -/
structure Beside (post : List Char) (n : Nat) (c d : Cursor) : Prop
    extends Abuts post n c d where
  within : post = [] ∨ EndsLine c.here.rest

variable {post : List Char} {n : Nat} {c d c' d' : Cursor}

theorem isVisible_of_isEntryStart {ch : Char} (h : isEntryStart ch) : Text.isVisible ch := by
  by_contra hvisible
  rw [Bool.not_eq_true, Text.isVisible_eq_false_iff, Text.isInlineBlank_iff,
    Text.isLineBreak_iff] at hvisible
  rcases hvisible with (rfl | rfl) | rfl | rfl <;> exact absurd h (by decide)

/-- The text that follows starts with something visible, if it is not empty. -/
theorem Followed.startsVisible (h : Followed post n c d) : StartsVisible post :=
  fun ch hch => isVisible_of_isEntryStart (h.entryStart ch hch)

/-- Reading the same piece of the text keeps two cursors side by side. -/
theorem Followed.of_to (h : Followed post n c d) (hc : c.To c') (hd : d.To d')
    (hrest : d'.here.rest = c'.here.rest ++ post) : Followed post n c' d' := by
  obtain ⟨taken, hleft⟩ := hc.reads
  obtain ⟨taken', hright⟩ := hd.reads
  obtain rfl : taken = taken' := by
    have hboth : taken ++ (c'.here.rest ++ post) = taken' ++ (c'.here.rest ++ post) := by
      rw [← List.append_assoc, ← hleft.here.1, ← h.rest, hright.here.1, hrest]
    exact List.append_cancel_right hboth
  refine ⟨hrest, ?_, ?_, h.entryStart⟩
  · have hoffset := h.offset
    unfold Cursor.offset at hoffset ⊢
    rw [hright.here.2, hleft.here.2, hoffset]
    omega
  · rcases h.line with hpost | hnil | hline
    · exact .inl hpost
    · exact .inr (.inl (List.append_eq_nil_iff.1 (hleft.here.1 ▸ hnil)).2)
    · exact .inr ((hleft.here.1 ▸ hline).of_append)

/-- Moves lead to abutting cursors again if what is left abuts. -/
theorem Abuts.of_to (h : Abuts post n c d) (hc : c.To c') (hd : d.To d') (hleft : c'.Ready)
    (hright : d'.Ready) (hrest : d'.here.rest = c'.here.rest ++ post) : Abuts post n c' d' :=
  ⟨h.toFollowed.of_to hc hd hrest, hleft, hright⟩

/-- Side by side means that some text is left in front of what follows. -/
theorem Abuts.beside (h : Abuts post n c d) (hne : c.here.rest ≠ []) : Beside post n c d :=
  ⟨h, h.line.imp_right fun hline => hline.resolve_left hne⟩

/-- Nothing follows a text that has come to its end. -/
theorem Beside.eq_nil (h : Beside post n c d) (hnil : c.here.rest = []) : post = [] :=
  h.within.resolve_right fun hline => hline.ne_nil hnil

/-- Abutting cursors stay beside each other while the line that ends the text is not used up. -/
theorem Beside.of_abuts (h : Beside post n c d) (h' : Abuts post n c' d')
    (hline : EndsLine c.here.rest → c'.here.rest ≠ []) : Beside post n c' d' :=
  ⟨h', h.within.elim .inl fun hwithin => (h'.beside (hline hwithin)).within⟩

/-- Cursors beside each other show the same character. -/
theorem Beside.current (h : Beside post n c d) : d.current = c.current := by
  unfold Cursor.current Mark.char?
  rw [h.rest]
  cases hrest : c.here.rest with
  | nil => rw [h.eq_nil hrest]; rfl
  | cons ch rest => rfl

/-! ### Moves -/

/-- A character that both cursors show is taken on both sides. -/
theorem Abuts.next {ch : Char} (h : Abuts post n c d) (hc : c.current = some ch)
    (hd : d.current = some ch) : Abuts post n c.next d.next := by
  refine h.of_to c.to_next d.to_next h.left.next h.right.next ?_
  by_cases hch : ch = '\n'
  · subst hch
    obtain ⟨rest, hrest⟩ := Option.isSome_iff_exists.1 (current_eq_newline_iff.1 hc)
    have hboth : afterBreak? d.here.rest = some (rest ++ post) := by
      rw [h.rest, h.startsVisible.afterBreak?_append, hrest]
      rfl
    rw [next_rest_of_break hrest, next_rest_of_break hboth]
  · obtain ⟨hbreak, rest, hrest⟩ := (current_eq_some_iff hch).1 hc
    have hboth : d.here.rest = ch :: (rest ++ post) := by
      rw [h.rest, hrest, List.cons_append]
    rw [next_rest_of_cons hbreak hrest, next_rest_of_cons hbreak hboth]

/-- Behind a character that is no line break, some text is left. -/
theorem Beside.next {ch : Char} (h : Beside post n c d) (hc : c.current = some ch)
    (hne : ch ≠ '\n') : Beside post n c.next d.next := by
  refine h.of_abuts (h.toAbuts.next hc (h.current.trans hc)) fun hline => ?_
  obtain ⟨hbreak, rest, hrest⟩ := (current_eq_some_iff hne).1 hc
  rw [next_rest_of_cons hbreak hrest]
  rw [hrest] at hline
  exact (hline.of_cons hbreak).ne_nil

/-- Skipping characters that are no line breaks goes on alike on both sides. -/
theorem Beside.skipWhile {p : Char → Bool} (hp : ∀ ch, isLineBreak ch → p ch = false)
    (h : Beside post n c d) : Beside post n (c.skipWhile p) (d.skipWhile p) := by
  have hrest : (d.skipWhile p).here.rest = (c.skipWhile p).here.rest ++ post := by
    rw [skipWhile_rest hp, skipWhile_rest hp, h.rest]
    rcases h.within with rfl | hline
    · simp
    · exact hline.dropWhile_append hp
  refine h.of_abuts (h.toAbuts.of_to (to_skipWhile p c) (to_skipWhile p d) (h.left.skipWhile p)
    (h.right.skipWhile p) hrest) fun hline => ?_
  rw [skipWhile_rest hp]
  exact (hline.dropWhile hp).ne_nil

/-- The same run of characters is taken on both sides. -/
theorem Beside.takeWhile_fst {p : Char → Bool} (hp : ∀ ch, isLineBreak ch → p ch = false)
    (h : Beside post n c d) : (d.takeWhile p).1 = (c.takeWhile p).1 := by
  rw [Cursor.takeWhile_fst hp, Cursor.takeWhile_fst hp, h.rest]
  rcases h.within with rfl | hline
  · simp
  · exact hline.takeWhile_append hp

theorem Abuts.skipInlineBlanks (h : Abuts post n c d) :
    Abuts post n c.skipInlineBlanks d.skipInlineBlanks := by
  refine h.of_to (to_skipWhile _ c) (to_skipWhile _ d) h.left.skipInlineBlanks
    h.right.skipInlineBlanks ?_
  rw [skipInlineBlanks_rest, skipInlineBlanks_rest, h.rest, h.startsVisible.dropWhile_append]

/-- Skipping blank lines stops in front of the text that follows. -/
theorem Abuts.skipBlankLines (h : Abuts post n c d) :
    Abuts post n c.skipBlankLines.2 d.skipBlankLines.2 := by
  refine h.of_to (to_skipBlankLines c) (to_skipBlankLines d) h.left.skipBlankLines.1
    h.right.skipBlankLines.1 ?_
  rw [h.left.skipBlankLines.2, h.right.skipBlankLines.2, h.rest]
  obtain ⟨gap, tail, hgap, htail, hrest⟩ := Text.exists_gap c.here.rest
  -- content in the first text stops both cursors; without it the second one stops where the other
  -- text begins
  cases tail with
  | cons ch tail =>
    have hboth : StartsVisible (ch :: tail ++ post) :=
      Text.startsVisible_cons.2 (Text.startsVisible_cons.1 htail)
    rw [hrest, List.append_assoc, hgap.behindBlankLines_append htail,
      hgap.behindBlankLines_append hboth, if_neg (by simp), if_neg (by simp), List.append_assoc]
  | nil =>
    rw [hrest, List.append_nil, hgap.behindBlankLines_append h.startsVisible]
    have hempty := hgap.behindBlankLines_append htail
    rw [List.append_nil, if_pos rfl] at hempty
    rw [hempty, List.nil_append]
    split
    · next hpost => exact hpost.symm
    · next hpost =>
      rw [List.append_nil] at hrest
      -- the first text ends a line, so no blanks in front of the other one are left over
      rcases h.line.resolve_left hpost with hnil | hline
      · rw [← hrest, hnil, List.rtakeWhile_nil, List.nil_append]
      · have hblanks : ¬∃ ch ∈ gap.getLast?, isInlineBlank ch := by
          rintro ⟨ch, hch, hblank⟩
          obtain ⟨last, hlast, hbreak⟩ := hline
          rw [hrest, Option.mem_def, Option.mem_def.1 hch, Option.some.injEq] at hlast
          rw [hlast, Text.not_isInlineBlank_of_isLineBreak hbreak] at hblank
          cases hblank
        rw [← Text.rtakeWhile_ne_nil_iff, not_not] at hblanks
        rw [hblanks, List.nil_append]

theorem Abuts.skipIndent (h : Abuts post n c d) : Abuts post n c.skipIndent d.skipIndent := by
  have hblanks := h.skipInlineBlanks
  rw [skipIndent_eq, skipIndent_eq]
  have hcurrent : c.skipInlineBlanks.current = some '\n' ↔
      d.skipInlineBlanks.current = some '\n' := by
    rw [current_eq_newline_iff, current_eq_newline_iff, hblanks.rest,
      h.startsVisible.afterBreak?_append, Option.isSome_map]
  by_cases hbreak : c.skipInlineBlanks.current = some '\n'
  · rw [if_pos hbreak, if_pos (hcurrent.1 hbreak)]
    exact (hblanks.next hbreak (hcurrent.1 hbreak)).skipBlankLines.skipInlineBlanks
  · rw [if_neg hbreak, if_neg (mt hcurrent.2 hbreak)]
    exact hblanks

/-- The same line is taken on both sides. -/
theorem Beside.takeLine (h : Beside post n c d) :
    d.takeLine.1 = c.takeLine.1 ∧ Beside post n c.takeLine.2 d.takeLine.2 := by
  have hp : ∀ ch, isLineBreak ch → (!isLineBreak ch) = false := by simp
  have hrest : d.takeLine.2.here.rest = c.takeLine.2.here.rest ++ post := by
    change d.here.rest.dropWhile _ = c.here.rest.dropWhile _ ++ post
    rw [h.rest]
    rcases h.within with rfl | hline
    · simp
    · exact hline.dropWhile_append hp
  refine ⟨?_, h.of_abuts (h.toAbuts.of_to c.to_takeLine d.to_takeLine
    (h.left.of_to c.to_takeLine rfl) (h.right.of_to d.to_takeLine rfl) hrest) fun hline => ?_⟩
  · change d.here.rest.takeWhile _ = c.here.rest.takeWhile _
    rw [h.rest]
    rcases h.within with rfl | hline
    · simp
    · exact hline.takeWhile_append hp
  · exact (hline.dropWhile hp).ne_nil

/-! ### Questions -/

section Questions

variable (h : Beside post n c d)
include h

/-- Whether a pattern goes on does not depend on what follows the text. -/
theorem Beside.startsPattern :
    Text.startsPattern d.here.rest = Text.startsPattern c.here.rest := by
  rw [h.rest]
  rcases h.within with rfl | hline
  · rw [List.append_nil]
  · rw [hline.startsPattern_append h.startsVisible]

theorem Beside.startsAttribute :
    Text.startsAttribute d.here.rest = Text.startsAttribute c.here.rest := by
  rw [h.rest]
  rcases h.within with rfl | hline
  · rw [List.append_nil]
  · rw [hline.startsAttribute_append h.startsVisible]

/-- Whether a variant follows does not depend on what follows the text. -/
theorem Beside.startsVariant :
    Text.startsVariant d.here.rest = Text.startsVariant c.here.rest := by
  rw [h.rest]
  rcases h.within with rfl | hline
  · rw [List.append_nil]
  · rw [hline.startsVariant_append h.startsVisible]

/-- Whether a value follows does not depend on what follows the text. -/
theorem Beside.startsValue :
    Text.startsValue d.here.rest = Text.startsValue c.here.rest := by
  rw [h.rest]
  rcases h.within with rfl | hline
  · rw [List.append_nil]
  · rw [hline.startsValue_append h.startsVisible]

theorem Beside.startsNumber :
    Text.startsNumber d.here.rest = Text.startsNumber c.here.rest := by
  rw [h.rest]
  rcases h.within with rfl | hline
  · rw [List.append_nil]
  · rw [hline.startsNumber_append]

theorem Beside.startsArrow : Text.startsArrow d.here.rest = Text.startsArrow c.here.rest := by
  rw [h.rest]
  rcases h.within with rfl | hline
  · rw [List.append_nil]
  · rw [hline.startsArrow_append]

end Questions

/-- A line that goes on with a pattern leaves some of the text. -/
theorem Beside.nextLine (h : Beside post n c d) (hpattern : Text.startsPattern c.here.rest) :
    Beside post n c.next.skipInlineBlanks d.next.skipInlineBlanks := by
  obtain ⟨gap, ch, tail, hindent, hvisible, -, hrest⟩ := Text.startsPattern_iff.1 hpattern
  have hcurrent : c.current = some '\n' := current_eq_newline_iff.2
    (Text.startsBreak_iff_isSome.1 (hrest ▸ hindent.startsBreak.append))
  have hnext := h.toAbuts.next hcurrent (h.current.trans hcurrent)
  refine h.of_abuts hnext.skipInlineBlanks fun _ => ?_
  obtain ⟨gap', -, -, hleft⟩ := nextLine_rest hindent.isGap hindent.startsBreak
    (Text.startsVisible_cons.2 hvisible) hrest
  simp [hleft]

/-- A value that starts leaves some of the text. -/
theorem Beside.skipIndent (h : Beside post n c d) (hvalue : Text.startsValue c.here.rest) :
    Beside post n c.skipIndent d.skipIndent := by
  refine h.of_abuts h.toAbuts.skipIndent fun _ => ?_
  obtain ⟨blanks, gap, ch, rest, hblanks, hvisible, hgap, hrest⟩ := Text.startsValue_iff.1 hvalue
  have hboth : IsGap (blanks ++ gap) := by
    refine Text.isGap_append.2 ⟨hblanks.isGap, ?_⟩
    rcases hgap with rfl | ⟨hindent, -⟩
    · exact Text.isGap_nil
    · exact hindent.isGap
  rw [h.left.skipIndent_rest hboth (Text.startsVisible_cons.2 hvisible)
    (hrest.trans (List.append_assoc _ _ _).symm)]
  simp

/-- At the end of the text, the character behind it starts an entry. -/
theorem Abuts.current_ne {ch : Char} (h : Abuts post n c d) (hnil : c.here.rest = [])
    (hch : ch ≠ '\n') (hstart : isEntryStart ch = false) :
    c.current ≠ some ch ∧ d.current ≠ some ch := by
  refine ⟨by simp [current_eq_none_iff.2 hnil], fun hd => ?_⟩
  obtain ⟨-, rest, hrest⟩ := (current_eq_some_iff hch).1 hd
  rw [h.rest, hnil, List.nil_append] at hrest
  have hentry := h.entryStart ch (by simp [hrest])
  rw [hstart] at hentry
  cases hentry

/-- Behind an indentation some text is left. -/
theorem Abuts.indented (h : Abuts post n c d)
    (hmoved : c.skipInlineBlanks.offset ≠ c.offset) :
    Beside post n c.skipInlineBlanks d.skipInlineBlanks := by
  refine ⟨h.skipInlineBlanks, ?_⟩
  rcases h.line with hpost | hnil | hline
  · exact .inl hpost
  · refine absurd ?_ hmoved
    rw [Cursor.skipInlineBlanks, Cursor.skipWhile_of_neg]
    simp [Cursor.current_eq_none_iff.2 hnil]
  · rw [Cursor.skipInlineBlanks_rest]
    exact .inr (hline.dropWhile fun _ => Text.not_isInlineBlank_of_isLineBreak)

/-- What follows the text remains on the one side only. -/
theorem Abuts.remaining (h : Abuts post n c d) : d.remaining = c.remaining + byteLength post := by
  rw [h.right.remaining, h.left.remaining, h.rest, Text.byteLength_append]

end Cursor

/-- A text read alone, and `n` bytes further on in front of another text. -/
def Alignment.followedBy (post : List Char) (n : Nat) : Alignment where
  shift := (· + n)
  Followed := Cursor.Followed post n
  Abuts := Cursor.Abuts post n
  Beside := Cursor.Beside post n
  monotone := fun _ _ h => Nat.add_le_add_right h n
  followed_offset h := h.offset
  followed_congr h hc hd := by
    obtain ⟨hrest, hoffset, hline, hstart⟩ := h
    unfold Cursor.offset at hoffset
    rw [← hc, ← hd] at hrest hoffset
    rw [← hc] at hline
    exact ⟨hrest, hoffset, hline, hstart⟩
  abuts_followed h := h.toFollowed
  abuts_ready h := ⟨h.left, h.right⟩
  abuts_skipInlineBlanks h := h.skipInlineBlanks
  abuts_skipBlankLines h := h.skipBlankLines
  abuts_indented h := ⟨Nat.add_right_cancel_iff, h.indented⟩
  abuts_char {c d} h ch hch hstart := by
    by_cases hnil : c.here.rest = []
    · exact .inr (h.current_ne hnil hch hstart)
    · exact .inl (h.beside hnil)
  beside_abuts h := h.toAbuts
  beside_current h := h.current
  beside_next h _ hc hne := h.next hc hne
  beside_break h hc := h.toAbuts.next hc (h.current.trans hc)
  beside_skipWhile h _ hp := ⟨h.skipWhile hp, h.takeWhile_fst hp⟩
  beside_skipIndent h := h.toAbuts.skipIndent
  beside_value h hvalue := h.skipIndent hvalue
  beside_nextLine h hpattern := h.nextLine hpattern
  beside_blanks {c d c' d'} _ _ taken blanks htakes _ := by
    have hoffset := htakes.offset
    rw [Text.byteLength_append] at hoffset
    omega
  beside_remaining h h' := by
    rw [h.toAbuts.remaining, h'.toAbuts.remaining, Nat.add_lt_add_iff_right]
  startsPattern h := h.startsPattern
  startsAttribute h := h.startsAttribute
  startsVariant h := h.startsVariant
  startsValue h := h.startsValue
  startsNumber h := h.startsNumber
  startsArrow h := h.startsArrow

end Localization
