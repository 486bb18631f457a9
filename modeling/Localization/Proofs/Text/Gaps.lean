import Localization.Proofs.Text.Lines
import Mathlib.Data.List.DropRight
import Mathlib.Tactic.Common

/-!
# Gaps between lines

A gap is a text of blanks and line breaks. The lookahead over blank lines looks at nothing but the
gap in front of it and the character behind that gap, so each of its answers is read off the first
and the last character of the gap.

## Main definitions

* `Text.IsGap`, `Text.IsBlanks` — texts without visible characters, and without line breaks
* `Text.IsIndent` — a gap that ends a line and indents another
* `Text.EndsLine` — a text that ends with a line break

## Main statements

* `Text.indented?_eq_some_iff` — an indented line is what stands behind an indent
* `Text.IsGap.behindBlankLines_append` — skipping blank lines keeps the blanks of the last line
-/

namespace Localization.Text

/-- A text of blanks within a line. -/
def IsBlanks (text : List Char) : Prop := ∀ ch ∈ text, isInlineBlank ch

/-- A character that, if there is one, does not belong to a class. -/
def Ends (p : Char → Bool) (next : Option Char) : Prop := ∀ ch ∈ next, p ch = false

/-- A text of blanks and line breaks. -/
def IsGap (text : List Char) : Prop := ∀ ch ∈ text, isVisible ch = false

/-- A text that starts with a line break. -/
def StartsBreak (text : List Char) : Prop := ∃ ch ∈ text.head?, isLineBreak ch

/-- A text that ends with a line break. -/
def EndsLine (text : List Char) : Prop := ∃ ch ∈ text.getLast?, isLineBreak ch

/-- A gap that ends a line and indents another. -/
structure IsIndent (gap : List Char) : Prop where
  isGap : IsGap gap
  startsBreak : StartsBreak gap
  endsBlank : ∃ ch ∈ gap.getLast?, isInlineBlank ch

variable {text tail gap rest : List Char} {ch : Char}

/-! ### Visible characters -/

/-- What is not visible is a blank or a line break. -/
theorem isVisible_eq_false_iff : isVisible ch = false ↔ isInlineBlank ch ∨ isLineBreak ch := by
  simp only [isVisible, Bool.and_eq_false_iff, Bool.not_eq_false']

theorem not_isLineBreak_of_isInlineBlank (h : isInlineBlank ch) : isLineBreak ch = false := by
  rcases isInlineBlank_iff.1 h with rfl | rfl <;> decide

theorem not_isInlineBlank_of_isVisible (h : isVisible ch) : isInlineBlank ch = false := by
  simp_all [isVisible]

theorem not_isLineBreak_of_isVisible (h : isVisible ch) : isLineBreak ch = false := by
  simp_all [isVisible]

theorem not_isVisible_of_isInlineBlank (h : isInlineBlank ch) : isVisible ch = false :=
  isVisible_eq_false_iff.2 (.inl h)

theorem not_isVisible_of_isLineBreak (h : isLineBreak ch) : isVisible ch = false :=
  isVisible_eq_false_iff.2 (.inr h)

theorem startsVisible_cons : StartsVisible (ch :: text) ↔ isVisible ch := by
  simp [StartsVisible]

theorem startsBreak_cons : StartsBreak (ch :: text) ↔ isLineBreak ch := by
  simp [StartsBreak]

/-- A text starts with a line break just if there is a text behind that break. -/
theorem startsBreak_iff_isSome : StartsBreak text ↔ (afterBreak? text).isSome := by
  cases text with
  | nil => simp [StartsBreak]
  | cons ch text => rw [startsBreak_cons, afterBreak?_isSome_iff]

/-- A text cannot start with a visible character and with a line break. -/
theorem StartsVisible.not_startsBreak (h : StartsVisible text) : ¬StartsBreak text := by
  rintro ⟨ch, hch, hbreak⟩
  rw [not_isLineBreak_of_isVisible (h ch hch)] at hbreak
  cases hbreak

theorem StartsBreak.append (h : StartsBreak text) : StartsBreak (text ++ tail) := by
  cases text with
  | nil => simp [StartsBreak] at h
  | cons ch text => exact startsBreak_cons.2 (startsBreak_cons.1 h)

/-! ### Classes of characters -/

section Class

variable {p : Char → Bool}

theorem ends_none : Ends p none := fun _ h => by simp at h

theorem ends_some : Ends p (some ch) ↔ p ch = false := by simp [Ends]

theorem takeWhile_of_ends (h : Ends p text.head?) : text.takeWhile p = [] := by
  cases text with
  | nil => rfl
  | cons ch text => exact List.takeWhile_cons_of_neg (by simp [h ch rfl])

theorem dropWhile_of_ends (h : Ends p text.head?) : text.dropWhile p = text := by
  cases text with
  | nil => rfl
  | cons ch text => exact List.dropWhile_cons_of_neg (by simp [h ch rfl])

/-- A run that ends with `text` is all of `text`, whatever follows. -/
theorem takeWhile_append_of_ends (htext : ∀ ch ∈ text, p ch) (h : Ends p tail.head?) :
    (text ++ tail).takeWhile p = text := by
  rw [List.takeWhile_append_of_pos htext, takeWhile_of_ends h, List.append_nil]

/-- A longest run ends in front of what is left. -/
theorem ends_dropWhile (p : Char → Bool) (text : List Char) :
    Ends p (text.dropWhile p).head? := by
  intro ch hch
  have hhead := List.head?_dropWhile_not p text
  rw [Option.mem_def.1 hch] at hhead
  simpa using hhead

/-- A longest run at the end ends behind what is left. -/
theorem ends_rdropWhile (p : Char → Bool) (text : List Char) :
    Ends p (text.rdropWhile p).getLast? := by
  intro ch hch
  have hne : text.rdropWhile p ≠ [] := by
    intro hnil
    simp [hnil] at hch
  rw [List.getLast?_eq_some_getLast hne, Option.mem_some_iff] at hch
  simpa [hch] using List.rdropWhile_last_not p text hne

/-- Dropping a run at the end leaves the text in front of the run. -/
theorem rdropWhile_append_of_ends (htail : ∀ ch ∈ tail, p ch) (h : Ends p text.getLast?) :
    (text ++ tail).rdropWhile p = text := by
  induction tail using List.reverseRecOn with
  | nil =>
    rw [List.append_nil, List.rdropWhile_eq_self_iff]
    intro hne
    simpa using h _ (List.getLast?_eq_some_getLast hne)
  | append_singleton tail last ih =>
    rw [← List.append_assoc, List.rdropWhile_concat_pos _ _ _ (htail last (by simp))]
    exact ih fun ch hch => htail ch (by simp [hch])

/-- A text that does not start with a character keeps its first character when that character is
cut from its end. -/
theorem exists_words {cut : Char} (hne : ch ≠ cut) (more : List Char) :
    ∃ words spaces, more = words ++ spaces ∧ (∀ space ∈ spaces, space = cut) ∧
      (ch :: words).getLast? ≠ some cut ∧
      ((ch :: more).reverse.dropWhile (· = cut)).reverse = ch :: words := by
  have hsplit : (ch :: more).rdropWhile (· = cut) ++ (ch :: more).rtakeWhile (· = cut) =
      ch :: more := List.rdropWhile_append_rtakeWhile
  have hlast := ends_rdropWhile (decide <| · = cut) (ch :: more)
  cases hwords : (ch :: more).rdropWhile (· = cut) with
  | nil =>
    have hcut := List.rdropWhile_eq_nil_iff.1 hwords ch (by simp)
    exact absurd (of_decide_eq_true hcut) hne
  | cons first words =>
    rw [hwords] at hsplit hlast
    obtain ⟨rfl, hmore⟩ := List.cons.inj hsplit
    refine ⟨words, _, hmore.symm, fun space hspace => ?_, fun hcut => ?_, hwords⟩
    · simpa using List.mem_rtakeWhile_imp hspace
    · simpa using hlast cut hcut

end Class

/-! ### Blanks and gaps -/

theorem isBlanks_nil : IsBlanks [] := fun _ h => by simp at h

theorem isBlanks_cons : IsBlanks (ch :: text) ↔ isInlineBlank ch ∧ IsBlanks text := by
  simp [IsBlanks]

theorem isBlanks_space : IsBlanks [' '] := isBlanks_cons.2 ⟨by decide, isBlanks_nil⟩

theorem isGap_nil : IsGap [] := fun _ h => by simp at h

theorem isGap_cons : IsGap (ch :: text) ↔ isVisible ch = false ∧ IsGap text := by
  simp [IsGap]

theorem isGap_append : IsGap (text ++ tail) ↔ IsGap text ∧ IsGap tail := by
  simp only [IsGap, List.mem_append, or_imp, forall_and]

theorem isBlanks_append : IsBlanks (text ++ tail) ↔ IsBlanks text ∧ IsBlanks tail := by
  simp only [IsBlanks, List.mem_append, or_imp, forall_and]

theorem IsBlanks.isGap (h : IsBlanks text) : IsGap text :=
  fun ch hch => not_isVisible_of_isInlineBlank (h ch hch)

/-- The longest run of blanks consists of blanks. -/
theorem isBlanks_takeWhile : IsBlanks (text.takeWhile isInlineBlank) :=
  fun _ h => List.mem_takeWhile_imp h

/-- Blanks in front of a text are dropped with the blanks that it starts with. -/
theorem IsBlanks.dropWhile_append (h : IsBlanks text) :
    (text ++ tail).dropWhile isInlineBlank = tail.dropWhile isInlineBlank :=
  List.dropWhile_append_of_pos h

/-- Blanks cannot stand in front of a text and be the line break that it starts with. -/
theorem IsBlanks.eq_nil_of_startsBreak (h : IsBlanks text) (hbreak : StartsBreak (text ++ tail)) :
    text = [] := by
  cases text with
  | nil => rfl
  | cons ch text =>
    have hch := startsBreak_cons.1 hbreak
    rw [not_isLineBreak_of_isInlineBlank (h ch (by simp))] at hch
    cases hch

/-- A class without blanks ends before blanks if it ends behind them. -/
theorem IsBlanks.ends_append {p : Char → Bool} (h : IsBlanks text)
    (hp : ∀ ch, isInlineBlank ch → p ch = false) (htail : Ends p tail.head?) :
    Ends p (text ++ tail).head? := by
  cases text with
  | nil => exact htail
  | cons ch text => exact ends_some.2 (hp ch (h ch (by simp)))

theorem StartsVisible.ends (h : StartsVisible text) : Ends isInlineBlank text.head? :=
  fun ch hch => not_isInlineBlank_of_isVisible (h ch hch)

/-- No blanks are dropped in front of a visible character. -/
theorem StartsVisible.dropWhile (h : StartsVisible text) :
    text.dropWhile isInlineBlank = text := by
  cases text with
  | nil => rfl
  | cons ch text => simp [not_isInlineBlank_of_isVisible (startsVisible_cons.1 h)]

/-- Every text is a gap and a text that starts with a visible character. -/
theorem exists_gap (text : List Char) :
    ∃ gap tail, IsGap gap ∧ StartsVisible tail ∧ text = gap ++ tail := by
  refine ⟨text.takeWhile (!isVisible ·), text.dropWhile (!isVisible ·), fun ch hch => ?_,
    fun ch hch => ?_, List.takeWhile_append_dropWhile.symm⟩
  · simpa using List.mem_takeWhile_imp hch
  · have := List.head?_dropWhile_not (!isVisible ·) text
    rw [Option.mem_def.1 hch] at this
    simpa using this

/-- The first visible character splits a text in one way only. -/
theorem gap_append_inj {gap' tail' : List Char} (hgap : IsGap gap) (hgap' : IsGap gap')
    (htail : StartsVisible tail) (htail' : StartsVisible tail')
    (h : gap ++ tail = gap' ++ tail') : gap = gap' ∧ tail = tail' := by
  induction gap generalizing gap' with
  | nil =>
    cases gap' with
    | nil => exact ⟨rfl, h⟩
    | cons ch gap' =>
      have hvisible := startsVisible_cons.1 ((show tail = ch :: (gap' ++ tail') from h) ▸ htail)
      rw [hgap' ch (by simp)] at hvisible
      cases hvisible
  | cons ch gap ih =>
    cases gap' with
    | nil =>
      have hvisible :=
        startsVisible_cons.1 ((show tail' = ch :: (gap ++ tail) from h.symm) ▸ htail')
      rw [hgap ch (by simp)] at hvisible
      cases hvisible
    | cons ch' gap' =>
      simp only [List.cons_append, List.cons.injEq] at h
      obtain ⟨rfl, rfl⟩ := ih (isGap_cons.1 hgap).2 (isGap_cons.1 hgap').2 h.2
      exact ⟨by rw [h.1], rfl⟩

/-! ### Blank lines -/

/-- The blanks at the end of a text do not reach over another character. -/
theorem rtakeWhile_append_cons {p : Char → Bool} (h : p ch = false) :
    (text ++ ch :: tail).rtakeWhile p = tail.rtakeWhile p := by
  induction tail using List.reverseRecOn with
  | nil => rw [List.rtakeWhile_concat_neg _ _ _ (by simp [h]), List.rtakeWhile_nil]
  | append_singleton tail last ih =>
    rw [← List.cons_append, ← List.append_assoc]
    by_cases hlast : p last
    · rw [List.rtakeWhile_concat_pos _ _ _ hlast, List.rtakeWhile_concat_pos _ _ _ hlast, ih]
    · rw [List.rtakeWhile_concat_neg _ _ _ hlast, List.rtakeWhile_concat_neg _ _ _ hlast]

/-- The blanks at the end of a text reach back no further than its last line break. -/
theorem rtakeWhile_append_break {ending : List Char}
    (h : ending = ['\n'] ∨ ending = ['\r'] ∨ ending = ['\r', '\n']) :
    (text ++ (ending ++ tail)).rtakeWhile isInlineBlank = tail.rtakeWhile isInlineBlank := by
  rcases h with rfl | rfl | rfl
  · exact rtakeWhile_append_cons (by decide)
  · exact rtakeWhile_append_cons (by decide)
  · rw [List.cons_append, rtakeWhile_append_cons (by decide)]
    exact @rtakeWhile_append_cons [] tail '\n' isInlineBlank (by decide)

theorem IsBlanks.rtakeWhile (h : IsBlanks text) : text.rtakeWhile isInlineBlank = text :=
  List.rtakeWhile_eq_self_iff.2 h

/-- What a gap leaves behind its first line break is a gap. -/
theorem IsGap.of_afterBreak? (h : IsGap text)
    (hrest : afterBreak? (text.dropWhile isInlineBlank) = some rest) : IsGap rest := by
  intro ch hch
  refine h ch ((List.dropWhile_suffix isInlineBlank).subset ?_)
  obtain ⟨ending, -, htext⟩ := afterBreak?_eq_some hrest
  rw [htext]
  exact List.mem_append_right _ hch

/-- Of a gap, the blanks of its last line are left. -/
theorem IsGap.afterBlankLines (h : IsGap gap) :
    afterBlankLines gap = gap.rtakeWhile isInlineBlank := by
  fun_induction Text.afterBlankLines gap with
  | case1 gap rest hrest ih =>
    obtain ⟨ending, hending, hgap⟩ := afterBreak?_eq_some hrest
    rw [ih (h.of_afterBreak? hrest),
      ← @rtakeWhile_append_break (gap.takeWhile isInlineBlank) rest ending hending, ← hgap,
      List.takeWhile_append_dropWhile]
  | case2 gap hnone =>
    refine (IsBlanks.rtakeWhile fun ch hch => ?_).symm
    -- without a line break a gap is blanks alone
    have hblank : gap.dropWhile isInlineBlank = [] := by
      cases hdrop : gap.dropWhile isInlineBlank with
      | nil => rfl
      | cons first tail =>
        have hmem : first ∈ gap :=
          (List.dropWhile_suffix isInlineBlank).subset (hdrop ▸ List.mem_cons_self)
        have hfirst := List.head?_dropWhile_not isInlineBlank gap
        rw [hdrop] at hfirst hnone
        rcases isVisible_eq_false_iff.1 (h first hmem) with hinline | hbreak
        · simp [hinline] at hfirst
        · simpa [hnone] using (@afterBreak?_isSome_iff first tail).2 hbreak
    exact List.dropWhile_eq_nil_iff.1 hblank ch hch

/-- Of a gap, only the blanks of its last line are left behind the blank lines. -/
theorem IsGap.afterBlankLines_append (h : IsGap gap) (htail : StartsVisible tail) :
    Text.afterBlankLines (gap ++ tail) = gap.rtakeWhile isInlineBlank ++ tail := by
  rw [htail.afterBlankLines_append, h.afterBlankLines]

theorem isBlanks_rtakeWhile : IsBlanks (text.rtakeWhile isInlineBlank) :=
  fun _ h => List.mem_rtakeWhile_imp h

/-- Skipping blank lines keeps the blanks of the last line, unless nothing follows them. -/
theorem IsGap.behindBlankLines_append (h : IsGap gap) (htail : StartsVisible tail) :
    behindBlankLines (gap ++ tail) =
      if tail = [] then [] else gap.rtakeWhile isInlineBlank ++ tail := by
  unfold behindBlankLines
  rw [h.afterBlankLines_append htail]
  dsimp only
  rw [isBlanks_rtakeWhile.dropWhile_append, htail.dropWhile]

/-- Behind a gap, the blank lines and the blanks after them, the visible text is left. -/
theorem IsGap.dropWhile_behindBlankLines (h : IsGap gap) (htail : StartsVisible tail) :
    (behindBlankLines (gap ++ tail)).dropWhile isInlineBlank = tail := by
  rw [h.behindBlankLines_append htail]
  split
  · next hnil => rw [hnil, List.dropWhile_nil]
  · rw [isBlanks_rtakeWhile.dropWhile_append, htail.dropWhile]

/-! ### Indents -/

/-- A run at the end of a text is not empty just if the last character belongs to it. -/
theorem rtakeWhile_ne_nil_iff {p : Char → Bool} :
    text.rtakeWhile p ≠ [] ↔ ∃ ch ∈ text.getLast?, p ch := by
  induction text using List.reverseRecOn with
  | nil => simp
  | append_singleton text last _ =>
    by_cases hlast : p last
    · rw [List.rtakeWhile_concat_pos _ _ _ hlast]
      simp [hlast]
    · rw [List.rtakeWhile_concat_neg _ _ _ hlast]
      simp [hlast]

/-- The line behind a gap that starts with a line break is indented if the gap ends with a
blank. -/
theorem IsGap.indented?_append (h : IsGap gap) (hbreak : StartsBreak gap)
    (htail : StartsVisible tail) :
    indented? (gap ++ tail) =
      if gap.rtakeWhile isInlineBlank = [] then none else some tail := by
  obtain ⟨rest, hrest⟩ := Option.isSome_iff_exists.1 (startsBreak_iff_isSome.1 hbreak)
  obtain ⟨ending, hending, hgap⟩ := afterBreak?_eq_some hrest
  have hrestGap : IsGap rest := (isGap_append.1 (hgap ▸ h)).2
  unfold indented?
  rw [htail.afterBreak?_append, hrest, Option.map_some, Option.bind_some]
  dsimp only
  rw [hrestGap.afterBlankLines_append htail, isBlanks_rtakeWhile.dropWhile_append,
    htail.dropWhile, List.length_append, hgap,
    show (ending ++ rest).rtakeWhile isInlineBlank = rest.rtakeWhile isInlineBlank from
      @rtakeWhile_append_break [] rest ending hending]
  cases hblanks : rest.rtakeWhile isInlineBlank with
  | nil => simp
  | cons ch blanks =>
    rw [if_pos (by simp), if_neg (by simp)]

/-- An indented line is what stands behind an indent. -/
theorem indented?_eq_some_iff :
    indented? text = some tail ↔ ∃ gap, IsIndent gap ∧ StartsVisible tail ∧ text = gap ++ tail := by
  constructor
  · intro h
    obtain ⟨gap, tail', hgap, htail', rfl⟩ := exists_gap text
    obtain ⟨rest, hrest, -⟩ := Option.bind_eq_some_iff.1 h
    have hbreak : StartsBreak gap := by
      have hstart := startsBreak_iff_isSome.2 (Option.isSome_of_mem hrest)
      cases gap with
      | nil => exact absurd hstart htail'.not_startsBreak
      | cons ch gap => exact startsBreak_cons.2 (startsBreak_cons.1 hstart)
    rw [hgap.indented?_append hbreak htail'] at h
    split at h
    · cases h
    · next hblanks =>
      obtain rfl := Option.some.inj h
      exact ⟨gap, ⟨hgap, hbreak, rtakeWhile_ne_nil_iff.1 hblanks⟩, htail', rfl⟩
  · rintro ⟨gap, hindent, htail, rfl⟩
    rw [hindent.isGap.indented?_append hindent.startsBreak htail,
      if_neg (rtakeWhile_ne_nil_iff.2 hindent.endsBlank)]

/-- A line break is a gap. -/
theorem IsEnding.isGap {ending : List Char} (h : IsEnding ending) : IsGap ending := by
  intro ch hch
  rcases h with rfl | rfl | rfl
  · rw [List.mem_singleton.1 hch]
    decide
  · rw [List.mem_singleton.1 hch]
    decide
  · rcases List.mem_pair.1 hch with rfl | rfl <;> decide

theorem IsEnding.startsBreak {ending : List Char} (h : IsEnding ending) :
    StartsBreak (ending ++ tail) := by
  rcases h with rfl | rfl | rfl <;> exact startsBreak_cons.2 (by decide)

theorem IsEnding.ne_nil {ending : List Char} (h : IsEnding ending) : ending ≠ [] := by
  rintro rfl
  simp [IsEnding] at h

/-- A line break does not end with a blank. -/
theorem IsEnding.not_endsBlank {ending : List Char} (h : IsEnding ending) :
    ∀ ch ∈ ending.getLast?, isInlineBlank ch = false := by
  rcases h with rfl | rfl | rfl <;> simp [isInlineBlank]

/-- A line break and a gap that ends with a blank are an indent. -/
theorem IsEnding.isIndent_of_gap {ending : List Char} (h : IsEnding ending) (hgap : IsGap gap)
    (hblanks : gap.rtakeWhile isInlineBlank ≠ []) : IsIndent (ending ++ gap) where
  isGap := isGap_append.2 ⟨h.isGap, hgap⟩
  startsBreak := h.startsBreak
  endsBlank := by
    refine rtakeWhile_ne_nil_iff.1 ?_
    rwa [show (ending ++ gap).rtakeWhile isInlineBlank = gap.rtakeWhile isInlineBlank from
      @rtakeWhile_append_break [] gap ending h]

/-- A line break and blanks are an indent. -/
theorem IsEnding.isIndent {ending blanks : List Char} (h : IsEnding ending)
    (hblanks : IsBlanks blanks) (hne : blanks ≠ []) : IsIndent (ending ++ blanks) :=
  h.isIndent_of_gap hblanks.isGap (by rwa [hblanks.rtakeWhile])

theorem IsIndent.ne_nil (h : IsIndent gap) : gap ≠ [] := by
  rintro rfl
  obtain ⟨ch, hch, -⟩ := h.startsBreak
  cases hch

/-- An indent may lose what stands in front of one of its line breaks. -/
theorem IsIndent.of_append (h : IsIndent (text ++ gap)) (hbreak : StartsBreak gap) :
    IsIndent gap where
  isGap := (isGap_append.1 h.isGap).2
  startsBreak := hbreak
  endsBlank := by
    have hne : gap ≠ [] := by
      rintro rfl
      obtain ⟨ch, hch, -⟩ := hbreak
      cases hch
    rw [← List.getLast?_append_of_ne_nil text hne]
    exact h.endsBlank

/-- A blank line in front of an indent belongs to it. -/
theorem IsIndent.blankLine {ending blanks : List Char} (h : IsIndent gap)
    (hending : IsEnding ending)
    (hblanks : IsBlanks blanks) : IsIndent (ending ++ (blanks ++ gap)) where
  isGap := isGap_append.2 ⟨hending.isGap, isGap_append.2 ⟨hblanks.isGap, h.isGap⟩⟩
  startsBreak := hending.startsBreak
  endsBlank := by
    rw [← List.append_assoc, List.getLast?_append_of_ne_nil _ h.ne_nil]
    exact h.endsBlank

/-! ### Texts that end with a line break -/

theorem EndsLine.ne_nil (h : EndsLine text) : text ≠ [] := by
  rintro rfl
  simp [EndsLine] at h

/-- Whether a text ends its line is decided by its last part. -/
theorem endsLine_append (h : tail ≠ []) : EndsLine (text ++ tail) ↔ EndsLine tail := by
  unfold EndsLine
  rw [List.getLast?_append_of_ne_nil _ h]

/-- What is left of a text that ends with a line break ends with one, too. -/
theorem EndsLine.of_append (h : EndsLine (text ++ tail)) : tail = [] ∨ EndsLine tail := by
  by_cases hnil : tail = []
  · exact .inl hnil
  · exact .inr ((endsLine_append hnil).1 h)

/-- Blanks in front do not end a line, so what follows them does. -/
theorem EndsLine.of_append_blanks (h : EndsLine (text ++ tail)) (htext : IsBlanks text) :
    EndsLine tail := by
  rcases h.of_append with rfl | htail
  · obtain ⟨ch, hch, hbreak⟩ := h
    rw [List.append_nil] at hch
    have hinline := htext ch (List.mem_of_getLast? hch)
    rw [not_isLineBreak_of_isInlineBlank hinline] at hbreak
    cases hbreak
  · exact htail

/-- A first character that is no line break does not end the line. -/
theorem EndsLine.of_cons (h : EndsLine (ch :: text)) (hch : isLineBreak ch = false) :
    EndsLine text := by
  rcases @EndsLine.of_append [ch] text h with rfl | htext
  · obtain ⟨last, hlast, hbreak⟩ := h
    obtain rfl : ch = last := by simpa using hlast
    simp [hch] at hbreak
  · exact htext

/-- A class without line breaks does not reach the end of a line. -/
theorem EndsLine.dropWhile {p : Char → Bool} (hp : ∀ ch, isLineBreak ch → p ch = false)
    (h : EndsLine text) : EndsLine (text.dropWhile p) := by
  have hsplit := List.takeWhile_append_dropWhile (p := p) (l := text)
  rw [← hsplit] at h
  rcases h.of_append with hnil | hdrop
  · rw [hnil, List.append_nil] at h
    obtain ⟨ch, hch, hbreak⟩ := h
    have hmem := List.mem_takeWhile_imp (List.mem_of_getLast? hch)
    rw [hp ch hbreak] at hmem
    cases hmem
  · exact hdrop

/-- Dropping characters other than line breaks stops within a text that ends its line. -/
theorem EndsLine.dropWhile_append {p : Char → Bool} (hp : ∀ ch, isLineBreak ch → p ch = false)
    (h : EndsLine text) : (text ++ tail).dropWhile p = text.dropWhile p ++ tail := by
  rw [List.dropWhile_append, if_neg (by simpa using (h.dropWhile hp).ne_nil)]

/-- A run of characters other than line breaks stays within a text that ends its line. -/
theorem EndsLine.takeWhile_append {p : Char → Bool} (hp : ∀ ch, isLineBreak ch → p ch = false)
    (h : EndsLine text) : (text ++ tail).takeWhile p = text.takeWhile p := by
  have hlength : (text.takeWhile p).length ≠ text.length := by
    intro heq
    have hsplit := congrArg List.length (List.takeWhile_append_dropWhile (p := p) (l := text))
    rw [List.length_append, heq] at hsplit
    exact (h.dropWhile hp).ne_nil (List.length_eq_zero_iff.1 (by omega))
  rw [List.takeWhile_append, if_neg hlength]

/-- An indent starts with its line break, so there are no blanks to drop. -/
theorem IsIndent.dropWhile_append (h : IsIndent gap) :
    (gap ++ tail).dropWhile isInlineBlank = gap ++ tail := by
  cases gap with
  | nil => simpa [StartsBreak] using h.startsBreak
  | cons ch gap =>
    simp [not_isInlineBlank_of_isLineBreak (startsBreak_cons.1 h.startsBreak)]

/-- Behind an indent a text that ends with a line break goes on. -/
theorem IsIndent.endsLine_of_append (h : IsIndent gap) (hline : EndsLine (gap ++ tail)) :
    EndsLine tail := by
  rcases hline.of_append with rfl | htail
  · obtain ⟨ch, hch, hbreak⟩ := hline
    obtain ⟨last, hlast, hblank⟩ := h.endsBlank
    rw [List.append_nil] at hch
    obtain rfl : ch = last := Option.some.inj (hch.symm.trans hlast)
    rw [not_isLineBreak_of_isInlineBlank hblank] at hbreak
    cases hbreak
  · exact htail

end Localization.Text
