import Localization.Text.LineTable
import Localization.Resource.CharClass

/-!
# Lines ahead

What the grammar asks about the lines ahead, as functions of the text behind a position: the text
behind a line break, the text behind blank lines, and the text of the next line with content if
that line is indented. Each of them looks no further than the first character that is neither a
blank nor part of a line break, so text behind such a character makes no difference.

## Main definitions

* `Text.afterBreak?` — the text behind a line break
* `Text.afterBlankLines` — the text from the first line with content on
* `Text.indented?` — the content of the next line with content, if that line is indented

## Main statements

* `Text.indented?_append` — text from a visible character on stays as it is
-/

namespace Localization.Text

/-- Characters that are neither blanks nor part of a line break. -/
def isVisible (c : Char) : Bool := !isInlineBlank c && !isLineBreak c

/-- A text that is empty or starts with a visible character. -/
def StartsVisible (text : List Char) : Prop := ∀ c ∈ text.head?, isVisible c

/-- The blanks within a line are the space and the tab. -/
theorem isInlineBlank_iff {c : Char} : isInlineBlank c ↔ c = ' ' ∨ c = '\t' := by
  simp [isInlineBlank]

/-- The characters of line breaks are the line feed and the carriage return. -/
theorem isLineBreak_iff {c : Char} : isLineBreak c ↔ c = '\n' ∨ c = '\r' := by
  simp [isLineBreak]

theorem not_isInlineBlank_of_isLineBreak {c : Char} (h : isLineBreak c) :
    isInlineBlank c = false := by
  rcases isLineBreak_iff.1 h with rfl | rfl <;> decide

/-- The text behind the line break at the start of a text. -/
def afterBreak? : List Char → Option (List Char)
  | '\r' :: '\n' :: rest => some rest
  | '\r' :: rest => some rest
  | '\n' :: rest => some rest
  | _ => none

@[simp] theorem afterBreak?_nil : afterBreak? [] = none := rfl

theorem afterBreak?_cons_of_not {c : Char} (h : isLineBreak c = false) (rest : List Char) :
    afterBreak? (c :: rest) = none := by
  have hn : c ≠ '\n' := by rintro rfl; exact absurd h (by decide)
  have hr : c ≠ '\r' := by rintro rfl; exact absurd h (by decide)
  unfold afterBreak?
  split <;> simp_all

/-- The three line breaks. -/
def IsEnding (ending : List Char) : Prop :=
  ending = ['\n'] ∨ ending = ['\r'] ∨ ending = ['\r', '\n']

/-- A text with a line break in front is that line break and what lies behind it. -/
theorem afterBreak?_eq_some {text rest : List Char} (h : afterBreak? text = some rest) :
    ∃ ending, IsEnding ending ∧ text = ending ++ rest := by
  unfold IsEnding
  unfold afterBreak? at h
  split at h <;> simp_all

/-- A text with a line break in front is one of the three line breaks and the rest, where a lone CR
has no line feed behind it. -/
theorem afterBreak?_eq_some_iff {text rest : List Char} :
    afterBreak? text = some rest ↔
      ∃ ending, IsEnding ending ∧ (ending = ['\r'] → rest.head? ≠ some '\n') ∧
        text = ending ++ rest := by
  constructor
  · intro h
    obtain ⟨ending, hending, rfl⟩ := afterBreak?_eq_some h
    refine ⟨ending, hending, ?_, rfl⟩
    rintro rfl
    cases rest with
    | nil => simp
    | cons c rest =>
      rintro ⟨⟩
      simp [afterBreak?] at h
  · rintro ⟨ending, hending, hfeed, rfl⟩
    rcases hending with rfl | rfl | rfl
    · rfl
    · cases rest with
      | nil => rfl
      | cons c rest =>
        have hc : c ≠ '\n' := by simpa using hfeed rfl
        unfold afterBreak?
        split <;> simp_all
    · rfl

/-- A line break stands in front just if the first character belongs to one. -/
theorem afterBreak?_isSome_iff {c : Char} {rest : List Char} :
    (afterBreak? (c :: rest)).isSome ↔ isLineBreak c := by
  constructor
  · intro h
    obtain ⟨behind, hbehind⟩ := Option.isSome_iff_exists.1 h
    obtain ⟨ending, hending, htext⟩ := afterBreak?_eq_some hbehind
    rcases hending with rfl | rfl | rfl <;> simp_all [isLineBreak]
  · intro h
    rcases isLineBreak_iff.1 h with rfl | rfl
    · rfl
    · unfold afterBreak?
      split <;> simp_all

/-- Behind a line break the text is shorter. -/
theorem afterBreak?_length_lt {text rest : List Char} (h : afterBreak? text = some rest) :
    rest.length < text.length := by
  obtain ⟨ending, hending, rfl⟩ := afterBreak?_eq_some h
  rw [List.length_append]
  rcases hending with rfl | rfl | rfl <;> simp only [List.length_cons, List.length_nil] <;> omega

/-- A CR without a line feed behind it is a line break of its own. -/
theorem afterBreak?_carriageReturn_cons {c : Char} (h : c ≠ '\n') (rest : List Char) :
    afterBreak? ('\r' :: c :: rest) = some (c :: rest) := by
  unfold afterBreak?
  split <;> simp_all

/-- A line break is not changed by what stands behind the text, unless the two join. -/
theorem afterBreak?_append {text rest tail : List Char} (h : afterBreak? text = some rest)
    (htail : rest = [] → tail.head? ≠ some '\n') :
    afterBreak? (text ++ tail) = some (rest ++ tail) := by
  obtain ⟨ending, hending, rfl⟩ := afterBreak?_eq_some h
  rcases hending with rfl | rfl | rfl
  · rfl
  · cases rest with
    | nil =>
      cases tail with
      | nil => rfl
      | cons c tail => exact afterBreak?_carriageReturn_cons (by simpa using htail rfl) _
    | cons c rest =>
      refine afterBreak?_carriageReturn_cons ?_ _
      rintro rfl
      simp [afterBreak?] at h
  · rfl

/-- A text that is not empty has no more line breaks in front if text is added behind it. -/
theorem afterBreak?_append_eq_none {text tail : List Char} (hne : text ≠ [])
    (h : afterBreak? text = none) : afterBreak? (text ++ tail) = none := by
  cases text with
  | nil => exact absurd rfl hne
  | cons c rest =>
    refine afterBreak?_cons_of_not (Bool.eq_false_iff.2 fun hc => ?_) _
    simpa [h] using (@afterBreak?_isSome_iff c rest).2 hc

/-- The text from the first line with content on; the last line counts even if it is blank. -/
def afterBlankLines (text : List Char) : List Char :=
  match _h : afterBreak? (text.dropWhile isInlineBlank) with
  | some rest => afterBlankLines rest
  | none => text
termination_by text.length
decreasing_by
  have := afterBreak?_length_lt _h
  have := (List.dropWhile_suffix (l := text) isInlineBlank).length_le
  omega

/-- A blank line is passed over with its line break. -/
theorem afterBlankLines_of_break {text rest : List Char}
    (h : afterBreak? (text.dropWhile isInlineBlank) = some rest) :
    afterBlankLines text = afterBlankLines rest := by
  rw [afterBlankLines]
  split
  · next behind hbehind => rw [show behind = rest by simpa [hbehind] using h]
  · next hnone => simp [hnone] at h

/-- A line that is not blank is left with its blanks. -/
theorem afterBlankLines_of_none {text : List Char}
    (h : afterBreak? (text.dropWhile isInlineBlank) = none) : afterBlankLines text = text := by
  rw [afterBlankLines]
  split
  · next behind hbehind => simp [hbehind] at h
  · rfl

/-- The text behind blank lines and behind a blank end. -/
def behindBlankLines (text : List Char) : List Char :=
  let line := afterBlankLines text
  if line.dropWhile isInlineBlank = [] then [] else line

/-- A blank line is passed over with its line break. -/
theorem behindBlankLines_of_break {text rest : List Char}
    (h : afterBreak? (text.dropWhile isInlineBlank) = some rest) :
    behindBlankLines text = behindBlankLines rest := by
  unfold behindBlankLines
  rw [afterBlankLines_of_break h]

/-- The content of the next line with content, from a line break on, if that line is indented. -/
def indented? (text : List Char) : Option (List Char) :=
  (afterBreak? text).bind fun rest =>
    let line := afterBlankLines rest
    let content := line.dropWhile isInlineBlank
    if content.length < line.length then some content else none

/-! ### Text behind a visible character -/

variable {text tail : List Char}

/-- Text behind a visible character does not change how many blanks are dropped in front of it. -/
theorem StartsVisible.dropWhile_append (h : StartsVisible tail) :
    (text ++ tail).dropWhile isInlineBlank = text.dropWhile isInlineBlank ++ tail := by
  have hdrop : tail.dropWhile isInlineBlank = tail := by
    cases tail with
    | nil => rfl
    | cons c tail =>
      have hc : isVisible c := h c rfl
      simp_all [isVisible]
  rw [List.dropWhile_append, hdrop]
  split <;> simp_all

/-- Visible text behind a text is not part of the line break in front. -/
theorem StartsVisible.afterBreak?_append (h : StartsVisible tail) :
    afterBreak? (text ++ tail) = (afterBreak? text).map (· ++ tail) := by
  cases htext : afterBreak? text with
  | some rest =>
    refine Text.afterBreak?_append htext fun _ hhead => ?_
    exact absurd (h '\n' hhead) (by decide)
  | none =>
    cases text with
    | cons c text => exact afterBreak?_append_eq_none (by simp) htext
    | nil =>
      cases tail with
      | nil => rfl
      | cons c tail =>
        have hc : isVisible c := h c rfl
        exact afterBreak?_cons_of_not (by simp_all [isVisible]) tail

/-- Visible text behind a text is not part of the blank lines in front. -/
theorem StartsVisible.afterBlankLines_append (h : StartsVisible tail) :
    afterBlankLines (text ++ tail) = afterBlankLines text ++ tail := by
  fun_induction afterBlankLines text with
  | case1 text rest hrest ih =>
    rw [← ih]
    apply afterBlankLines_of_break
    rw [h.dropWhile_append, h.afterBreak?_append, hrest]
    rfl
  | case2 text hnone =>
    apply afterBlankLines_of_none
    rw [h.dropWhile_append, h.afterBreak?_append, hnone]
    rfl

/-- From a visible character on, the text makes no difference to the next line's indentation. -/
theorem indented?_append (h : StartsVisible tail) :
    indented? (text ++ tail) = (indented? text).map (· ++ tail) := by
  unfold indented?
  rw [h.afterBreak?_append]
  cases afterBreak? text with
  | none => rfl
  | some rest =>
    simp only [Option.map_some, Option.bind_some]
    rw [h.afterBlankLines_append, h.dropWhile_append]
    simp only [List.length_append, Nat.add_lt_add_iff_right]
    split <;> rfl

end Localization.Text

/-! ### Classes without line breaks -/

namespace Localization

variable {ch : Char}

theorem isIdentifierStart_of_isLineBreak (h : isLineBreak ch) : isIdentifierStart ch = false := by
  rcases Text.isLineBreak_iff.1 h with rfl | rfl <;> decide

theorem isIdentifierChar_of_isLineBreak (h : isLineBreak ch) : isIdentifierChar ch = false := by
  rcases Text.isLineBreak_iff.1 h with rfl | rfl <;> decide

theorem isVariantNameChar_of_isLineBreak (h : isLineBreak ch) :
    isVariantNameChar ch = false := by
  rcases Text.isLineBreak_iff.1 h with rfl | rfl <;> decide

theorem isDigit_of_isLineBreak (h : isLineBreak ch) : ch.isDigit = false := by
  rcases Text.isLineBreak_iff.1 h with rfl | rfl <;> decide

theorem isHexDigit_of_isLineBreak (h : isLineBreak ch) : isHexDigit ch = false := by
  rcases Text.isLineBreak_iff.1 h with rfl | rfl <;> decide

theorem isLineBreak_of_isIdentifierStart (h : isIdentifierStart ch) : isLineBreak ch = false := by
  cases hbreak : isLineBreak ch with
  | false => rfl
  | true =>
    rw [isIdentifierStart_of_isLineBreak hbreak] at h
    cases h

theorem isUpper_iff_toNat : ch.isUpper ↔ 65 ≤ ch.toNat ∧ ch.toNat ≤ 90 :=
  decide_eq_true_iff.trans (and_congr UInt32.le_iff_toNat_le UInt32.le_iff_toNat_le)

theorem isLower_iff_toNat : ch.isLower ↔ 97 ≤ ch.toNat ∧ ch.toNat ≤ 122 :=
  (Bool.and_eq_true_iff.trans (and_congr decide_eq_true_iff decide_eq_true_iff)).trans
    (and_congr UInt32.le_iff_toNat_le UInt32.le_iff_toNat_le)

/-- What starts a name is no digit. -/
theorem isDigit_of_isIdentifierStart (h : isIdentifierStart ch) : ch.isDigit = false := by
  cases hdigit : ch.isDigit with
  | false => rfl
  | true =>
    have hnine : ch.toNat ≤ 57 := (Char.isDigit_iff_toNat.1 hdigit).2
    rcases Bool.or_eq_true_iff.1 (show (ch.isUpper || ch.isLower) = true from h) with h | h
    · have hupper := (isUpper_iff_toNat.1 h).1
      omega
    · have hlower := (isLower_iff_toNat.1 h).1
      omega

end Localization
