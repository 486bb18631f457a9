import Localization.Proofs.Text.Slices
import Mathlib.Order.Monotone.Basic

/-!
# Line breaks folded into line feeds

A line ends with a line feed, a carriage return, or the two in that order. Folding writes one line
feed for each of them. Nothing that the grammar asks about a text tells a text from its fold, as
long as the text is never cut between a carriage return and its line feed.

## Main definitions

* `Text.foldBreaks` — a text with a line feed for each of its line breaks
* `Text.foldOffset` — where an offset of a text lies in its fold

## Main statements

* `Text.foldBreaks_append` — two texts may be folded one by one, unless they join in a line break
* `Text.afterBreak?_foldBreaks`, `Text.behindBlankLines_foldBreaks`, `Text.indented?_foldBreaks` —
  the lines ahead, folded
-/

namespace Localization.Text

/-- A text with a line feed for each of its line breaks. -/
def foldBreaks : List Char → List Char
  | [] => []
  | '\r' :: '\n' :: rest => '\n' :: foldBreaks rest
  | ch :: rest => (if isLineBreak ch then '\n' else ch) :: foldBreaks rest

example : foldBreaks "a\r\nb\rc\n".toList = "a\nb\nc\n".toList := by decide

/-- Where an offset of a text lies in its fold: as many bytes lie before it as the fold of the text
before it takes. -/
def foldOffset (source : List Char) (offset : Nat) : Nat :=
  byteLength (foldBreaks (takeWithin offset source))

variable {text rest tail : List Char} {ch : Char} {p : Char → Bool}

/-! ### Folding piece by piece -/

@[simp] theorem foldBreaks_nil : foldBreaks [] = [] := rfl

theorem foldBreaks_cons (h : ch = '\r' → rest.head? ≠ some '\n') :
    foldBreaks (ch :: rest) = (if isLineBreak ch then '\n' else ch) :: foldBreaks rest := by
  rw [foldBreaks]
  rintro tail rfl rfl
  exact h rfl rfl

theorem foldBreaks_cons_of_not (h : isLineBreak ch = false) :
    foldBreaks (ch :: rest) = ch :: foldBreaks rest := by
  rw [foldBreaks_cons (by rintro rfl; cases h), h]
  rfl

/-- Two texts may be folded one by one, unless they join in a line break. -/
theorem foldBreaks_append (h : ¬Joins text rest) :
    foldBreaks (text ++ rest) = foldBreaks text ++ foldBreaks rest := by
  fun_induction foldBreaks text with
  | case1 => rfl
  | case2 text ih =>
    rw [List.cons_append, List.cons_append, foldBreaks, ih, List.cons_append]
    rintro ⟨hlast, hhead⟩
    exact h ⟨by rw [List.getLast?_cons, List.getLast?_cons, hlast]; rfl, hhead⟩
  | case3 ch text hcrlf ih =>
    have hsplit : ch = '\r' → (text ++ rest).head? ≠ some '\n' := by
      rintro rfl
      cases text with
      | nil => exact fun hhead => h ⟨rfl, hhead⟩
      | cons second text =>
        rintro ⟨⟩
        exact hcrlf text rfl rfl
    rw [List.cons_append, foldBreaks_cons hsplit, ih, List.cons_append]
    rintro ⟨hlast, hhead⟩
    exact h ⟨by rw [List.getLast?_cons, hlast]; rfl, hhead⟩

/-- A text without line breaks is its own fold. -/
theorem foldBreaks_of_forall (h : ∀ ch ∈ text, isLineBreak ch = false) :
    foldBreaks text = text := by
  induction text with
  | nil => rfl
  | cons ch text ih =>
    obtain ⟨hch, htext⟩ := List.forall_mem_cons.1 h
    rw [foldBreaks_cons_of_not hch, ih htext]

theorem IsBlanks.foldBreaks (h : IsBlanks text) : foldBreaks text = text :=
  foldBreaks_of_forall fun ch hch => not_isLineBreak_of_isInlineBlank (h ch hch)

theorem foldBreaks_eq_nil : foldBreaks text = [] ↔ text = [] := by
  fun_cases foldBreaks text <;> simp

/-- A fold takes no more bytes than the text. -/
theorem byteLength_foldBreaks_le (text : List Char) :
    byteLength (foldBreaks text) ≤ byteLength text := by
  fun_induction foldBreaks text with
  | case1 => exact Nat.le_refl _
  | case2 rest ih =>
    simp only [byteLength_cons]
    omega
  | case3 ch rest _ ih =>
    have hch : (if isLineBreak ch then '\n' else ch).utf8Size ≤ ch.utf8Size := by
      split
      · exact ch.utf8Size_pos
      · exact Nat.le_refl _
    simp only [byteLength_cons]
    omega

/-- A beginning of a text is folded into a beginning of its fold. -/
theorem foldBreaks_prefix (text rest : List Char) :
    foldBreaks text <+: foldBreaks (text ++ rest) := by
  by_cases hjoins : Joins text rest
  · obtain ⟨hlast, hhead⟩ := hjoins
    obtain ⟨before, rfl⟩ := List.getLast?_eq_some_iff.1 hlast
    obtain ⟨after, rfl⟩ := List.head?_eq_some_iff.1 hhead
    have hreturn : ∀ more : List Char, ¬Joins before ('\r' :: more) :=
      fun more => not_joins_of_head? (by simp)
    rw [foldBreaks_append (hreturn []), List.append_assoc, List.singleton_append,
      foldBreaks_append (hreturn _)]
    exact (List.prefix_append_right_inj _).2 ⟨foldBreaks after, rfl⟩
  · rw [foldBreaks_append hjoins]
    exact List.prefix_append _ _

/-- Folding turns a line break in front into a line feed. -/
theorem head?_foldBreaks :
    (foldBreaks text).head? = text.head?.map fun ch => if isLineBreak ch then '\n' else ch := by
  fun_cases foldBreaks text <;> rfl

theorem getLast?_foldBreaks :
    (foldBreaks text).getLast? = text.getLast?.map fun ch =>
      if isLineBreak ch then '\n' else ch := by
  fun_induction foldBreaks text with
  | case1 => rfl
  | case2 text ih =>
    rw [List.getLast?_cons, List.getLast?_cons, List.getLast?_cons, ih]
    cases text.getLast? <;> rfl
  | case3 ch text _ ih =>
    rw [List.getLast?_cons, List.getLast?_cons, ih]
    cases text.getLast? <;> rfl

/-- Whether a text ends its line does not depend on how line breaks are written. -/
theorem endsLine_foldBreaks : EndsLine (foldBreaks text) ↔ EndsLine text := by
  unfold EndsLine
  rw [getLast?_foldBreaks]
  cases text.getLast? with
  | none => simp
  | some ch => by_cases hch : isLineBreak ch <;> simp [hch, show isLineBreak '\n' from rfl]

/-- A question that does not tell the line breaks apart may be asked about the fold. -/
theorem any_head?_foldBreaks (h : p '\r' = p '\n') :
    (foldBreaks text).head?.any p = text.head?.any p := by
  rw [head?_foldBreaks]
  cases text with
  | nil => rfl
  | cons ch rest =>
    simp only [List.head?_cons, Option.map_some, Option.any_some]
    split
    · next hbreak => rcases isLineBreak_iff.1 hbreak with rfl | rfl <;> simp [h]
    · rfl

/-! ### Classes without line breaks -/

section Class

variable (hp : ∀ ch, isLineBreak ch → p ch = false)
include hp

theorem dropWhile_foldBreaks : (foldBreaks text).dropWhile p = foldBreaks (text.dropWhile p) := by
  fun_induction foldBreaks text with
  | case1 => rfl
  | case2 text ih =>
    rw [List.dropWhile_cons_of_neg (by simp [hp '\n' rfl]),
      List.dropWhile_cons_of_neg (by simp [hp '\r' rfl]), foldBreaks]
  | case3 ch text hcrlf ih =>
    by_cases hch : p ch
    · have hbreak : isLineBreak ch = false := by
        by_contra hbreak
        rw [hp ch (by simpa using hbreak)] at hch
        cases hch
      rw [hbreak, if_neg (by simp), List.dropWhile_cons_of_pos hch, ih,
        List.dropWhile_cons_of_pos hch]
    · have hfold : ¬p (if isLineBreak ch then '\n' else ch) := by
        split
        · simp [hp '\n' rfl]
        · exact hch
      rw [List.dropWhile_cons_of_neg hfold, List.dropWhile_cons_of_neg hch, foldBreaks]
      exact hcrlf

theorem takeWhile_foldBreaks : (foldBreaks text).takeWhile p = text.takeWhile p := by
  fun_induction foldBreaks text with
  | case1 => rfl
  | case2 text ih =>
    rw [List.takeWhile_cons_of_neg (by simp [hp '\n' rfl]),
      List.takeWhile_cons_of_neg (by simp [hp '\r' rfl])]
  | case3 ch text hcrlf ih =>
    by_cases hch : p ch
    · have hbreak : isLineBreak ch = false := by
        by_contra hbreak
        rw [hp ch (by simpa using hbreak)] at hch
        cases hch
      rw [hbreak, if_neg (by simp), List.takeWhile_cons_of_pos hch, ih,
        List.takeWhile_cons_of_pos hch]
    · have hfold : ¬p (if isLineBreak ch then '\n' else ch) := by
        split
        · simp [hp '\n' rfl]
        · exact hch
      rw [List.takeWhile_cons_of_neg hfold, List.takeWhile_cons_of_neg hch]

end Class

/-! ### The lines ahead -/

/-- A line break in front is passed over in the folded text just if it is in the text. -/
theorem afterBreak?_foldBreaks :
    afterBreak? (foldBreaks text) = (afterBreak? text).map foldBreaks := by
  fun_cases foldBreaks text with
  | case1 => rfl
  | case2 text => rfl
  | case3 ch text hcrlf =>
    by_cases hbreak : isLineBreak ch
    · have hrest : afterBreak? (ch :: text) = some text := by
        rw [afterBreak?_eq_some_iff]
        refine ⟨[ch], by simpa [IsEnding, isLineBreak_iff] using hbreak, ?_, rfl⟩
        rintro ⟨⟩ hhead
        obtain ⟨tail, rfl⟩ := List.head?_eq_some_iff.1 hhead
        exact hcrlf tail rfl rfl
      rw [hrest, if_pos hbreak]
      rfl
    · rw [if_neg hbreak, afterBreak?_cons_of_not (by simpa using hbreak),
        afterBreak?_cons_of_not (by simpa using hbreak), Option.map_none]

theorem dropWhile_isInlineBlank_foldBreaks :
    (foldBreaks text).dropWhile isInlineBlank = foldBreaks (text.dropWhile isInlineBlank) :=
  dropWhile_foldBreaks fun _ => not_isInlineBlank_of_isLineBreak

theorem afterBlankLines_foldBreaks :
    afterBlankLines (foldBreaks text) = foldBreaks (afterBlankLines text) := by
  fun_induction afterBlankLines text with
  | case1 text rest hrest ih =>
    rw [← ih, afterBlankLines_of_break]
    rw [dropWhile_isInlineBlank_foldBreaks, afterBreak?_foldBreaks, hrest, Option.map_some]
  | case2 text hnone =>
    rw [afterBlankLines_of_none]
    rw [dropWhile_isInlineBlank_foldBreaks, afterBreak?_foldBreaks, hnone, Option.map_none]

/-- Blank lines are passed over alike in both texts. -/
theorem behindBlankLines_foldBreaks :
    behindBlankLines (foldBreaks text) = foldBreaks (behindBlankLines text) := by
  unfold behindBlankLines
  dsimp only
  rw [afterBlankLines_foldBreaks, dropWhile_isInlineBlank_foldBreaks]
  simp only [foldBreaks_eq_nil]
  split <;> rfl

theorem dropWhile_length_lt_iff (p : Char → Bool) (text : List Char) :
    (text.dropWhile p).length < text.length ↔ text.takeWhile p ≠ [] := by
  have hlength := congrArg List.length (List.takeWhile_append_dropWhile (p := p) (l := text))
  rw [List.length_append] at hlength
  rw [← List.length_pos_iff]
  omega

theorem indented?_foldBreaks : indented? (foldBreaks text) = (indented? text).map foldBreaks := by
  unfold indented?
  rw [afterBreak?_foldBreaks]
  cases afterBreak? text with
  | none => rfl
  | some rest =>
    simp only [Option.map_some, Option.bind_some]
    rw [afterBlankLines_foldBreaks, dropWhile_isInlineBlank_foldBreaks]
    have hindented : (foldBreaks ((afterBlankLines rest).dropWhile isInlineBlank)).length <
        (foldBreaks (afterBlankLines rest)).length ↔
        ((afterBlankLines rest).dropWhile isInlineBlank).length <
          (afterBlankLines rest).length := by
      rw [← dropWhile_isInlineBlank_foldBreaks, dropWhile_length_lt_iff, dropWhile_length_lt_iff,
        takeWhile_foldBreaks fun _ => not_isInlineBlank_of_isLineBreak]
    simp only [hindented]
    split <;> rfl

/-! ### Offsets -/

theorem byteLength_eq_zero_iff : byteLength text = 0 ↔ text = [] := by
  cases text with
  | nil => simp
  | cons ch text =>
    have hpos := ch.utf8Size_pos
    rw [byteLength_cons]
    exact iff_of_false (by omega) (List.cons_ne_nil _ _)

/-- A text in front of another takes some bytes of the fold exactly if it takes some bytes. -/
theorem byteLength_foldBreaks_append {before : List Char} (h : ¬Joins (before ++ text) rest) :
    byteLength (foldBreaks (text ++ rest)) =
        byteLength (foldBreaks text) + byteLength (foldBreaks rest) ∧
      (byteLength (foldBreaks text) = 0 ↔ byteLength text = 0) := by
  refine ⟨?_, by rw [byteLength_eq_zero_iff, byteLength_eq_zero_iff, foldBreaks_eq_nil]⟩
  rw [foldBreaks_append, byteLength_append]
  rintro ⟨hlast, hhead⟩
  exact h ⟨by rw [List.getLast?_append, hlast]; rfl, hhead⟩

/-- The offset behind a beginning of the text lies behind the fold of that beginning. -/
theorem foldOffset_append (text rest : List Char) :
    foldOffset (text ++ rest) (byteLength text) = byteLength (foldBreaks text) := by
  rw [foldOffset, takeWithin_append_byteLength]

/-- Folding keeps the order of offsets. -/
theorem foldOffset_monotone (source : List Char) : Monotone (foldOffset source) := by
  intro m n h
  obtain ⟨more, hmore⟩ := takeWithin_isPrefix_of_le source h
  obtain ⟨more', hmore'⟩ := foldBreaks_prefix (takeWithin m source) more
  rw [foldOffset, foldOffset, ← hmore, ← hmore', byteLength_append]
  exact Nat.le_add_right _ _

end Localization.Text
