import Localization.Proofs.Resource.Offsets
import Localization.Proofs.Resource.Yields

/-!
# Alignments

An alignment relates the cursors of two readings of one text, which may differ in their offsets and
in how they are written, so that each step of the grammar leads from related cursors to related
ones. Not every step goes through at the end of the text, where only the second reading may go on;
so there are two relations, and the steps that look at what follows ask for the stronger one.

## Main definitions

* `Alignment` — related cursors, and what each step makes of them

## Main statements

* `Alignment.Beside.takes_line` — related cursors stay related within a line
-/

namespace Localization

open Text (IsBlanks byteLength)

/-- How the cursors of two readings of a text correspond. -/
structure Alignment where
  /-- Where an offset of the first reading lies in the second one. -/
  shift : Nat → Nat
  /-- Cursors at corresponding places. -/
  Followed : Cursor → Cursor → Prop
  /-- Cursors without pending lookahead at corresponding places. -/
  Abuts : Cursor → Cursor → Prop
  /-- Cursors without pending lookahead at corresponding places in front of the same text. -/
  Beside : Cursor → Cursor → Prop
  monotone : Monotone shift
  followed_offset : ∀ {c d}, Followed c d → d.offset = shift c.offset
  followed_congr : ∀ {c d c' d' : Cursor}, Followed c d → c'.here = c.here → d'.here = d.here →
    Followed c' d'
  abuts_followed : ∀ {c d}, Abuts c d → Followed c d
  abuts_ready : ∀ {c d}, Abuts c d → c.Ready ∧ d.Ready
  abuts_skipInlineBlanks : ∀ {c d}, Abuts c d → Abuts c.skipInlineBlanks d.skipInlineBlanks
  abuts_skipBlankLines : ∀ {c d}, Abuts c d → Abuts c.skipBlankLines.2 d.skipBlankLines.2
  /-- Where a line is indented, the text goes on. -/
  abuts_indented : ∀ {c d}, Abuts c d →
    (shift c.skipInlineBlanks.offset = shift c.offset ↔ c.skipInlineBlanks.offset = c.offset) ∧
      (c.skipInlineBlanks.offset ≠ c.offset → Beside c.skipInlineBlanks d.skipInlineBlanks)
  /-- A character that starts no entry is not found where only the second reading goes on. -/
  abuts_char : ∀ {c d}, Abuts c d → ∀ {ch}, ch ≠ '\n' → isEntryStart ch = false →
    Beside c d ∨ c.current ≠ some ch ∧ d.current ≠ some ch
  beside_abuts : ∀ {c d}, Beside c d → Abuts c d
  beside_current : ∀ {c d}, Beside c d → d.current = c.current
  beside_next : ∀ {c d}, Beside c d → ∀ {ch}, c.current = some ch → ch ≠ '\n' →
    Beside c.next d.next
  beside_break : ∀ {c d}, Beside c d → c.current = some '\n' → Abuts c.next d.next
  beside_skipWhile : ∀ {c d}, Beside c d → ∀ {p}, (∀ ch, isLineBreak ch → p ch = false) →
    Beside (c.skipWhile p) (d.skipWhile p) ∧ (d.takeWhile p).1 = (c.takeWhile p).1
  beside_skipIndent : ∀ {c d}, Beside c d → Abuts c.skipIndent d.skipIndent
  beside_value : ∀ {c d}, Beside c d → Text.startsValue c.here.rest →
    Beside c.skipIndent d.skipIndent
  beside_nextLine : ∀ {c d}, Beside c d → Text.startsPattern c.here.rest →
    Beside c.next.skipInlineBlanks d.next.skipInlineBlanks
  /-- Blanks that have been read are as long in both readings. -/
  beside_blanks : ∀ {c d c' d'}, Beside c d → Beside c' d' → ∀ {taken blanks},
    c.Takes (taken ++ blanks) c' → IsBlanks blanks →
    shift (c'.offset - byteLength blanks) = shift c'.offset - byteLength blanks
  beside_remaining : ∀ {c d c' d'}, Beside c d → Beside c' d' →
    (d'.remaining < d.remaining ↔ c'.remaining < c.remaining)
  startsPattern : ∀ {c d}, Beside c d →
    Text.startsPattern d.here.rest = Text.startsPattern c.here.rest
  startsAttribute : ∀ {c d}, Beside c d →
    Text.startsAttribute d.here.rest = Text.startsAttribute c.here.rest
  startsVariant : ∀ {c d}, Beside c d →
    Text.startsVariant d.here.rest = Text.startsVariant c.here.rest
  startsValue : ∀ {c d}, Beside c d → Text.startsValue d.here.rest = Text.startsValue c.here.rest
  startsNumber : ∀ {c d}, Beside c d → Text.startsNumber d.here.rest = Text.startsNumber c.here.rest
  startsArrow : ∀ {c d}, Beside c d → Text.startsArrow d.here.rest = Text.startsArrow c.here.rest

namespace Alignment

variable {A : Alignment} {c d : Cursor}

theorem Abuts.toFollowed (h : A.Abuts c d) : A.Followed c d := A.abuts_followed h

/-- Offsets on the one side are shifted on the other. -/
theorem Followed.offset (h : A.Followed c d) : d.offset = A.shift c.offset := A.followed_offset h

namespace Beside

variable (h : A.Beside c d)
include h

theorem toAbuts : A.Abuts c d := A.beside_abuts h

theorem toFollowed : A.Followed c d := A.abuts_followed (A.beside_abuts h)

theorem left : c.Ready := (A.abuts_ready (A.beside_abuts h)).1

theorem right : d.Ready := (A.abuts_ready (A.beside_abuts h)).2

theorem current : d.current = c.current := A.beside_current h

/-- A character that is no line break is taken on both sides. -/
theorem next {ch : Char} (hc : c.current = some ch) (hne : ch ≠ '\n') : A.Beside c.next d.next :=
  A.beside_next h hc hne

theorem skipInlineBlanks : A.Beside c.skipInlineBlanks d.skipInlineBlanks :=
  (A.beside_skipWhile h fun _ => Text.not_isInlineBlank_of_isLineBreak).1

/-- Both sides answer alike whether a pattern goes on. -/
theorem isNextLinePattern : d.isNextLinePattern = (Text.startsPattern c.here.rest, d) := by
  rw [h.right.isNextLinePattern, A.startsPattern h]

theorem isNextLineAttribute : d.isNextLineAttribute = (Text.startsAttribute c.here.rest, d) := by
  rw [h.right.isNextLineAttribute, A.startsAttribute h]

/-- Both sides answer alike whether a variant follows. -/
theorem isNextLineVariant : d.isNextLineVariant = (Text.startsVariant c.here.rest, d) := by
  rw [h.right.isNextLineVariant, A.startsVariant h]

theorem isValueStart : d.isValueStart = (Text.startsValue c.here.rest, d) := by
  rw [h.right.isValueStart, A.startsValue h]

theorem isNumberStart : d.isNumberStart = (Text.startsNumber c.here.rest, d) := by
  rw [h.right.isNumberStart, A.startsNumber h]

omit h in
/-- Within a line both readings read the same text. -/
theorem takes_line {text rest : List Char} (h : A.Beside c d)
    (hline : ∀ ch ∈ text, isLineBreak ch = false) (hrest : c.here.rest = text ++ rest) :
    ∃ c' d', c.Takes text c' ∧ d.Takes text d' ∧ A.Beside c' d' := by
  induction text generalizing c d with
  | nil => exact ⟨c, d, .refl h.left, .refl h.right, h⟩
  | cons ch text ih =>
    obtain ⟨hch, hline⟩ := List.forall_mem_cons.1 hline
    have hcurrent := Cursor.current_of_cons hch hrest
    have hne : ch ≠ '\n' := fun heq => by rw [heq] at hch; cases hch
    have hleft := h.left.next_takes hch hrest
    have hright := h.right.next_takes_of_current hne (h.current.trans hcurrent)
    obtain ⟨c', d', hleft', hright', h'⟩ := ih (h.next hcurrent hne) hline (hleft.rest_eq hrest)
    exact ⟨c', d', hleft.trans hleft', hright.trans hright', h'⟩

omit h in
/-- Within a line offsets are shifted by as much. -/
theorem shift_line {text rest : List Char} (h : A.Beside c d)
    (hline : ∀ ch ∈ text, isLineBreak ch = false) (hrest : c.here.rest = text ++ rest) :
    A.shift (c.offset + byteLength text) = A.shift c.offset + byteLength text := by
  obtain ⟨c', d', hleft, hright, h'⟩ := h.takes_line hline hrest
  rw [← hleft.offset, ← h'.toFollowed.offset, hright.offset, h.toFollowed.offset]

end Beside

end Alignment

end Localization
