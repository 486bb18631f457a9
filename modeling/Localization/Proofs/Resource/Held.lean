import Localization.Proofs.Text.Slices
import Localization.Resource.Parse

/-!
# What is held of a source

Offsets are bounded, so of a source that is too long only a start is read: the longest one that ends
at a character boundary within the bound. All other sources are held, and read, as a whole.

## Main statements

* `Cursor.prefix_held_iff` — what is held is the longest start within the bound
* `Cursor.held_append` — what is held of two sources in a row
* `Resource.ofText_of_fits`, `Entry.ofText_of_fits` — sources within the bound
-/

namespace Localization

namespace Cursor

variable {source front first second : List Char}

theorem held_of_fits (h : Fits source) : held source = source := if_pos h

theorem held_eq_takeWithin (source : List Char) :
    held source = Text.takeWithin Span.maxOffset source := by
  unfold held
  split
  · next hfits => exact (Text.takeWithin_of_le hfits).symm
  · rfl

/-- What is cut out of a source that fits does so as well. -/
theorem Fits.of_isInfix {text : List Char} (h : Fits source) (htext : text <:+: source) :
    Fits text :=
  (Text.byteLength_le_of_isInfix htext).trans h

/-- What is held of a source is the longest start of it that fits. -/
theorem prefix_held_iff : front <+: held source ↔ front <+: source ∧ Fits front := by
  rw [held_eq_takeWithin]
  exact Text.prefix_takeWithin_iff

theorem held_isPrefix (source : List Char) : held source <+: source :=
  (prefix_held_iff.1 List.prefix_rfl).1

theorem fits_held (source : List Char) : Fits (held source) :=
  (prefix_held_iff.1 List.prefix_rfl).2

/-- Behind what is held of one source stands a start of the next, and nothing if the first is
cut. -/
theorem held_append (first second : List Char) :
    ∃ rest, held (first ++ second) = held first ++ rest ∧ rest <+: second ∧
      (rest = [] ∨ held first = first) := by
  by_cases hfits : Fits first
  · refine ⟨Text.takeWithin (Span.maxOffset - Text.byteLength first) second, ?_,
      Text.takeWithin_isPrefix _ _, .inr (held_of_fits hfits)⟩
    rw [held_eq_takeWithin, held_of_fits hfits, Text.takeWithin_append hfits]
  · refine ⟨[], ?_, List.nil_prefix, .inl rfl⟩
    have hfirst : held first <+: held (first ++ second) :=
      prefix_held_iff.2 ⟨(held_isPrefix first).trans (List.prefix_append _ _), fits_held first⟩
    -- what is held of both ends within the first, which does not fit as a whole
    have hboth : held (first ++ second) <+: first := by
      rcases List.prefix_or_prefix_of_prefix (held_isPrefix (first ++ second))
        (List.prefix_append first second) with hwithin | hbeyond
      · exact hwithin
      · exact absurd ((fits_held _).of_isInfix hbeyond.isInfix) hfits
    have hback := prefix_held_iff.2 ⟨hboth, fits_held _⟩
    rw [List.append_nil]
    exact (hfirst.eq_of_length_le hback.length_le).symm

end Cursor

variable {source : List Char}

/-- A source that fits is read as a whole. -/
theorem Resource.ofText_of_fits (h : Cursor.Fits source) : ofText source = read source :=
  congrArg read (Cursor.held_of_fits h)

theorem Entry.ofText_of_fits (h : Cursor.Fits source) : ofText source = read source :=
  congrArg read (Cursor.held_of_fits h)

end Localization
