import Localization.Proofs.Number.Denotation
import Localization.Proofs.Number.Range
import Mathlib.Data.ENat.Lattice

/-!
# The shape of formatted numbers

A formatted number is again a decimal text, with as many digits behind the point as its bounds ask
for. But a text that is padded or cut is printed from the rounded value, and a number that is out of
the range of binary numbers has none: it is shown as `inf`, which is no decimal text.

## Main definitions

* `HasPlaces` — decimal texts with a given number of digits behind the point

## Main statements

* `HasPlaces.parts_places` — the number of these digits
* `FractionDigits.coe_clamp` — how two bounds limit a number of digits
* `Number.hasPlaces_fixedText` — the shape of a finite number that is printed
* `Number.format_keeps_shape` — the shape of a number that is formatted
-/

namespace Localization

/-- A decimal text with a number of digits behind its point, and with no point if that is zero. -/
inductive HasPlaces : ℕ → List Char → Prop
  | whole {sign digits} : sign = [] ∨ sign = ['-'] → IsDigits digits → HasPlaces 0 (sign ++ digits)
  | fraction {sign digits places} : sign = [] ∨ sign = ['-'] → IsDigits digits →
      IsDigits places → HasPlaces places.length (sign ++ (digits ++ '.' :: places))

section

variable {text : List Char} {count : ℕ}

theorem IsDecimal.exists_hasPlaces (h : IsDecimal text) : ∃ count, HasPlaces count text := by
  cases h with
  | whole hsign hdigits => exact ⟨_, .whole hsign hdigits⟩
  | fraction hsign hdigits hplaces => exact ⟨_, .fraction hsign hdigits hplaces⟩

namespace HasPlaces

theorem isDecimal (h : HasPlaces count text) : IsDecimal text := by
  cases h with
  | whole hsign hdigits => exact .whole hsign hdigits
  | fraction hsign hdigits hplaces => exact .fraction hsign hdigits hplaces

/-- A text with places can be read as a number. -/
theorem isSome_parse? {text : String} (h : HasPlaces count text.toList) :
    (Number.parse? text).isSome := by
  obtain ⟨n, hparse, -, -⟩ := h.isDecimal.exists_number
  exact Option.isSome_of_eq_some hparse

/-- The digits behind the point are those that a text is cut into. -/
theorem parts_places (h : HasPlaces count text) :
    (Number.Parts.ofText text).places.length = count := by
  have hsigned : ∀ {sign : List Char}, (sign = [] ∨ sign = ['-']) →
      ∃ negative, sign = signOf negative := by
    rintro sign (rfl | rfl)
    · exact ⟨false, rfl⟩
    · exact ⟨true, rfl⟩
  cases h with
  | whole hsign hdigits =>
    obtain ⟨negative, rfl⟩ := hsigned hsign
    rw [Number.Parts.ofText_digits negative hdigits]
    rfl
  | fraction hsign hdigits hplaces =>
    obtain ⟨negative, rfl⟩ := hsigned hsign
    rw [Number.Parts.ofText_point negative hdigits]
    rfl

theorem fractionLength_eq {n : Number} (h : HasPlaces count n.raw.toList) :
    n.fractionLength = count :=
  n.fractionLength_eq.trans h.parts_places

end HasPlaces

end

/-- The minimum is limited and a lower bound, and the maximum, limited too, wins over it. -/
theorem FractionDigits.coe_clamp (bounds : FractionDigits) (count : ℕ) :
    (bounds.clamp count : ℕ∞) =
      min ((max count (min (bounds.minimum.getD 0) 20) : ℕ) : ℕ∞)
        (bounds.maximum.elim ⊤ fun maximum => ((min maximum 20 : ℕ) : ℕ∞)) := by
  have hminimum : (bounds.minimum.map (min limit)).getD 0 = min (bounds.minimum.getD 0) 20 := by
    cases bounds.minimum with
    | none => rfl
    | some minimum => exact min_comm _ _
  unfold clamp
  rw [hminimum]
  cases bounds.maximum with
  | none => exact (min_top_right _).symm
  | some maximum =>
    rw [Option.elim_some, min_comm maximum]
    exact_mod_cast rfl

namespace Number

/-! ### Printed numbers -/

theorem hasPlaces_positional (negative : Bool) (digits places : ℕ) :
    HasPlaces places (signOf negative ++ (Decimal.positional digits places).toList) := by
  rcases Nat.eq_zero_or_pos places with rfl | hplaces
  · rw [Decimal.toList_positional_zero]
    exact .whole (signOf_or negative) (isDigits_toDigits digits)
  · obtain ⟨whole, fraction, hwhole, hfraction, rfl, -, htext⟩ :=
      Decimal.exists_positional digits hplaces
    rw [htext]
    exact .fraction (signOf_or negative) hwhole hfraction

/-- A finite number is printed with as many places as are asked for. -/
theorem hasPlaces_fixedText (negative : Bool) (mantissa : ℕ) (exponent : ℤ) (places : ℕ) :
    HasPlaces places
      (Binary64.fixedText places (.finite negative mantissa exponent)).toList := by
  unfold Binary64.fixedText
  rw [Binary64.toList_signed]
  exact hasPlaces_positional negative _ places

theorem parse?_infinite (negative : Bool) : parse? (Binary64.signed negative "inf") = none := by
  cases negative <;> decide +kernel

/-! ### Formatted numbers -/

variable {n : Number}

/-- A number that is not out of range has the places that its bounds ask for. -/
theorem IsWritten.hasPlaces_format (h : n.IsWritten)
    (hrange : n.bounds.clamp n.fractionLength = n.fractionLength ∨
      |n.rational| < Binary64.overflow) :
    HasPlaces (n.bounds.clamp n.fractionLength) n.format.toList := by
  by_cases hsame : n.bounds.clamp n.fractionLength = n.fractionLength
  · obtain ⟨count, hcount⟩ := h.isDecimal.exists_hasPlaces
    rw [format_eq_raw hsame, hsame, hcount.fractionLength_eq]
    exact hcount
  · have hsmall := hrange.resolve_left hsame
    rw [n.abs_rational] at hsmall
    obtain ⟨m, e, hfinite⟩ := Binary64.exists_nearest_of_lt_overflow n.parts.negative
      n.parts.magnitude_nonneg hsmall
    rw [format_eq_fixedText hsame, h.value_eq, hfinite]
    exact hasPlaces_fixedText _ m e _

/-- A number that is out of range loses its digits. -/
theorem IsWritten.format_of_overflow (h : n.IsWritten)
    (hchanged : n.bounds.clamp n.fractionLength ≠ n.fractionLength)
    (hlarge : Binary64.overflow ≤ |n.rational|) :
    n.format = Binary64.signed n.parts.negative "inf" := by
  rw [n.abs_rational] at hlarge
  have hinfinite := (Binary64.nearest_eq_infinite_iff n.parts.negative
    n.parts.magnitude_nonneg).2 hlarge
  rw [format_eq_fixedText hchanged, h.value_eq, hinfinite]
  rfl

/-- A number that is formatted is a decimal text again, with the places that the bounds ask for,
unless it is out of range and these are not the places that it was written with. Then it is shown as
an infinite number, which cannot be read. -/
theorem format_keeps_shape {text : String} (hparse : parse? text = some n)
    (bounds : FractionDigits) :
    ∃ current count : ℕ, HasPlaces current n.raw.toList ∧
      (count : ℕ∞) = min ((max current (min (bounds.minimum.getD 0) 20) : ℕ) : ℕ∞)
        (bounds.maximum.elim ⊤ fun maximum => ((min maximum 20 : ℕ) : ℕ∞)) ∧
      (count = current ∨ |n.rational| < Binary64.overflow →
        HasPlaces count (n.withBounds bounds).format.toList ∧
          (parse? (n.withBounds bounds).format).isSome) ∧
      (count ≠ current → Binary64.overflow ≤ |n.rational| →
        (n.withBounds bounds).format = Binary64.signed n.parts.negative "inf" ∧
          parse? (n.withBounds bounds).format = none) := by
  have hwritten := IsWritten.bounded bounds (.parsed hparse)
  obtain ⟨current, hcurrent⟩ := hwritten.isDecimal.exists_hasPlaces
  have hlength : (n.withBounds bounds).fractionLength = current := hcurrent.fractionLength_eq
  refine ⟨current, bounds.clamp current, hcurrent, bounds.coe_clamp current, ?_, ?_⟩
  · intro hrange
    rw [← hlength] at hrange ⊢
    have hshape := hwritten.hasPlaces_format hrange
    exact ⟨hshape, hshape.isSome_parse?⟩
  · intro hchanged hlarge
    rw [← hlength] at hchanged
    have hformat := hwritten.format_of_overflow hchanged hlarge
    rw [hformat]
    exact ⟨rfl, parse?_infinite _⟩

/-- The maximum wins over the minimum. -/
theorem format_keeps_shape_contradictory :
    parse? "-1.25" = some ⟨"-1.25", .ofDecimal true 125 2, default⟩ ∧
    HasPlaces 1 (Number.format ⟨"-1.25", .ofDecimal true 125 2, ⟨some 4, some 1⟩⟩).toList := by
  have hparse : parse? "-1.25" = some ⟨"-1.25", .ofDecimal true 125 2, default⟩ := by
    decide +kernel
  obtain ⟨current, count, hcurrent, hcount, hshape, -⟩ :=
    format_keeps_shape hparse ⟨some 4, some 1⟩
  obtain rfl : current = 2 := hcurrent.fractionLength_eq.symm.trans (by decide +kernel)
  obtain rfl : count = 1 := by
    have : (count : ℕ∞) = (1 : ℕ) := hcount
    exact_mod_cast this
  have hvalue : |rational ⟨"-1.25", .ofDecimal true 125 2, default⟩| = 5 / 4 := by decide +kernel
  refine ⟨hparse, (hshape (.inr ?_)).1⟩
  rw [hvalue]
  calc (5 / 4 : ℚ) < 2 ^ 52 := by norm_num
    _ ≤ 2 ^ (1023 : ℤ) := Binary64.two_pow_le_range
    _ ≤ Binary64.overflow := Binary64.two_pow_le_overflow

/-- Two zeros behind the point of `10 ^ 309` cannot be shown: it is out of range. -/
theorem format_keeps_shape_infinite :
    ∃ n, parse? (String.ofList ('1' :: List.replicate 309 '0')) = some n ∧
      (n.withBounds ⟨some 2, none⟩).format = "inf" ∧
      ¬∃ count, HasPlaces count (n.withBounds ⟨some 2, none⟩).format.toList := by
  have hdigits : IsDigits ('1' :: List.replicate 309 '0') := isDigits_iff.1 (by decide +kernel)
  have hshape : HasPlaces 0 (String.ofList ('1' :: List.replicate 309 '0')).toList := by
    rw [String.toList_ofList]
    exact .whole (.inl rfl) hdigits
  obtain ⟨n, hparse, -, hraw⟩ := hshape.isDecimal.exists_number
  rw [← hraw] at hshape
  have hparts : n.parts = ⟨false, '1' :: List.replicate 309 '0', none⟩ := by
    unfold parts
    rw [hraw, String.toList_ofList]
    exact Parts.ofText_digits false hdigits
  have hlarge : Binary64.overflow ≤ |n.rational| := by
    have hvalue : digitsValue ('1' :: List.replicate 309 '0') = 10 ^ 309 := by decide +kernel
    have hpower : (2 : ℚ) ^ 1024 ≤ 10 ^ 309 := by
      exact_mod_cast show 2 ^ 1024 ≤ 10 ^ 309 by decide +kernel
    rw [n.abs_rational, hparts, Parts.magnitude_whole, hvalue, Nat.cast_pow]
    exact (sub_le_self _ (Binary64.two_zpow_pos 970).le).trans hpower
  have hchanged : (n.withBounds ⟨some 2, none⟩).bounds.clamp
      (n.withBounds ⟨some 2, none⟩).fractionLength ≠
        (n.withBounds ⟨some 2, none⟩).fractionLength := by
    rw [show (n.withBounds ⟨some 2, none⟩).fractionLength = 0 from hshape.fractionLength_eq]
    change FractionDigits.clamp ⟨some 2, none⟩ 0 ≠ 0
    decide
  have hformat : (n.withBounds ⟨some 2, none⟩).format = "inf" := by
    rw [(IsWritten.bounded _ (.parsed hparse)).format_of_overflow hchanged hlarge]
    change Binary64.signed n.parts.negative "inf" = "inf"
    rw [hparts]
    rfl
  refine ⟨n, hparse, hformat, ?_⟩
  rintro ⟨count, hshown⟩
  rw [hformat] at hshown
  exact absurd hshown.isSome_parse? (by decide +kernel)

end Number

end Localization
