import Localization.Proofs.Format.NumberTexts
import Localization.Proofs.Number.Rounding

/-!
# What number texts denote

A decimal text denotes a rational number. The value that a number keeps beside its text is the
binary number nearest to it, both where the text has been read and where it has been written for an
integer.

## Main definitions

* `Number.Parts.magnitude`, `Number.Parts.rational` — the rational of a text that has been cut
* `Denotes` — a decimal text and the rational that it denotes
* `Number.IsWritten` — numbers that are read from a text or made of an integer
* `Number.rational` — the rational that the text of a number denotes

## Main statements

* `Binary64.denotes_fixedText` — a text with a fixed number of places denotes the rounded number
* `Number.IsWritten.value_eq` — the value of a number is the one nearest to its text
-/

namespace Localization

open Binary64 (nearest withSign)

/-! ### Digits -/

theorem IsDigits.ne_point {digits : List Char} (h : IsDigits digits) : ∀ ch ∈ digits, ch ≠ '.' := by
  rintro ch hch rfl
  exact absurd (h.2 _ hch) (by decide)

/-- The minus sign of a text, if it has one. -/
def signOf (negative : Bool) : List Char := if negative then ['-'] else []

theorem signOf_or (negative : Bool) : signOf negative = [] ∨ signOf negative = ['-'] := by
  cases negative <;> simp [signOf]

namespace Number

variable {digits behind : List Char}

/-- The digits of a number have the value of that number. -/
theorem digitsValue_toDigits (n : ℕ) : digitsValue (Nat.toDigits 10 n) = n :=
  Nat.ofDigitChars_ten_toDigits

/-- Digits have a value below the power of ten that has one digit more. -/
theorem digitsValue_lt (h : ∀ ch ∈ digits, ch.isDigit) :
    digitsValue digits < 10 ^ digits.length := by
  induction digits using List.reverseRecOn with
  | nil => decide
  | append_singleton digits ch ih =>
    obtain ⟨hdigits, hch⟩ := List.forall_mem_append.1 h
    have hdigit : 48 ≤ ch.toNat ∧ ch.toNat ≤ 57 :=
      Char.isDigit_iff_toNat.1 (hch ch List.mem_cons_self)
    have hlt := ih hdigits
    have hstep : digitsValue (digits ++ [ch]) = 10 * digitsValue digits + (ch.toNat - 48) := by
      unfold digitsValue
      rw [List.foldl_append]
      rfl
    rw [hstep, List.length_append, List.length_singleton, pow_succ]
    omega

/-- A number is written with at least one digit. -/
theorem isDigits_toDigits (n : ℕ) : IsDigits (Nat.toDigits 10 n) :=
  ⟨Nat.toDigits_ne_nil, fun _ => Nat.isDigit_of_mem_toDigits (by decide) (by decide)⟩

/-- Zeros in front of digits change nothing. -/
theorem digitsValue_replicate_append (count : ℕ) (digits : List Char) :
    digitsValue (List.replicate count '0' ++ digits) = digitsValue digits := by
  change Nat.ofDigitChars 10 _ 0 = Nat.ofDigitChars 10 _ 0
  rw [Nat.ofDigitChars_append, Nat.ofDigitChars_replicate_zero, Nat.mul_zero]

namespace Parts

/-- A text has a sign just if a minus stands in front. -/
theorem ofText_negative (negative : Bool) {rest : List Char} (h : rest.head? ≠ some '-') :
    (ofText (signOf negative ++ rest)).negative = negative := by
  cases negative
  · exact decide_eq_false h
  · rfl

/-- A sign and digits are a number without places. -/
theorem ofText_digits (negative : Bool) (h : IsDigits digits) :
    ofText (signOf negative ++ digits) = ⟨negative, digits, none⟩ := by
  have hhead := @IsDigits.head?_ne digits [] '-' h (by decide)
  rw [List.append_nil] at hhead
  have hsign : IsSign (signOf negative) digits := (signOf_or negative).symm.imp_right (⟨·, hhead⟩)
  obtain ⟨hwhole, hfraction⟩ := ofText_whole hsign h.ne_point
  have hnegative := ofText_negative negative hhead
  cases hparts : ofText (signOf negative ++ digits)
  simp_all

/-- A sign, digits, a point and digits are a number with places. -/
theorem ofText_point (negative : Bool) (h : IsDigits digits) :
    ofText (signOf negative ++ (digits ++ '.' :: behind)) = ⟨negative, digits, some behind⟩ := by
  have hhead := @IsDigits.head?_ne digits ('.' :: behind) '-' h (by decide)
  have hsign : IsSign (signOf negative) (digits ++ '.' :: behind) :=
    (signOf_or negative).symm.imp_right (⟨·, hhead⟩)
  obtain ⟨hwhole, hfraction⟩ := ofText_fraction hsign h.ne_point
  have hnegative := ofText_negative negative hhead
  cases hparts : ofText (signOf negative ++ (digits ++ '.' :: behind))
  simp_all

/-- The digits behind the point. -/
def places (parts : Parts) : List Char := parts.fraction.getD []

/-- The rational that the digits of a text denote. -/
def magnitude (parts : Parts) : ℚ :=
  digitsValue (parts.whole ++ parts.places) / 10 ^ parts.places.length

/-- The rational that a text denotes, its sign included. -/
def rational (parts : Parts) : ℚ := withSign parts.negative parts.magnitude

theorem magnitude_nonneg (parts : Parts) : 0 ≤ parts.magnitude := by
  unfold magnitude
  positivity

/-- Without a point a text denotes the number of its digits. -/
theorem magnitude_whole (negative : Bool) (digits : List Char) :
    magnitude ⟨negative, digits, none⟩ = digitsValue digits := by
  change (digitsValue (digits ++ []) : ℚ) / 10 ^ 0 = _
  rw [List.append_nil, pow_zero, div_one]

/-- On a decimal grid that is fine enough a text denotes a number of steps. -/
theorem magnitude_mul_pow (parts : Parts) {count : ℕ} (h : parts.places.length ≤ count) :
    parts.magnitude * 10 ^ count =
      (digitsValue (parts.whole ++ parts.places) * 10 ^ (count - parts.places.length) : ℕ) := by
  obtain ⟨more, rfl⟩ := Nat.exists_eq_add_of_le h
  unfold magnitude
  rw [Nat.add_sub_cancel_left, pow_add]
  push_cast
  field_simp

/-- The sign does not count for the absolute value. -/
theorem abs_rational (parts : Parts) : |parts.rational| = parts.magnitude := by
  unfold rational withSign
  split_ifs
  · rw [abs_neg, abs_of_nonneg parts.magnitude_nonneg]
  · exact abs_of_nonneg parts.magnitude_nonneg

end Parts

end Number

/-- A decimal text and the rational that it denotes. -/
def Denotes (text : List Char) (q : ℚ) : Prop :=
  IsDecimal text ∧ (Number.Parts.ofText text).rational = q

/-! ### Texts with a fixed number of places -/

/-- Without places there is no point, and no zero is put in front. -/
theorem Decimal.toList_positional_zero (digits : ℕ) :
    (positional digits 0).toList = Nat.toDigits 10 digits := by
  have hpositive : 0 < (Nat.toDigits 10 digits).length :=
    List.length_pos_of_ne_nil Nat.toDigits_ne_nil
  have hnone : 0 + 1 - (Nat.toDigits 10 digits).length = 0 := by omega
  simp [positional, hnone]

/-- With places, digits stand on both sides of the point, and together they are the number. -/
theorem Decimal.exists_positional (digits : ℕ) {places : ℕ} (hplaces : 0 < places) :
    ∃ whole fraction, IsDigits whole ∧ IsDigits fraction ∧ fraction.length = places ∧
      Number.digitsValue (whole ++ fraction) = digits ∧
      (positional digits places).toList = whole ++ '.' :: fraction := by
  unfold positional
  simp only [if_neg hplaces.ne', String.toList_ofList]
  set all := List.replicate (places + 1 - (Nat.toDigits 10 digits).length) '0' ++
    Nat.toDigits 10 digits with hall
  -- there is a digit in front of the point, and as many behind it as there are places
  have hlength : places < all.length := by
    rw [hall, List.length_append, List.length_replicate]
    omega
  have hdigits : ∀ ch ∈ all, ch.isDigit := by
    intro ch hch
    rcases List.mem_append.1 hch with hzero | hch
    · rw [List.eq_of_mem_replicate hzero]
      rfl
    · exact (Number.isDigits_toDigits digits).2 ch hch
  have hcount : (all.drop (all.length - places)).length = places := by
    rw [List.length_drop]
    omega
  refine ⟨_, _, ⟨fun hnil => ?_, fun ch hch => hdigits ch (List.mem_of_mem_take hch)⟩,
    ⟨fun hnil => ?_, fun ch hch => hdigits ch (List.mem_of_mem_drop hch)⟩, hcount, ?_, rfl⟩
  · have := congrArg List.length hnil
    rw [List.length_take, List.length_nil] at this
    omega
  · rw [hnil, List.length_nil] at hcount
    exact hplaces.ne hcount
  · rw [List.take_append_drop, hall, Number.digitsValue_replicate_append,
      Number.digitsValue_toDigits]

/-- A positional text is a decimal text that denotes its digits, with the sign that stands before
it also where they are zero. -/
theorem Decimal.parts_positional (negative : Bool) (digits places : ℕ) :
    let text := signOf negative ++ (positional digits places).toList
    IsDecimal text ∧ (Number.Parts.ofText text).negative = negative ∧
      (Number.Parts.ofText text).magnitude = digits / 10 ^ places := by
  dsimp only
  rcases Nat.eq_zero_or_pos places with rfl | hplaces
  · have hdigits := Number.isDigits_toDigits digits
    rw [toList_positional_zero, Number.Parts.ofText_digits negative hdigits,
      Number.Parts.magnitude_whole, Number.digitsValue_toDigits, pow_zero, div_one]
    exact ⟨.whole (signOf_or negative) hdigits, rfl, rfl⟩
  · obtain ⟨whole, fraction, hwhole, hfraction, rfl, rfl, htext⟩ :=
      exists_positional digits hplaces
    rw [htext, Number.Parts.ofText_point negative hwhole]
    exact ⟨.fraction (signOf_or negative) hwhole hfraction, rfl, rfl⟩

/-- A decimal that is written out denotes its digits divided by the power of its places. -/
theorem denotes_positional (negative : Bool) (digits places : ℕ) :
    Denotes (signOf negative ++ (Decimal.positional digits places).toList)
      (withSign negative (digits / 10 ^ places)) := by
  obtain ⟨hdecimal, hnegative, hmagnitude⟩ := Decimal.parts_positional negative digits places
  exact ⟨hdecimal, by rw [Number.Parts.rational, hnegative, hmagnitude]⟩

namespace Binary64

/-- A decimal is rounded to the nearest double. -/
theorem ofDecimal_eq (negative : Bool) (digits places : ℕ) :
    ofDecimal negative digits places = nearest negative (digits / 10 ^ places) := by
  have hpos : 0 < 10 ^ places := Nat.pow_pos (by decide)
  rw [ofDecimal, Nat.pow_eq, ofRatio_eq negative digits hpos, Nat.cast_pow]
  rfl

/-- An integer is rounded to the nearest double. -/
theorem ofInt_eq (i : ℤ) : ofInt i = nearest (i < 0) i.natAbs := by
  rw [ofInt, ofRatio_eq _ _ one_pos, Nat.cast_one, div_one]

theorem toList_signed (negative : Bool) (text : String) :
    (signed negative text).toList = signOf negative ++ text.toList := by
  cases negative
  · rfl
  · exact String.toList_append

/-- A binary number with a fixed number of places is rounded to a multiple of the last one. -/
theorem denotes_fixedText (negative : Bool) (mantissa : ℕ) (exponent : ℤ) (places : ℕ) :
    Denotes (fixedText places (.finite negative mantissa exponent)).toList
      (withSign negative
        (roundHalfEven (mantissa * 2 ^ exponent * 10 ^ places) / 10 ^ places)) := by
  have hround : roundDiv ((ratio mantissa exponent).1 * Nat.pow 10 places)
      (ratio mantissa exponent).2 = roundHalfEven (mantissa * 2 ^ exponent * 10 ^ places) := by
    rw [roundDiv_eq _ (ratio_snd_pos _ _), ← ratio_eq, div_mul_eq_mul_div, Nat.pow_eq]
    push_cast
    rfl
  change Denotes (signed negative (Decimal.positional
    (roundDiv ((ratio mantissa exponent).1 * Nat.pow 10 places) (ratio mantissa exponent).2)
    places)).toList _
  rw [toList_signed, hround]
  exact denotes_positional negative _ places

end Binary64

/-! ### Numbers -/

namespace Number

/-- A number that is read from a text or made of an integer, with any bounds. -/
inductive IsWritten : Number → Prop
  | parsed {text n} : parse? text = some n → IsWritten n
  | integer (i : ℤ) : IsWritten (ofInt i)
  | bounded {n} (bounds : FractionDigits) : IsWritten n → IsWritten (n.withBounds bounds)

/-- The parts of the text of a number. -/
def parts (n : Number) : Parts := Parts.ofText n.raw.toList

/-- The rational that the text of a number denotes. -/
def rational (n : Number) : ℚ := n.parts.rational

theorem abs_rational (n : Number) : |n.rational| = n.parts.magnitude := n.parts.abs_rational

/-- A number is a double just if its absolute value is. -/
theorem isExact_magnitude (n : Number) :
    Binary64.IsExact n.parts.magnitude ↔ Binary64.IsExact n.rational := by
  unfold Binary64.IsExact
  rw [abs_of_nonneg n.parts.magnitude_nonneg, n.abs_rational]

variable {n : Number}

theorem fractionLength_eq (n : Number) : n.fractionLength = n.parts.places.length := by
  unfold fractionLength Parts.places
  cases h : (Parts.ofText n.raw.toList).fraction <;> simp [parts, h]

/-- An integer is written as its sign and the digits of its absolute value. -/
theorem toList_toString (i : ℤ) :
    (toString i).toList = signOf (i < 0) ++ Nat.toDigits 10 i.natAbs := by
  rw [Int.toString_eq_repr, Int.repr_eq_if]
  by_cases hneg : 0 ≤ i
  · rw [if_pos hneg, Nat.toList_repr, show i.toNat = i.natAbs by omega]
    simp [signOf, hneg]
  · rw [if_neg hneg, String.toList_append, Nat.toList_repr, show (-i).toNat = i.natAbs by omega]
    simp [signOf, not_le.1 hneg]

/-- A number that is made from an integer has that integer's sign and digits, and no places. -/
theorem parts_ofInt (i : ℤ) : (ofInt i).parts = ⟨i < 0, Nat.toDigits 10 i.natAbs, none⟩ := by
  unfold parts
  rw [show (ofInt i).raw.toList = _ from toList_toString i]
  exact Parts.ofText_digits _ (isDigits_toDigits _)

/-- The text of a number that is written is a decimal text. -/
theorem IsWritten.isDecimal (h : n.IsWritten) : IsDecimal n.raw.toList := by
  induction h with
  | @parsed text n hparse =>
    rw [raw_of_parse? hparse, String.toList_ofList]
    exact isSome_parse?_iff.1 (by simp [hparse])
  | integer i =>
    rw [show (ofInt i).raw.toList = _ from toList_toString i]
    exact .whole (signOf_or _) (isDigits_toDigits _)
  | bounded bounds _ ih => exact ih

/-- The digits of a number, read without the point, stay below the power of ten of their count. -/
theorem IsWritten.digitsValue_lt (h : n.IsWritten) :
    digitsValue (n.parts.whole ++ n.parts.places) <
      10 ^ (n.parts.whole ++ n.parts.places).length := by
  have hdigits := Parts.isDecimal_iff.2 h.isDecimal
  rw [Bool.and_eq_true, isDigits_iff] at hdigits
  refine Number.digitsValue_lt (List.forall_mem_append.2 ⟨hdigits.1.2, ?_⟩)
  change ∀ ch ∈ (Parts.ofText n.raw.toList).fraction.getD [], ch.isDigit
  cases hfraction : (Parts.ofText n.raw.toList).fraction with
  | none => simp
  | some places =>
    rw [hfraction, Option.all_some, isDigits_iff] at hdigits
    exact hdigits.2.2

/-- With the zeros added that a count of places asks for, fifteen digits are not too many. -/
theorem IsWritten.digitsValue_lt_two_pow (h : n.IsWritten) {count : ℕ}
    (hle : n.parts.places.length ≤ count) (hdigits : n.parts.whole.length + count ≤ 15) :
    digitsValue (n.parts.whole ++ n.parts.places) * 10 ^ (count - n.parts.places.length) <
      2 ^ 52 := by
  calc _ < 10 ^ (n.parts.whole ++ n.parts.places).length *
        10 ^ (count - n.parts.places.length) :=
        Nat.mul_lt_mul_of_pos_right h.digitsValue_lt (Nat.pow_pos (by decide))
    _ = 10 ^ (n.parts.whole.length + count) := by
        rw [← pow_add, List.length_append]
        congr 1
        omega
    _ ≤ 10 ^ 15 := Nat.pow_le_pow_right (by decide) hdigits
    _ < 2 ^ 52 := by decide

/-- A written number denotes its rational value. -/
theorem IsWritten.denotes (h : n.IsWritten) : Denotes n.raw.toList n.rational :=
  ⟨h.isDecimal, rfl⟩

/-- The value of a number that is written is the one nearest to its text. -/
theorem IsWritten.value_eq (h : n.IsWritten) :
    n.value = nearest n.parts.negative n.parts.magnitude := by
  induction h with
  | @parsed text n hparse =>
    have hraw := raw_of_parse? hparse
    unfold parse? at hparse
    dsimp only at hparse
    split_ifs at hparse
    cases hparse
    unfold parts
    rw [hraw, String.toList_ofList, Parts.magnitude, Parts.places, ← Binary64.ofDecimal_eq]
  | integer i =>
    rw [parts_ofInt, Parts.magnitude_whole, digitsValue_toDigits]
    exact Binary64.ofInt_eq i
  | bounded bounds _ ih => exact ih

/-- A number that is made from an integer has that integer as its value. -/
theorem rational_ofInt (i : ℤ) : (ofInt i).rational = i := by
  unfold rational
  rw [parts_ofInt]
  simp only [Parts.rational, Parts.magnitude_whole, withSign, digitsValue_toDigits]
  by_cases hneg : i < 0
  · rw [decide_eq_true hneg, if_pos rfl, Nat.cast_natAbs, abs_of_neg hneg]
    push_cast
    ring
  · rw [decide_eq_false hneg, if_neg Bool.false_ne_true, Nat.cast_natAbs,
      abs_of_nonneg (not_lt.1 hneg)]

/-! ### Formatted numbers -/

/-- A number that has as many places as are asked for is shown as it was written. -/
theorem format_eq_raw (h : n.bounds.clamp n.fractionLength = n.fractionLength) :
    n.format = n.raw := if_pos (.inr h)

/-- Bounds that ask for another number of digits than there are leave the text for the value. -/
theorem format_eq_fixedText (h : n.bounds.clamp n.fractionLength ≠ n.fractionLength) :
    n.format = n.value.fixedText (n.bounds.clamp n.fractionLength) := by
  refine if_neg (not_or.2 ⟨fun hdefault => h ?_, h⟩)
  -- no bounds ask for nothing
  rw [hdefault]
  exact Nat.max_zero _

/-! ### Values -/

/-- The value of a number that is written is close to what its text denotes, unless that is out of
range. -/
theorem IsWritten.rat?_cases (h : n.IsWritten) :
    ((2 : ℚ) ^ (1023 : ℤ) ≤ |n.rational| ∧ n.value.rat? = none) ∨
      ∃ v, n.value.rat? = some v ∧
        |v - n.rational| ≤ Binary64.errorBound |n.rational| := by
  rw [h.value_eq, n.abs_rational]
  rcases Binary64.nearest_cases n.parts.negative n.parts.magnitude_nonneg with
    ⟨hlarge, hinfinite⟩ | ⟨m, e, hfinite, herror⟩
  · exact .inl ⟨hlarge, by rw [hinfinite]; rfl⟩
  · refine .inr ⟨_, by rw [hfinite]; rfl, ?_⟩
    rwa [show n.rational = withSign n.parts.negative n.parts.magnitude from rfl,
      Binary64.abs_withSign_sub]

/-- A rational that is a binary number is the value of a text that denotes it. -/
theorem IsWritten.rat?_of_isExact (h : n.IsWritten) (hexact : Binary64.IsExact n.rational) :
    n.value.rat? = some n.rational := by
  obtain ⟨m, e, hfinite, hvalue⟩ := Binary64.nearest_of_isExact n.parts.negative
    n.parts.magnitude_nonneg (n.isExact_magnitude.2 hexact)
  rw [h.value_eq, hfinite, Binary64.rat?, hvalue]
  rfl

end Number

end Localization
