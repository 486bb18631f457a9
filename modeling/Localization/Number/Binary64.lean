/-!
# Binary floating-point numbers

Numbers of 64 bits: a sign, a mantissa of 53 bits and a power of two, with infinities and one
number that is none. They are kept as exact mathematical data, so that everything about them is
decided in whole numbers.

A finite number is canonical: its mantissa is less than `2 ^ 53`, and it is at least `2 ^ 52`
unless the exponent is the least one. So two finite numbers other than zero have the same value
just when they are equal.

## Main definitions

* `Binary64` — the numbers
* `roundDiv`, `Binary64.ofRatio` — rounding to the nearest integer and the nearest number, ties to
  even
* `Binary64.ofDecimal`, `Binary64.ofInt` — the number nearest to a decimal or an integer
* `Binary64.sameValue` — numeric equality
* `Binary64.ofBits`, `Binary64.toBits` — the interchange format
-/

namespace Localization

/-- A quotient rounded to the nearest integer; a tie goes to the even one. -/
def roundDiv (num den : Nat) : Nat :=
  let quotient := num / den
  let rest := num % den
  if 2 * rest < den ∨ (2 * rest = den ∧ quotient % 2 = 0) then quotient else quotient + 1

/-- The number `digits * base ^ exponent` as a quotient of integers. -/
def scaled (digits base : Nat) (exponent : Int) : Nat × Nat :=
  (digits * Nat.pow base exponent.toNat, Nat.pow base (-exponent).toNat)

/-- A binary floating-point number of 64 bits. -/
inductive Binary64
  /-- No number. -/
  | nan
  | infinite (negative : Bool)
  /-- The number `± mantissa * 2 ^ exponent`. -/
  | finite (negative : Bool) (mantissa : Nat) (exponent : Int)
  deriving DecidableEq

namespace Binary64

/-- The least exponent of a finite number. -/
def minExponent : Int := -1074

/-- The greatest exponent of a finite number. -/
def maxExponent : Int := 971

instance : Inhabited Binary64 := ⟨.finite false 0 minExponent⟩

/-- The least mantissa of 53 bits, `2 ^ 52`. -/
def leastFull : Nat := 0x10000000000000

/-- The magnitude of a finite number as a quotient of integers. -/
def ratio (mantissa : Nat) (exponent : Int) : Nat × Nat := scaled mantissa 2 exponent

/-- The exponent with which a positive quotient is rounded: its mantissa is less than `2 ^ 53`
and, above the least exponent, at least `2 ^ 52`. -/
def unitExponent (num den : Nat) : Int :=
  let high : Int := (num.log2 : Int) - den.log2 - 52
  let (unit, units) := ratio 1 high
  max (if num * units < leastFull * (den * unit) then high - 1 else high) minExponent

/-- The number of a rounded mantissa, which may have become `2 ^ 53`; beyond the greatest exponent
it is infinite. -/
def ofRounded (negative : Bool) (mantissa : Nat) (exponent : Int) : Binary64 :=
  let (mantissa, exponent) :=
    if mantissa = 2 * leastFull then (leastFull, exponent + 1) else (mantissa, exponent)
  if maxExponent < exponent then .infinite negative else .finite negative mantissa exponent

/-- The number nearest to a quotient of integers; a tie goes to the even mantissa. -/
def ofRatio (negative : Bool) (num den : Nat) : Binary64 :=
  if num = 0 then .finite negative 0 minExponent
  else
    let exponent := unitExponent num den
    let (unit, units) := ratio 1 exponent
    ofRounded negative (roundDiv (num * units) (den * unit)) exponent

/-- The number nearest to `digits / 10 ^ places`. -/
def ofDecimal (negative : Bool) (digits places : Nat) : Binary64 :=
  ofRatio negative digits (Nat.pow 10 places)

/-- The number nearest to an integer. -/
def ofInt (n : Int) : Binary64 := ofRatio (n < 0) n.natAbs 1

/-- Numeric equality: `nan` equals nothing, and the two zeros are equal. -/
def sameValue : Binary64 → Binary64 → Bool
  | finite s m e, finite t n f => (m = 0 && n = 0) || (s = t && m = n && e = f)
  | infinite s, infinite t => s = t
  | _, _ => false

/-! ### The interchange format -/

/-- The number with the given bits. -/
def ofBits (bits : Nat) : Binary64 :=
  let negative : Bool := bits / 0x8000000000000000 % 2 == 1
  let exponent : Nat := bits / leastFull % 2048
  let fraction := bits % leastFull
  if exponent = 2047 then if fraction = 0 then .infinite negative else .nan
  else if exponent = 0 then .finite negative fraction minExponent
  else .finite negative (leastFull + fraction) ((exponent : Int) - 1075)

/-- The bit of a sign. -/
def signBit (negative : Bool) : Nat := if negative then 0x8000000000000000 else 0

/-- The bits of a number. -/
def toBits : Binary64 → Nat
  | nan => 0x7FF8000000000000
  | infinite negative => signBit negative + 2047 * leastFull
  | finite negative mantissa exponent =>
    signBit negative +
      if mantissa < leastFull then mantissa
      else (exponent + 1075).toNat * leastFull + (mantissa - leastFull)

end Binary64

end Localization
