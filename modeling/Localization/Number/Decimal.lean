import Localization.Number.Binary64

/-!
# Decimal texts

Binary numbers are written positionally, never with an exponent: either with the fewest digits
that read back, or with a fixed number of digits behind the point.

The fewest digits are those of the coarsest decimal grid on which one of the two neighbours of the
number reads back. Of two such neighbours the nearer one is taken, and the upper one on a tie.

## Main definitions

* `Decimal` — digits and a power of ten, with `Decimal.text`
* `Binary64.shortest` — the decimal with the fewest digits that reads back
* `Binary64.text`, `Binary64.fixedText` — the two ways to write a number
-/

namespace Localization

/-- The number `digits * 10 ^ exponent`. -/
structure Decimal where
  digits : Nat
  exponent : Int
  deriving DecidableEq

namespace Decimal

/-- A natural number with a point in front of its last digits. -/
def positional (digits places : Nat) : String :=
  let all := Nat.toDigits 10 digits
  let padded := List.replicate (places + 1 - all.length) '0' ++ all
  let whole := padded.take (padded.length - places)
  let fraction := padded.drop (padded.length - places)
  String.ofList (if places = 0 then whole else whole ++ '.' :: fraction)

/-- A decimal as a quotient of integers. -/
def ratio (d : Decimal) : Nat × Nat := scaled d.digits 10 d.exponent

/-- A decimal in positional form. -/
def text (d : Decimal) : String :=
  positional d.ratio.1 (-d.exponent).toNat

end Decimal

namespace Binary64

/-- Whether a decimal reads back as the positive number `mantissa * 2 ^ exponent`. -/
def readsBack (mantissa : Nat) (exponent : Int) (d : Decimal) : Bool :=
  ofRatio false d.ratio.1 d.ratio.2 = .finite false mantissa exponent

/-- The neighbour of a positive number on the grid of multiples of `10 ^ k` that reads back, if
there is one. -/
def onGrid? (mantissa : Nat) (exponent : Int) (k : Int) : Option Decimal :=
  let (num, den) := ratio mantissa exponent
  let (tens, tenths) := scaled 1 10 k
  let num := num * tenths
  let den := den * tens
  let lower : Decimal := ⟨num / den, k⟩
  let upper : Decimal := ⟨num / den + 1, k⟩
  let candidates := [lower, upper].filter (readsBack mantissa exponent)
  match candidates with
  | [_, _] => if 2 * num < (2 * (num / den) + 1) * den then some lower else some upper
  | _ => candidates.head?

/-- The decimal on the coarsest of the grids `10 ^ finest` to `10 ^ (finest + steps)` that reads
back. On the finest grid the decimal is exact. -/
def coarsest (mantissa : Nat) (exponent finest : Int) : Nat → Decimal
  | 0 =>
    let (num, den) := ratio mantissa exponent
    ⟨num * Nat.pow 10 (-finest).toNat / den, finest⟩
  | steps + 1 =>
    (onGrid? mantissa exponent (finest + (steps + 1 : Nat))).getD
      (coarsest mantissa exponent finest steps)

/-- The decimal with the fewest digits that reads back as a positive number. -/
def shortest (mantissa : Nat) (exponent : Int) : Decimal :=
  let (num, den) := ratio mantissa exponent
  let finest := min exponent 0
  coarsest mantissa exponent finest ((Nat.toDigits 10 (num / den)).length + (-finest).toNat)

/-- A text behind the sign of its number. -/
def signed (negative : Bool) (text : String) : String := if negative then "-" ++ text else text

/-- A number with the fewest digits that read back. -/
def text : Binary64 → String
  | nan => "NaN"
  | infinite negative => signed negative "inf"
  | finite negative mantissa exponent =>
    signed negative (if mantissa = 0 then "0" else (shortest mantissa exponent).text)

/-- A number rounded to a fixed number of digits behind the point; a tie goes to the even digit. -/
def fixedText (places : Nat) : Binary64 → String
  | nan => "NaN"
  | infinite negative => signed negative "inf"
  | finite negative mantissa exponent =>
    let (num, den) := ratio mantissa exponent
    signed negative (Decimal.positional (roundDiv (num * Nat.pow 10 places) den) places)

end Binary64

end Localization
