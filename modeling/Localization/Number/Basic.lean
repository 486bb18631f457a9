import Localization.Number.Decimal
import Localization.Text.Blank

/-!
# Numbers as they are written

A number keeps the text that it was made from, so that `1.50` stays `1.50`. Only options for its
fraction digits change how it is written, and only if they ask for another count of digits than
the text has.

## Main definitions

* `Number` — a text, its value, and options for the fraction digits
* `Number.parse?`, `Number.ofInt`, `Number.ofBinary64` — ways to make a number
* `Number.format` — the number as it is shown
* `Number.sameNumber` — equal texts or equal values
-/

namespace Localization

/-- Bounds for the number of fraction digits. -/
structure FractionDigits where
  minimum : Option Nat
  maximum : Option Nat
  deriving DecidableEq

instance : Inhabited FractionDigits := ⟨⟨none, none⟩⟩

namespace FractionDigits

/-- The most fraction digits that a bound asks for; a greater bound counts as this one. -/
def limit : Nat := 20

/-- The number of fraction digits to show, given how many there are. The maximum wins over the
minimum. -/
def clamp (bounds : FractionDigits) (count : Nat) : Nat :=
  let atLeast := max count ((bounds.minimum.map (min limit)).getD 0)
  match bounds.maximum with
  | none => atLeast
  | some maximum => min atLeast (min limit maximum)

end FractionDigits

/-- A number, the text that it was made from, and bounds for its fraction digits. -/
structure Number where
  raw : String
  value : Binary64
  bounds : FractionDigits
  deriving DecidableEq

namespace Number

/-- A decimal text cut into its sign, its whole digits and its fraction digits. -/
structure Parts where
  negative : Bool
  whole : List Char
  /-- Without a point there are none. -/
  fraction : Option (List Char)
  deriving DecidableEq

/-- Cuts a text behind a leading minus sign and at its first point. -/
def Parts.ofText (text : List Char) : Parts :=
  let unsigned := if text.head? = some '-' then text.tail else text
  let fraction := match unsigned.dropWhile (· ≠ '.') with
    | [] => none
    | _ :: rest => some rest
  ⟨text.head? = some '-', unsigned.takeWhile (· ≠ '.'), fraction⟩

/-- One or more digits. -/
def isDigits (text : List Char) : Bool := !text.isEmpty && text.all Char.isDigit

/-- The number that decimal digits denote. -/
def digitsValue (digits : List Char) : Nat :=
  digits.foldl (fun n c => 10 * n + (c.toNat - '0'.toNat)) 0

/-- The number of a text `-?digits(.digits)?`, white space at its ends left out. -/
def parse? (text : String) : Option Number :=
  let raw := Text.trim text.toList
  let parts := Parts.ofText raw
  if isDigits parts.whole && parts.fraction.all isDigits then
    let fraction := parts.fraction.getD []
    let value := Binary64.ofDecimal parts.negative (digitsValue (parts.whole ++ fraction))
      fraction.length
    some ⟨String.ofList raw, value, default⟩
  else none

/-- The number of an integer. -/
def ofInt (n : Int) : Number := ⟨toString n, Binary64.ofInt n, default⟩

/-- The number of a binary floating-point number, with the fewest digits that read back. -/
def ofBinary64 (value : Binary64) : Number := ⟨value.text, value, default⟩

variable (n : Number)

/-- The number with other bounds for its fraction digits. -/
def withBounds (bounds : FractionDigits) : Number := { n with bounds }

/-- How many fraction digits the text has. -/
def fractionLength : Nat :=
  ((Parts.ofText n.raw.toList).fraction.map List.length).getD 0

/-- The number as it is shown: its text, unless the bounds ask for another number of fraction
digits. -/
def format : String :=
  let shown := n.bounds.clamp n.fractionLength
  if n.bounds = default ∨ shown = n.fractionLength then n.raw else n.value.fixedText shown

/-- Whether two numbers have the same text or the same value. -/
def sameNumber (m n : Number) : Bool := m.raw == n.raw || m.value.sameValue n.value

/-- Equality that takes the value for what it is: a number that is none differs from itself. -/
def beq (m n : Number) : Bool :=
  m.raw == n.raw && m.value.sameValue n.value && m.bounds == n.bounds

end Number

end Localization
