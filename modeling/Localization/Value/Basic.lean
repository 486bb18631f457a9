import Localization.Number.Basic
import Localization.Value.DateTime
import Localization.Value.Plural

/-!
# Values

What an expression comes to when a message is formatted: a text, a number, a date, the symbol
that a variant is named by, or nothing. Nothing carries the name to show in place of a value.

## Main definitions

* `Value` — the five kinds of values
* `Value.format` — a value as it is shown
* `Value.selects` — whether a variant key selects a value
-/

namespace Localization

/-- What an expression comes to. -/
inductive Value
  | string (text : String)
  | number (n : Number)
  | dateTime (t : DateTime)
  /-- A name that is used as a variant key. -/
  | symbol (name : String)
  /-- No value, and the name to show in its place. -/
  | none (name : Option String)

namespace Value

instance : Inhabited Value := ⟨.none .none⟩

/-- The text in place of a value that has no name either. -/
def unnamed : String := "???"

/-- A value as it is shown. -/
def format : Value → String
  | string text => text
  | number n => n.format
  | dateTime t => t.text
  | symbol name => name
  | none name => name.getD unnamed

/-- Whether a variant key selects a value, in either order. A symbol selects the text that spells
it and the numbers whose plural category it names; numbers select equal numbers. -/
def selects (locale : Locale) : Value → Value → Bool
  | string a, string b => a == b
  | string a, symbol b => a == b
  | symbol a, string b => a == b
  | symbol a, symbol b => a == b
  | number a, number b => a.sameNumber b
  | symbol a, number b => (locale.pluralCategory b.raw).name == a
  | number a, symbol b => (locale.pluralCategory a.raw).name == b
  | dateTime a, dateTime b => a == b
  | none a, none b => a == b
  | _, _ => false

/-- Whether there is no value. -/
def isNone : Value → Bool
  | none _ => true
  | _ => false

/-- What kind of value it is, as errors name it. -/
def typeName : Value → String
  | string _ => "string"
  | number _ => "number"
  | dateTime _ => "datetime"
  | symbol _ => "symbol"
  | none _ => "none"

/-- Equality in all respects; a number that is none differs from itself. -/
def beq : Value → Value → Bool
  | string a, string b => a == b
  | number a, number b => a.beq b
  | dateTime a, dateTime b => a == b
  | symbol a, symbol b => a == b
  | none a, none b => a == b
  | _, _ => false

/-- A number text as a number, or as a text if it is none. -/
def ofNumberText (text : String) : Value :=
  match Number.parse? text with
  | some n => number n
  | .none => string text

end Value

end Localization
