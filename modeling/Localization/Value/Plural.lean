import Localization.Text.Quoted

/-!
# Plural categories

Languages distinguish up to six forms of a word by the number in front of it. Which category a
number falls into is decided by rules that the host supplies for its locales; the default rules
know the singular alone.

## Main definitions

* `PluralCategory` — the six categories and their names
* `PluralRules` — rules for a chain of locales
* `PluralRules.default` — one for an integral 1, other for everything else
* `Locale` — a chain of locales with the rules that apply to it
-/

namespace Localization

/-- The form of a word that a number asks for. -/
inductive PluralCategory
  | zero
  | one
  | two
  | few
  | many
  | other
  deriving DecidableEq

namespace PluralCategory

/-- The name under which variants select the category. -/
def name : PluralCategory → String
  | zero => "zero"
  | one => "one"
  | two => "two"
  | few => "few"
  | many => "many"
  | other => "other"

/-- All categories. -/
def all : List PluralCategory := [zero, one, two, few, many, other]

/-- The category of a name. -/
def ofName? (text : String) : Option PluralCategory := all.find? (·.name == text)

end PluralCategory

/-- Rules that assign a category to a number, as it is written, for a chain of locales. -/
abbrev PluralRules := List String → String → PluralCategory

/-- Rules without a locale: one for an integral 1 with any sign and any leading zeros, other for
everything else. -/
def PluralRules.default : PluralRules := fun _ text =>
  let digits := text.toList
  let unsigned := if digits.head? = some '-' then digits.tail else digits
  if unsigned.dropWhile (· = '0') = ['1'] then .one else .other

/-- A chain of locales, the preferred one first, and the plural rules that apply to it. -/
structure Locale where
  chain : List String
  pluralRules : PluralRules

namespace Locale

variable (locale : Locale)

/-- The category of a number as it is written. -/
def pluralCategory (text : String) : PluralCategory := locale.pluralRules locale.chain text

/-- The chain for inspection. -/
def inspect : String :=
  "LocaleContext \x7b locales: " ++ Text.quoteList locale.chain ++ ", .. \x7d"

end Locale

end Localization
