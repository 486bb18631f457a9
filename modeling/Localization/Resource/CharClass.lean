/-!
# Character classes

The classes of characters that the grammar of a resource distinguishes. Letters and digits are
those of ASCII.

## Main definitions

* `isInlineBlank`, `isIdentifierStart`, `isIdentifierChar`, `isVariantNameChar`, `isEntryStart`,
  `isHexDigit` — classes of characters
* `isCalleeName` — the names that a function can have
-/

namespace Localization

/-- Blanks within a line. -/
def isInlineBlank (c : Char) : Bool := c = ' ' || c = '\t'

/-- Characters that start an identifier. -/
def isIdentifierStart (c : Char) : Bool := c.isAlpha

/-- Characters of an identifier behind the first. -/
def isIdentifierChar (c : Char) : Bool := c.isAlphanum || c = '_' || c = '-'

/-- Characters of a variant name behind the first. -/
def isVariantNameChar (c : Char) : Bool := isIdentifierChar c || c = ' '

/-- Characters that start an entry in the first column of a line. -/
def isEntryStart (c : Char) : Bool :=
  isIdentifierStart c || c = '-' || c = '#' || c = '/' || c = '['

/-- Hexadecimal digits in either case. -/
def isHexDigit (c : Char) : Bool :=
  c.isDigit || ('a' ≤ c && c ≤ 'f') || ('A' ≤ c && c ≤ 'F')

/-- Names that a function can have: an upper-case letter, then upper-case letters, `_`, `?`
and `-`. -/
def isCalleeName (name : String) : Bool :=
  match name.toList with
  | [] => false
  | c :: rest => c.isUpper && rest.all fun c => c.isUpper || c = '_' || c = '?' || c = '-'

end Localization
