import Localization.Text.CodePoints

/-!
# White space

The characters with the Unicode property `White_Space`, which has been stable since version 6.3.

## Main definitions

* `Text.blank`, `Text.isBlank` — the white space
* `Text.trim` — a text without white space at its ends
-/

namespace Localization.Text

/-- The code points of white space. -/
def blank : CodePoints where
  ranges :=
    [(0x9, 0xD), (0x20, 0x20), (0x85, 0x85), (0xA0, 0xA0), (0x1680, 0x1680), (0x2000, 0x200A),
      (0x2028, 0x2029), (0x202F, 0x202F), (0x205F, 0x205F), (0x3000, 0x3000)]

/-- Whether a character is white space. -/
def isBlank (c : Char) : Bool := blank.contains c

/-- The text without white space at its ends. -/
def trim (text : List Char) : List Char :=
  ((text.dropWhile isBlank).reverse.dropWhile isBlank).reverse

end Localization.Text
