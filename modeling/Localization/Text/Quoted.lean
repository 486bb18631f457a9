import Localization.Text.Extending
import Localization.Text.Invisible
import Localization.Text.Unassigned

/-!
# Quoted texts

A text in double quotes, for inspection. Quotes, backslashes and the usual control characters are
written as escapes of one letter. Other invisible characters, extending marks and unassigned code
points are written by their number in hexadecimal digits.

## Main definitions

* `Text.quote` — a text in quotes
* `Text.quoteList` — a list of texts in brackets
-/

namespace Localization.Text

/-- Whether a character is written by its code point: it cannot be seen, or not apart from the
character in front of it. -/
def isWrittenByNumber (c : Char) : Bool :=
  invisible.contains c || extending.contains c || unassigned.contains c

/-- A character as it stands between quotes. -/
def escape (c : Char) : List Char :=
  match c with
  | '"' => ['\\', '"']
  | '\\' => ['\\', '\\']
  | '\n' => ['\\', 'n']
  | '\r' => ['\\', 'r']
  | '\t' => ['\\', 't']
  | '\x00' => ['\\', '0']
  | c =>
    if isWrittenByNumber c then ['\\', 'u', '\x7b'] ++ Nat.toDigits 16 c.toNat ++ ['\x7d'] else [c]

/-- A text in quotes. -/
def quote (text : String) : String :=
  String.ofList ('"' :: text.toList.flatMap escape ++ ['"'])

/-- Texts in quotes, in brackets, separated by commas. -/
def quoteList (texts : List String) : String :=
  "[" ++ ", ".intercalate (texts.map quote) ++ "]"

end Localization.Text
