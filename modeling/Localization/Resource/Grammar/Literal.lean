import Localization.Resource.Parser

/-!
# Names, numbers and quoted texts

The smallest parts of the grammar.

```
identifier      = letter (letter / digit / "_" / "-")*
entryIdentifier = "-"? identifier
number          = "-"? digit+ ("." digit+)?
quoted          = '"' (escape / any character but '"' and a line break)* '"'
variantKey      = number / letter (letter / digit / "_" / "-" / " ")*
```

In a quoted text `\"`, `\\` and `\u` with four hexadecimal digits are escapes; any other backslash
stands for itself.

## Main definitions

* `Parser.identifier`, `Parser.entryIdentifier` — names
* `Parser.number` — a number as it is written
* `Parser.quoted` — a quoted text with its escapes applied
* `Parser.variantKey` — what selects a variant
-/

namespace Localization.Parser

/-- A letter and the identifier characters behind it. -/
def identifier : Parser Identifier := do
  let start ← offset
  let first ← takeIdentifierStart
  let more ← takeWhile isIdentifierChar
  return ⟨String.ofList (first :: more), ← spanFrom start⟩

/-- The identifier of a message, or of a term with its leading `-`. -/
def entryIdentifier : Parser Identifier := do
  if (← current) = some '-' then
    let start ← offset
    modify Cursor.next
    let id ← identifier
    return ⟨String.ofList ('-' :: id.name.toList), ⟨start, id.span.stop⟩⟩
  else identifier

/-- A number as it is written, with its span. -/
def number : Parser (String × Span) := do
  let start ← offset
  let sign ← takeChar (· = '-')
  let whole ← takeDigits
  let point ← takeChar (· = '.')
  let fraction ← if point.isSome then takeDigits else pure []
  return (String.ofList (sign.toList ++ whole ++ point.toList ++ fraction), ← spanFrom start)

/-! ### Quoted texts -/

/-- Commits at most a number of characters of a class and returns them. -/
def takeAtMost (p : Char → Bool) : Nat → Parser (List Char)
  | 0 => return []
  | n + 1 => do
    match ← takeChar p with
    | none => return []
    | some ch => return ch :: (← takeAtMost p n)

/-- The value of a hexadecimal digit. -/
def hexValue (ch : Char) : Nat :=
  if ch.isDigit then ch.toNat - '0'.toNat
  else if ch.isLower then ch.toNat - 'a'.toNat + 10
  else ch.toNat - 'A'.toNat + 10

/-- The character that four hexadecimal digits name; surrogates name none. -/
def charOfHex? (digits : List Char) : Option Char :=
  let code := digits.foldl (fun n ch => 16 * n + hexValue ch) 0
  if digits.length = 4 ∧ code.isValidChar then some (Char.ofNat code) else none

/-- The character of a Unicode escape, from behind its `\u`. -/
def unicodeEscape : Parser Char := do
  let digits ← takeAtMost isHexDigit 4
  match charOfHex? digits with
  | some ch => return ch
  | none => fail .invalidEscape [String.ofList ('\\' :: 'u' :: digits)]

/-- Reads a character or an escape of a quoted text, or its end. -/
def quotedRound (taken : List Char) : Parser (Round (List Char) (List Char)) := do
  match ← current with
  | some '"' =>
    modify Cursor.next
    return .done taken.reverse
  | none => fail .unclosedString []
  | some '\n' => fail .unclosedString []
  | some '\\' =>
    match ← next with
    | some 'u' =>
      modify Cursor.next
      return .again ((← unicodeEscape) :: taken)
    | some ch =>
      if ch = '"' || ch = '\\' then
        modify Cursor.next
        return .again (ch :: taken)
      else return .again ('\\' :: taken)
    | none => return .again ('\\' :: taken)
  | some ch =>
    modify Cursor.next
    return .again (ch :: taken)

/-- A quoted text with its escapes applied, and the span of the quoted form. -/
def quoted : Parser (String × Span) := do
  let start ← offset
  expectChar '"'
  let value ← rounds quotedRound []
  return (String.ofList value, ← spanFrom start)

/-! ### Variant keys -/

/-- The words of a variant name; the blanks behind them belong to no span. -/
def variantName : Parser VariantKey := do
  let start ← offset
  let first ← current
  modify Cursor.next
  let more ← takeWhile isVariantNameChar
  let name := ((first.toList ++ more).reverse.dropWhile (· = ' ')).reverse
  return .name (String.ofList name) ⟨start, start + Text.byteLength name⟩

/-- A number or a name. -/
def variantKey : Parser VariantKey := do
  match ← current with
  | none => fail .missingKey []
  | some ch =>
    if ch.isDigit || ch = '-' then
      let (digits, span) ← number
      return .number digits span
    else if isIdentifierStart ch then variantName
    else fail .missingKey []

end Localization.Parser
