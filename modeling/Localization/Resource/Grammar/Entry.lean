import Localization.Resource.Grammar.Pattern

/-!
# Entries

An entry starts in the first column of a line: a comment, a message, or a term.

```
comment   = ("#" / "##" / "###") (" " text)?, on one or more lines
          / "//" " "? text, on one or more lines
          / "[[" variant name "]]"
message   = entryIdentifier "=" pattern? attribute*
attribute = line break, indentation, "." identifier "=" pattern
```

## Main definitions

* `Parser.comment`, `Parser.legacyComment`, `Parser.sectionHeader` — the kinds of comments
* `Parser.messageEntry` — a message or a term with its attributes
* `Parser.entry`, `Parser.entryLine` — an entry, from its first character on
-/

namespace Localization.Parser

/-! ### Comments -/

/-- Commits at most a number of `#` and counts them. -/
def takeMarkers : Nat → Parser Nat
  | 0 => return 0
  | n + 1 => do
    if (← current) = some '#' then
      modify Cursor.next
      return (← takeMarkers n) + 1
    else return 0

/-- Commits exactly a number of `#`. -/
def expectMarkers : Nat → Parser Unit
  | 0 => return
  | n + 1 => do
    expectChar '#'
    expectMarkers n

/-- The text of a comment line behind its markers: nothing, or a space and the text. -/
def commentLine : Parser (List Char) := do
  match ← current with
  | none => return []
  | some '\n' => return []
  | some ' ' =>
    modify Cursor.next
    takeLine
  | some _ => fail .expectedToken [" "]

/-- Reads a line of a comment behind its markers, and the markers of the next line. -/
def commentRound [Lookahead] (level : Nat) (before : List Char) :
    Parser (Round (List Char) (List Char)) := do
  let text := before ++ (← commentLine)
  if ← ask (Cursor.isNextLineComment · level) then
    modify Cursor.next
    expectMarkers level
    return .again (text ++ ['\n'])
  else return .done text

/-- The level that a number of markers stands for. -/
def commentLevel : Nat → CommentLevel
  | 1 => .plain
  | 2 => .group
  | _ => .resource

/-- Lines that start with the same number of `#`, up to three. -/
def comment [Lookahead] : Parser Entry := do
  let start ← offset
  let level ← takeMarkers 3
  let content ← rounds (commentRound level) []
  return .comment (commentLevel level) ⟨String.ofList content, ← spanFrom start⟩

/-- Reads a line that starts with two slashes. -/
def legacyCommentRound [Lookahead] (before : List Char) :
    Parser (Round (List Char) (List Char)) := do
  expectChar '/'
  expectChar '/'
  if (← current) = some ' ' then modify Cursor.next
  let text := before ++ (← takeLine)
  if ← ask Cursor.isNextLineLegacyComment then
    modify Cursor.next
    return .again (text ++ ['\n'])
  else return .done text

/-- Lines that start with two slashes, a plain comment of older resources. -/
def legacyComment [Lookahead] : Parser Entry := do
  let start ← offset
  let content ← rounds legacyCommentRound []
  return .comment .plain ⟨String.ofList content, ← spanFrom start⟩

/-- A name in double brackets, which heads a section of older resources: a group comment. -/
def sectionHeader : Parser Entry := do
  let start ← offset
  expectChar '['
  expectChar '['
  skipInlineBlanks
  let first ← takeIdentifierStart
  let more ← takeWhile isVariantNameChar
  let name := ((first :: more).reverse.dropWhile (· = ' ')).reverse
  skipInlineBlanks
  expectChar ']'
  expectChar ']'
  return .comment .group ⟨String.ofList name, ← spanFrom start⟩

/-! ### Messages and terms -/

/-- An attribute, from its dot on. -/
def attributeLine [Lookahead] : Parser Attribute := do
  let start ← offset
  expectChar '.'
  let id ← identifier
  skipInlineBlanks
  expectChar '='
  if !(← ask Cursor.isValueStart) then fail .missingValue []
  skipIndent
  let value ← pattern
  return ⟨id, value, ⟨start, value.span.stop⟩⟩

/-- Reads an attribute on a line of its own, or finds none. The state holds the attributes so far,
the last one first. -/
def attributeRound [Lookahead] (before : List Attribute) :
    Parser (Round (List Attribute) (List Attribute)) := do
  if ← ask Cursor.isNextLineAttribute then
    expectIndent
    return .again ((← attributeLine) :: before)
  else return .done before.reverse

/-- The value of a message, if one starts behind its `=`. -/
def messageValue [Lookahead] : Parser (Option Pattern) := do
  if ← ask Cursor.isValueStart then
    skipIndent
    return some (← pattern)
  else
    skipInlineBlanks
    return none

/-- Where a message ends: with its last attribute, its value, or its identifier. -/
def messageStop (id : Identifier) (value : Option Pattern) (attributes : List Attribute) : Nat :=
  match attributes.getLast?, value with
  | some last, _ => last.span.stop
  | none, some pattern => pattern.span.stop
  | none, none => id.span.stop

/-- A message or, when its identifier starts with `-`, a term. A term needs a value, and a message
a value or an attribute. -/
def messageEntry [Lookahead] : Parser Entry := do
  let start ← offset
  let id ← entryIdentifier
  skipInlineBlanks
  expectChar '='
  let value ← messageValue
  let attributes ← rounds attributeRound []
  if id.isTerm && value.isNone then fail .emptyTerm [id.name]
  if value.isNone && attributes.isEmpty then fail .emptyMessage [id.name]
  let message : Message :=
    ⟨id, value, attributes, none, ⟨start, messageStop id value attributes⟩⟩
  return if message.isTerm then .term message else .message message

/-- An entry, from its first character on. -/
def entry [Lookahead] : Parser Entry := do
  match ← current with
  | some '#' => comment
  | some '/' => legacyComment
  | some '[' => sectionHeader
  | some ch =>
    if ch = '-' || isIdentifierStart ch then messageEntry else fail .expectedEntry []
  | none => fail .expectedEntry []

/-- An entry and the end of its last line. -/
def entryLine [Lookahead] : Parser Entry := do
  let entry ← entry
  expectLineEnd
  return entry

end Localization.Parser
