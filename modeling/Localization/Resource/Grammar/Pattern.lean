import Localization.Resource.Grammar.Expression

/-!
# Patterns

A pattern is a run of text and placeables. It goes on over an indented line unless that line
starts with `}`, `.`, `[` or `*`; the lines are joined by a line feed and lose their indentation.
In text `\{` and `\"` are escapes, and any other backslash stands for itself. Blanks at the end of
a pattern do not belong to it.

```
pattern   = (text / placeable)+
placeable = "{" placeableExpression "}"
```

## Main definitions

* `Parser.textElement` — a run of text
* `Parser.placeable` — an expression in braces
* `Parser.pattern` — a pattern, from its first character on
-/

namespace Localization.Parser

/-- Reads a character, an escape or a line break of a text, or its end. -/
def textRound [Lookahead] (taken : List Char) : Parser (Round (List Char) (List Char)) := do
  match ← current with
  | none => return .done taken.reverse
  | some '{' => return .done taken.reverse
  | some '\n' =>
    if ← ask Cursor.isNextLinePattern then
      modify Cursor.next
      skipInlineBlanks
      return .again ('\n' :: taken)
    else return .done taken.reverse
  | some '\\' =>
    match ← next with
    | some ch =>
      if ch = '{' || ch = '"' then
        modify Cursor.next
        return .again (ch :: taken)
      else return .again ('\\' :: taken)
    | none => return .again ('\\' :: taken)
  | some ch =>
    modify Cursor.next
    return .again (ch :: taken)

/-- A run of text up to the next placeable or the end of the pattern. -/
def textElement [Lookahead] : Parser PatternElement := do
  let start ← offset
  let value ← rounds textRound []
  return .text (String.ofList value) (← spanFrom start)

/-- An expression in braces. -/
def placeable (expression : Parser Expression) : Parser PatternElement := do
  let start ← offset
  expectChar '{'
  let expression ← expression
  expectChar '}'
  return .placeable expression (← spanFrom start)

/-- Reads an element of a pattern, or its end. The state holds the elements so far, the last one
first. -/
def patternRound [Lookahead] (expression : Parser Expression) (before : List PatternElement) :
    Parser (Round (List PatternElement) (List PatternElement)) := do
  match ← current with
  | none => return .done before
  | some ch =>
    let goesOn ← if ch = '\n' then ask Cursor.isNextLinePattern else pure true
    if !goesOn then return .done before
    else if ch = '{' then return .again ((← placeable expression) :: before)
    else return .again ((← textElement) :: before)

/-- Elements, the last one first, without the blanks at their end. -/
def trimLast : List PatternElement → List PatternElement
  | .text value span :: before =>
    let blanks := (value.toList.reverse.takeWhile isInlineBlank).length
    let kept := (value.toList.reverse.dropWhile isInlineBlank).reverse
    if kept.isEmpty then before
    else .text (String.ofList kept) ⟨span.start, max (span.stop - blanks) span.start⟩ :: before
  | elements => elements

/-- The pattern of elements that are given last one first; its span reaches from the first to the
last. Without elements it is empty at the given offset. -/
def assemble (start : Nat) (elements : List PatternElement) : Pattern :=
  match elements.getLast?, elements.head? with
  | some first, some last => ⟨elements.reverse, first.span.merge last.span⟩
  | _, _ => ⟨[], .point start⟩

/-- A pattern whose placeables hold what the given parser reads. -/
def patternBody [Lookahead] (expression : Parser Expression) : Parser Pattern := do
  let start ← offset
  let elements ← rounds (patternRound expression) []
  return assemble start (trimLast elements)

/-- A pattern, from its first character on. -/
def pattern [Lookahead] : Parser Pattern :=
  nested fun pattern => patternBody (placeableExpression pattern)

end Localization.Parser
