import Localization.Resource.Cursor

/-!
# Lookahead

The grammar of a resource is line oriented: whether a construct goes on depends on how the next
line with content starts. The questions here look ahead with the peek position, starting from
where it stands, and take it back to the committed position whatever the answer. The question for an
arrow alone leaves the peek position where it has looked.

## Main definitions

* `Cursor.isNumberStart`, `Cursor.isValueStart` — what starts at the committed position
* `Cursor.isNextLinePattern`, `Cursor.isNextLineAttribute`, `Cursor.isNextLineVariant`,
  `Cursor.isNextLineComment`, `Cursor.isNextLineLegacyComment` — what the next line starts with
* `Cursor.isArrow` — whether the variants of a choice follow
-/

namespace Localization.Cursor

variable (c : Cursor)

/-- Whether the character at the committed position starts a number: a digit, or a minus sign
that a digit follows at the peek position. -/
def isNumberStart : Bool × Cursor :=
  match c.current with
  | some '-' =>
    let p := c.peek
    (p.peeked.any Char.isDigit, p.resetPeek)
  | some ch => (ch.isDigit, c.resetPeek)
  | none => (false, c.resetPeek)

/-- From a line break at the peek position, moves to the first character of the next line with
content. The answer tells whether that line is indented. -/
def peekNextLineIndent : Bool × Cursor :=
  if c.peeked = some '\n' then
    let lineStart := c.peek.peekBlankLines
    let p := lineStart.peekInlineBlanks
    (lineStart.ahead.offset < p.ahead.offset, p)
  else (false, c)

/-- Characters that keep an indented line from going on with a pattern. -/
def endsPattern (ch : Char) : Bool := ch = '}' || ch = '.' || ch = '[' || ch = '*'

/-- From a line break at the peek position, whether the next line with content is indented and
goes on with a pattern. -/
def peekNextLinePattern : Bool × Cursor :=
  let (indented, p) := c.peekNextLineIndent
  (indented && p.peeked.any (!endsPattern ·), p)

/-- Whether a pattern starts on the line, or on the next line with content. -/
def isValueStart : Bool × Cursor :=
  let p := c.peekInlineBlanks
  match p.peeked with
  | some '\n' =>
    let (answer, p') := p.peekNextLinePattern
    (answer, p'.resetPeek)
  | some _ => (true, p.resetPeek)
  | none => (false, p.resetPeek)

/-- Whether the line break is followed by a line that goes on with a pattern. -/
def isNextLinePattern : Bool × Cursor :=
  let (answer, p) := c.peekNextLinePattern
  (answer, p.resetPeek)

/-- Whether the line break is followed by a line that starts an attribute. -/
def isNextLineAttribute : Bool × Cursor :=
  let (indented, p) := c.peekNextLineIndent
  (indented && p.peeked = some '.', p.resetPeek)

/-- Whether the line ends here and the next line with content starts a variant: `[` or `*[`, but
not `[[`. -/
def isNextLineVariant : Bool × Cursor :=
  let (indented, p) := c.peekInlineBlanks.peekNextLineIndent
  if indented then
    let p := if p.peeked = some '*' then p.peek else p
    if p.peeked = some '[' then
      let p := p.peek
      (p.peeked ≠ some '[', p.resetPeek)
    else (false, p.resetPeek)
  else (false, p.resetPeek)

/-- Moves the peek position over a number of `#` and tells whether they were all there. -/
def peekMarkers (c : Cursor) : Nat → Bool × Cursor
  | 0 => (true, c)
  | n + 1 => if c.peeked = some '#' then c.peek.peekMarkers n else (false, c)

/-- Whether the line break is followed by a comment line of a level. -/
def isNextLineComment (level : Nat) : Bool × Cursor :=
  if c.peeked = some '\n' then
    let (marked, p) := c.peek.peekMarkers level
    let ends := match p.peeked with
      | none => true
      | some ch => ch = ' ' || ch = '\n'
    (marked && ends, p.resetPeek)
  else (false, c.resetPeek)

/-- Whether the line break is followed by a comment line that starts with two slashes. -/
def isNextLineLegacyComment : Bool × Cursor :=
  if c.peeked = some '\n' then
    let p := c.peek
    if p.peeked = some '/' then
      let p := p.peek
      (p.peeked = some '/', p.resetPeek)
    else (false, p.resetPeek)
  else (false, c.resetPeek)

/-- Whether an arrow starts at the committed position. The peek position stays behind its minus
sign. -/
def isArrow : Bool × Cursor :=
  if c.current = some '-' then
    let p := c.peek
    (p.peeked = some '>', p)
  else (false, c)

end Localization.Cursor
