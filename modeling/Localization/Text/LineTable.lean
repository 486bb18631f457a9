import Localization.Text.Bytes
import Localization.Text.Span

/-!
# Line tables

A line ends with a line feed, a carriage return, or the two in that order; each counts as one
line break. A line table holds the byte offset at which each line of a source starts, and answers
questions about lines and columns from it.

The text that a question is asked about is passed along with it, so a table may be asked about
another text than the one it describes. A column then falls back to one where the two disagree.

## Main definitions

* `LineTable.ofText` — the table of a source
* `LineTable.search` — a binary search among the line starts
* `LineTable.lineAt`, `LineTable.position` — from an offset to its line and column
* `LineTable.lineStart?`, `LineTable.lineText?` — from a line to its start and its text
* `Span.startPosition` — the position at which a span starts
-/

namespace Localization

/-- The two characters that can end a line. -/
def isLineBreak (c : Char) : Bool := c = '\n' || c = '\r'

/-- Byte offsets at which the lines of a source start, in order. -/
structure LineTable where
  starts : List Nat

namespace LineTable

/-- The line starts behind each line break of a text that itself starts at `offset`. -/
def startsFrom (offset : Nat) : List Char → List Nat
  | [] => []
  | '\r' :: '\n' :: rest => (offset + 2) :: startsFrom (offset + 2) rest
  | c :: rest =>
    if isLineBreak c then (offset + 1) :: startsFrom (offset + 1) rest
    else startsFrom (offset + c.utf8Size) rest

/-- The line table of a source. -/
def ofText (source : List Char) : LineTable := ⟨0 :: startsFrom 0 source⟩

variable (table : LineTable)

/-- Number of lines. -/
def count : Nat := table.starts.length

/-- Looks for an offset among the `size` line starts from the index `base` on, of which each step
keeps one half. Where it is missing, the answer is the index at which it would be put in. -/
def searchFrom (starts : List Nat) (offset base size : Nat) : Except Nat Nat :=
  if 1 < size then
    let half := size / 2
    let middle := base + half
    searchFrom starts offset (if offset < starts.getD middle 0 then base else middle) (size - half)
  else
    let start := starts.getD base 0
    if start = offset then .ok base else .error (if start < offset then base + 1 else base)
termination_by size

/-- The index of an offset among the line starts, or else the one at which it would be put in. -/
def search (offset : Nat) : Except Nat Nat :=
  if table.starts.isEmpty then .error 0 else searchFrom table.starts offset 0 table.starts.length

/-- The line that holds the byte at `offset`: the one that starts there, or else the one in front
of the line that would. -/
def lineAt (offset : Nat) : Nat :=
  let index := match table.search offset with
    | .ok exact => exact
    | .error insert => insert - 1
  index + 1

/-- Offset at which a line starts, counting lines from one. -/
def lineStart? (line : Nat) : Option Nat :=
  if line = 0 then none else table.starts[line - 1]?

/-- The position of a byte offset in `text`. An offset behind the end takes the last column. -/
def position (text : List Char) (offset : Nat) : Position :=
  let line := table.lineAt offset
  let start := (table.lineStart? line).getD 0
  let before := (Text.slice? text start (min offset (Text.byteLength text))).getD []
  ⟨offset, line, before.length + 1⟩

/-- The text of a line without the line break that ends it. -/
def lineText? (text : List Char) (line : Nat) : Option (List Char) := do
  let start ← table.lineStart? line
  let stop := (table.lineStart? (line + 1)).getD (Text.byteLength text)
  let whole ← Text.slice? text start stop
  return (whole.reverse.dropWhile isLineBreak).reverse

end LineTable

/-- The position at which a span starts in its source. -/
def Span.startPosition (source : List Char) (span : Span) : Position :=
  (LineTable.ofText source).position source span.start

end Localization
