import Localization.Resource.Lookahead
import Localization.Resource.SyntaxError

/-!
# Parsers

A parser moves a cursor and returns a value or fails with a syntax error; the cursor stays where
it stopped either way. Parsers repeat and nest only as long as they consume text, so every parser
ends: a round that commits nothing, and a nested parser that starts where its surroundings
started, fail. The grammar never runs into these two failures, since each of its rounds and each
of its nestings consumes at least one character.

A parser is told how to look ahead. The lookahead of the cursor is the one that parsers run with;
with another one they show where they look ahead, and from which positions.

## Main definitions

* `Parser` — a stateful computation over a cursor that may fail
* `Lookahead` — how parsers ask what lies ahead, and `Lookahead.plain`, how they do it by default
* `Parser.rounds` — repetition with a state
* `Parser.nested` — recursion
* `Parser.expectChar`, `Parser.expectLineEnd`, `Parser.expectIndent`, `Parser.takeChar`,
  `Parser.takeIdentifierStart`, `Parser.takeDigits` — what the grammar is built from
-/

namespace Localization

/-- A computation that moves a cursor and may fail. -/
abbrev Parser := EStateM SyntaxError Cursor

/-- How parsers look ahead: what answers their questions, and what skips blank lines for them. -/
class Lookahead where
  /-- Answers a question that leaves the committed position alone. -/
  ask : (Cursor → Bool × Cursor) → Parser Bool
  /-- Commits blank lines and counts them. -/
  skipBlankLines : Cursor → Nat × Cursor

/-- The lookahead of the cursor itself. -/
instance Lookahead.plain : Lookahead where
  ask := modifyGet
  skipBlankLines := Cursor.skipBlankLines

@[simp] theorem Lookahead.plain_skipBlankLines (c : Cursor) :
    Lookahead.skipBlankLines c = c.skipBlankLines := rfl

/-- Commits the blanks within the line and, if the line ends there, its line break, the blank
lines behind it and the indentation of the next line. -/
def Cursor.skipIndent [Lookahead] (c : Cursor) : Cursor :=
  let c := c.skipInlineBlanks
  if c.current = some '\n' then (Lookahead.skipBlankLines c.next).2.skipInlineBlanks else c

namespace Parser

variable {σ α : Type}

/-! ### Reading the cursor -/

/-- The committed offset. -/
def offset : Parser Nat := return (← get).offset

/-- The character at the committed position. -/
def current : Parser (Option Char) := return (← get).current

/-- Commits a character and returns the one behind it. -/
def next : Parser (Option Char) := do
  modify Cursor.next
  current

/-- Asks a question that leaves the committed position alone. -/
def ask [Lookahead] (question : Cursor → Bool × Cursor) : Parser Bool := Lookahead.ask question

/-- Fails at the committed position. -/
def fail (code : ErrorCode) (args : List String) : Parser α := do
  throw ⟨code, args, ← offset⟩

/-- The span from an offset to the committed position. -/
def spanFrom (start : Nat) : Parser Span := return ⟨start, ← offset⟩

/-! ### Repetition and recursion -/

/-- What a round of a repetition ends with: a state for the next round, or the result. -/
inductive Round (σ α : Type)
  | again (state : σ)
  | done (result : α)

/-- The failure of a parser that consumes nothing where it has to. -/
def stalled : Parser α := fail .expectedEntry []

/-- Repeats rounds until one is done. -/
def rounds (round : σ → Parser (Round σ α)) (state : σ) : Parser α := fun c =>
  match round state c with
  | .ok (.again state') c' =>
    if c'.remaining < c.remaining then rounds round state' c' else stalled c'
  | .ok (.done result) c' => .ok result c'
  | .error e c' => .error e c'
termination_by c => c.remaining

/-- The parser that uses itself, through `body`, on what remains. -/
def nested (body : Parser α → Parser α) : Parser α := fun c =>
  body (fun c' => if c'.remaining < c.remaining then nested body c' else stalled c') c
termination_by c => c.remaining

/-! ### Blanks and characters -/

/-- Commits the blanks within the line. -/
def skipInlineBlanks : Parser Unit := modify Cursor.skipInlineBlanks

/-- Commits blanks, and the line break and indentation that may follow them. -/
def skipIndent [Lookahead] : Parser Unit := modify Cursor.skipIndent

/-- Commits the rest of the line and returns it. -/
def takeLine : Parser (List Char) := modifyGet Cursor.takeLine

/-- Commits all characters of a class and returns them. -/
def takeWhile (p : Char → Bool) : Parser (List Char) := modifyGet (Cursor.takeWhile p)

/-- How a line break is named in an error. -/
def lineBreakName : String := "\u2424"

/-- Commits the given character. -/
def expectChar (ch : Char) : Parser Unit := do
  if (← current) = some ch then modify Cursor.next else fail .expectedToken [ch.toString]

/-- Commits a line break, or nothing at the end of the source. -/
def expectLineEnd : Parser Unit := do
  match ← current with
  | none => return
  | some '\n' => modify Cursor.next
  | some _ => fail .expectedToken [lineBreakName]

/-- Commits a line break, blank lines, and at least one blank of indentation. -/
def expectIndent [Lookahead] : Parser Unit := do
  skipInlineBlanks
  if (← current) ≠ some '\n' then fail .expectedToken [lineBreakName]
  modify fun c => (Lookahead.skipBlankLines c.next).2
  let start ← offset
  skipInlineBlanks
  if (← offset) = start then fail .expectedToken [" "]

/-- Commits the current character if it belongs to a class. -/
def takeChar (p : Char → Bool) : Parser (Option Char) := do
  match ← current with
  | none => return none
  | some ch =>
    if p ch then
      modify Cursor.next
      return some ch
    else return none

/-- Commits a character that starts an identifier. -/
def takeIdentifierStart : Parser Char := do
  match ← takeChar isIdentifierStart with
  | some ch => return ch
  | none => fail .expectedRange ["a-zA-Z"]

/-- Commits one or more digits. -/
def takeDigits : Parser (List Char) := do
  match ← takeChar Char.isDigit with
  | some ch => return ch :: (← takeWhile Char.isDigit)
  | none => fail .expectedRange ["0-9"]

end Parser

end Localization
