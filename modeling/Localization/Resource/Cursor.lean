import Localization.Resource.CharClass
import Localization.Text.Bytes
import Localization.Text.LineTable

/-!
# Cursors

A cursor reads a source with two positions: the committed one, up to which the text has been
consumed, and the peek position, which looks ahead and can be taken back. A line feed, a carriage
return and the two in that order each read as one line feed, while offsets count the bytes of the
source as it is. Spans hold no offset beyond `Span.maxOffset`, so a longer source is cut at the last
character boundary within it before anything is read.

At the end of the source there is no character, and moving on changes nothing.

## Main definitions

* `Mark` — a place in a text, with `Mark.char?` and `Mark.step`
* `Cursor` — the two positions, the line and column of the first, and the start of a capture
* `Cursor.held`, `Cursor.ofText` — what is read of a source, and the cursor at its start
* `Cursor.next`, `Cursor.peek`, `Cursor.resetPeek`, `Cursor.skipToPeek` — the elementary moves
* `Cursor.skipWhile`, `Cursor.takeWhile`, `Cursor.takeLine`, `Cursor.skipBlankLines` — longer moves
-/

namespace Localization

/-- A place in a text: how many bytes lie before it, and the characters from there on. -/
structure Mark where
  offset : Nat
  rest : List Char
  deriving DecidableEq

namespace Mark

/-- The character at a mark; both characters that end a line read as a line feed. -/
def char? (m : Mark) : Option Char :=
  match m.rest with
  | [] => none
  | c :: _ => some (if c = '\r' then '\n' else c)

/-- The mark behind the character at a mark; a carriage return takes a line feed along. -/
def step (m : Mark) : Mark :=
  match m.rest with
  | [] => m
  | '\r' :: '\n' :: rest => ⟨m.offset + 2, rest⟩
  | c :: rest => ⟨m.offset + c.utf8Size, rest⟩

/-- The mark at a later offset. Where the offset is no character boundary, nothing follows. -/
def seek (m : Mark) (offset : Nat) : Mark :=
  ⟨offset, (Text.dropBytes? (offset - m.offset) m.rest).getD []⟩

theorem step_length_lt {m : Mark} {c : Char} (h : m.char? = some c) :
    m.step.rest.length < m.rest.length := by
  unfold step
  split
  · next hrest => simp [char?, hrest] at h
  · next tail hrest => simp only [hrest, List.length_cons]; omega
  · next hrest => simp only [hrest, List.length_cons]; omega

/-- The mark behind all characters of a class. -/
def skipWhile (p : Char → Bool) (m : Mark) : Mark :=
  match _h : m.char? with
  | some c => if p c then skipWhile p m.step else m
  | none => m
termination_by m.rest.length
decreasing_by exact step_length_lt _h

end Mark

/-- A committed and a peek position in a source. -/
structure Cursor where
  /-- The source, as far as it is held. -/
  source : List Char
  /-- Number of bytes of what is held. -/
  size : Nat
  /-- The committed position. -/
  here : Mark
  /-- The peek position. -/
  ahead : Mark
  /-- Line of the committed position, counted from one. -/
  line : Nat
  /-- Column of the committed position in characters, counted from one. -/
  column : Nat
  /-- Where the capture in progress starts. -/
  captureStart : Option Mark

namespace Cursor

/-! ### The start of a source -/

/-- A source all of whose offsets a span may hold. -/
def Fits (source : List Char) : Prop := Text.byteLength source ≤ Span.maxOffset

instance (source : List Char) : Decidable (Fits source) := inferInstanceAs (Decidable (_ ≤ _))

/-- What is read of a source: all of it, or as many characters as spans can address. -/
def held (source : List Char) : List Char :=
  if Fits source then source else Text.takeWithin Span.maxOffset source

/-- The cursor at the start of a text that it holds as a whole. -/
def atStart (text : List Char) : Cursor :=
  ⟨text, Text.byteLength text, ⟨0, text⟩, ⟨0, text⟩, 1, 1, none⟩

/-- The cursor at the start of a source. -/
def ofText (source : List Char) : Cursor := atStart (held source)

variable (c : Cursor)

/-- The committed offset. -/
def offset : Nat := c.here.offset

/-- Number of bytes behind the committed position. -/
def remaining : Nat := c.size - c.here.offset

/-- The character at the committed position. -/
def current : Option Char := c.here.char?

/-- The character at the peek position. -/
def peeked : Option Char := c.ahead.char?

/-- Line and column of the committed position. -/
def position : Position := ⟨c.here.offset, c.line, c.column⟩

/-! ### Elementary moves -/

/-- Commits one character and takes the peek position along. -/
def next : Cursor :=
  match c.current with
  | none => c
  | some ch =>
    { c with
      here := c.here.step
      ahead := c.here.step
      line := if ch = '\n' then c.line + 1 else c.line
      column := if ch = '\n' then 1 else c.column + 1 }

theorem next_length_lt {c : Cursor} {ch : Char} (h : c.current = some ch) :
    c.next.here.rest.length < c.here.rest.length := by
  simp only [next, h]
  exact Mark.step_length_lt h

/-- Moves the peek position by one character. -/
def peek : Cursor := { c with ahead := c.ahead.step }

/-- Takes the peek position back to the committed one. -/
def resetPeek : Cursor := { c with ahead := c.here }

/-- Takes the peek position to an offset, though never behind the committed one. -/
def resetPeekTo (offset : Nat) : Cursor :=
  { c with ahead := c.here.seek (max offset c.here.offset) }

/-- Commits characters until an offset is reached. -/
def advanceTo (target : Nat) (c : Cursor) : Cursor :=
  match _h : c.current with
  | none => c
  | some _ => if c.here.offset < target then advanceTo target c.next else c
termination_by c.here.rest.length
decreasing_by exact next_length_lt _h

/-- Commits everything up to the peek position. -/
def skipToPeek : Cursor := (c.advanceTo c.ahead.offset).resetPeek

/-! ### Longer moves -/

/-- Commits all characters of a class. -/
def skipWhile (p : Char → Bool) (c : Cursor) : Cursor :=
  match _h : c.current with
  | some ch => if p ch then skipWhile p c.next else c
  | none => c
termination_by c.here.rest.length
decreasing_by exact next_length_lt _h

/-- Commits all characters of a class and returns them. -/
def takeWhile (p : Char → Bool) (c : Cursor) : List Char × Cursor :=
  match _h : c.current with
  | some ch =>
    if p ch then
      let (taken, c') := takeWhile p c.next
      (ch :: taken, c')
    else ([], c)
  | none => ([], c)
termination_by c.here.rest.length
decreasing_by exact next_length_lt _h

/-- Commits the rest of the line without its line break and returns it. -/
def takeLine : List Char × Cursor :=
  let line := c.here.rest.takeWhile (!isLineBreak ·)
  let behind : Mark :=
    ⟨c.here.offset + Text.byteLength line, c.here.rest.dropWhile (!isLineBreak ·)⟩
  (line, { c with here := behind, ahead := behind, column := c.column + line.length })

/-- Commits the blanks within the line. -/
def skipInlineBlanks : Cursor := c.skipWhile isInlineBlank

/-- Moves the peek position behind the blanks within the line. -/
def peekInlineBlanks : Cursor := { c with ahead := c.ahead.skipWhile isInlineBlank }

/-- Commits blank lines and counts them. Blanks at the end of the source are committed as well,
without being counted. A round that commits nothing is the last. -/
def skipBlankLines (c : Cursor) : Nat × Cursor :=
  let p := c.peekInlineBlanks
  match p.peeked with
  | some '\n' =>
    let c' := p.skipToPeek.next
    if c'.remaining < c.remaining then
      let (n, c'') := skipBlankLines c'
      (n + 1, c'')
    else (1, c')
  | none => (0, p.skipToPeek)
  | some _ => (0, p.resetPeek)
termination_by c.remaining

theorem skipWhile_ahead_length_le (p : Char → Bool) (m : Mark) :
    (m.skipWhile p).rest.length ≤ m.rest.length := by
  fun_induction Mark.skipWhile p m with
  | case1 m c h hp ih => exact Nat.le_trans ih (Nat.le_of_lt (Mark.step_length_lt h))
  | case2 => exact Nat.le_refl _
  | case3 => exact Nat.le_refl _

/-- Moves the peek position over blank lines, to the start of the first line with content. -/
def peekBlankLines (c : Cursor) : Cursor :=
  let p := c.peekInlineBlanks
  if _h : p.peeked = some '\n' then peekBlankLines p.peek else c
termination_by c.ahead.rest.length
decreasing_by
  exact Nat.lt_of_lt_of_le (Mark.step_length_lt _h) (skipWhile_ahead_length_le _ _)

/-! ### Raw text -/

/-- The source between two offsets; empty where they are no character boundaries in order. -/
def slice (start stop : Nat) : List Char := (Text.slice? c.source start stop).getD []

/-- Starts a capture at the committed position. -/
def beginCapture : Cursor := { c with captureStart := some c.here }

/-- The source committed since the capture started; empty without a capture. -/
def captured : List Char :=
  match c.captureStart with
  | none => []
  | some start => (Text.takeBytes? (c.here.offset - start.offset) start.rest).getD []

/-- Ends the capture and returns what it holds. -/
def endCapture : List Char × Cursor := (c.captured, { c with captureStart := none })

end Cursor

end Localization
