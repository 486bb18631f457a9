/-!
# Spans and positions

A span is a half-open range of byte offsets into a source text; a position is a byte offset
resolved to a line and a column. Offsets count UTF-8 bytes from zero, lines and columns count
from one, and a column counts characters.

## Main definitions

* `Span` — a range of byte offsets, with `contains`, `covers`, `merge` and `point`
* `Span.ofRange` — a checked range, refused beyond `Span.maxOffset` or when it is inverted
* `Position` — an offset with its line and column
-/

namespace Localization

/-- A half-open range of byte offsets into a source text. -/
structure Span where
  /-- Offset of the first byte. -/
  start : Nat
  /-- Offset just behind the last byte. -/
  stop : Nat
  deriving DecidableEq, Inhabited

namespace Span

/-- The largest offset that a span may hold. -/
def maxOffset : Nat := 4294967295

/-- Number of bytes in the span. -/
def length (s : Span) : Nat := s.stop - s.start

/-- A span without bytes. -/
def isEmpty (s : Span) : Bool := s.start = s.stop

/-- Whether the byte at `offset` lies in the span. -/
def contains (s : Span) (offset : Nat) : Bool := s.start ≤ offset ∧ offset < s.stop

/-- Whether `inner` lies in the span, bounds included. -/
def covers (s inner : Span) : Bool := s.start ≤ inner.start ∧ inner.stop ≤ s.stop

/-- The smallest span that covers both. -/
def merge (s t : Span) : Span := ⟨min s.start t.start, max s.stop t.stop⟩

/-- The empty span at `offset`. -/
def point (offset : Nat) : Span := ⟨offset, offset⟩

theorem covers_iff {s inner : Span} :
    s.covers inner ↔ s.start ≤ inner.start ∧ inner.stop ≤ s.stop := by
  simp [covers]

/-- The span as `start..stop`. -/
def text (s : Span) : String := s!"{s.start}..{s.stop}"

/-- Why a range of offsets is no span. -/
inductive RangeError
  /-- The start exceeds `maxOffset`. -/
  | startTooLarge (start : Nat)
  /-- The end exceeds `maxOffset`. -/
  | endTooLarge (stop : Nat)
  /-- The start lies after the end. -/
  | inverted (start stop : Nat)
  deriving DecidableEq

/-- The span of a range; the start is checked first, then the end, then their order. -/
def ofRange (start stop : Nat) : Except RangeError Span :=
  if maxOffset < start then .error (.startTooLarge start)
  else if maxOffset < stop then .error (.endTooLarge stop)
  else if stop < start then .error (.inverted start stop)
  else .ok ⟨start, stop⟩

/-- A number in upper-case hexadecimal digits. -/
private def hexDigits (n : Nat) : String :=
  String.ofList ((Nat.toDigits 16 n).map Char.toUpper)

/-- The sentence that reports a refused range. -/
def RangeError.message : RangeError → String
  | .startTooLarge n =>
    s!"span start {n} (0x{hexDigits n}) exceeds u32::MAX (0x{hexDigits maxOffset})"
  | .endTooLarge n =>
    s!"span end {n} (0x{hexDigits n}) exceeds u32::MAX (0x{hexDigits maxOffset})"
  | .inverted start stop => s!"span start {start} lies after span end {stop}"

end Span

/-- A byte offset resolved to its line and column. -/
structure Position where
  /-- Bytes before the position. -/
  offset : Nat
  /-- Line, counted from one. -/
  line : Nat
  /-- Column in characters, counted from one. -/
  column : Nat
  deriving DecidableEq

namespace Position

/-- The position of the first character of a source. -/
def first : Position := ⟨0, 1, 1⟩

instance : Inhabited Position := ⟨first⟩

/-- The position as `line:column`. -/
def text (p : Position) : String := s!"{p.line}:{p.column}"

end Position

end Localization
