import Localization.Resource.Grammar.Entry

/-!
# Reading resources

Reading a source never fails. An entry that breaks the grammar becomes junk: its raw text up to
the next line that can start an entry, with a diagnostic that says what is wrong. A plain comment
that touches the message or term behind it belongs to that message or term.

## Main definitions

* `Cursor.skipToEntryStart` — where reading goes on behind a broken entry
* `Cursor.takeEntry` — the next entry or junk
* `attachComments` — comments joined to the messages and terms that they touch
* `Resource.parse`, `Resource.parseBytes?` — the resource of a source
* `Entry.parse` — the first message or term of a source
-/

namespace Localization

namespace Cursor

/-- Commits lines until one starts with a character that can start an entry. -/
def skipLines (c : Cursor) : Cursor :=
  let c' := c.takeLine.2
  match c'.current with
  | none => c'
  | some _ =>
    let next := c'.next
    if next.current.any isEntryStart then next
    else if next.remaining < c.remaining then skipLines next
    else next
termination_by c.remaining

/-- Commits the rest of a broken entry that starts at the given offset. An error in the first
column of a later line that can start an entry ends the broken entry there. -/
def skipToEntryStart (entryStart : Nat) (c : Cursor) : Cursor :=
  if entryStart < c.offset ∧ c.column = 1 ∧ c.current.any isEntryStart then c else c.skipLines

/-- The next entry, or junk if it breaks the grammar. -/
def takeEntry [Lookahead] (c : Cursor) : Entry × Cursor :=
  match Parser.entryLine c.beginCapture with
  | .ok entry c' => (entry, c'.endCapture.2)
  | .error e c' =>
    let (content, c'') := (c'.skipToEntryStart c.offset).endCapture
    let offset := min (max e.offset c.offset) c''.offset
    (.junk ⟨String.ofList content, [e.diagnosticAt offset], ⟨c.offset, c''.offset⟩⟩, c'')

/-- All entries from here on, each with whether it touches the next one: no blank line stands
between the two. -/
def takeEntries [Lookahead] (c : Cursor) : List (Entry × Bool) :=
  match c.current with
  | none => []
  | some _ =>
    let (entry, c₁) := c.takeEntry
    let (blankLines, c₂) := Lookahead.skipBlankLines c₁
    (entry, blankLines = 0) :: if c₂.remaining < c.remaining then takeEntries c₂ else []
termination_by c.remaining

end Cursor

/-- Joins each plain comment to the message or term that it touches. -/
def attachComments : List (Entry × Bool) → List Entry
  | (.comment .plain comment, true) :: (.message message, _) :: rest =>
    .message (message.withComment comment) :: attachComments rest
  | (.comment .plain comment, true) :: (.term message, _) :: rest =>
    .term (message.withComment comment) :: attachComments rest
  | (entry, _) :: rest => entry :: attachComments rest
  | [] => []

namespace Resource

/-- The resource of a text that is read as a whole. -/
def read [Lookahead] (text : List Char) : Resource :=
  let entries := (Lookahead.skipBlankLines (Cursor.atStart text)).2.takeEntries
  ⟨attachComments entries, ⟨0, Text.byteLength text⟩⟩

/-- The resource of a source text. -/
def ofText [Lookahead] (source : List Char) : Resource := read (Cursor.held source)

/-- The resource of a source. -/
def parse [Lookahead] (source : String) : Resource := ofText source.toList

/-- The resource of a source given in UTF-8, unless the bytes are no text. -/
def parseBytes? [Lookahead] (bytes : List UInt8) : Option Resource :=
  (Text.decodeUtf8? bytes).map parse

end Resource

namespace Entry

/-- The first entry that does not start with `#`; a comment in front of it that breaks the
grammar is returned as junk. -/
def first [Lookahead] (c : Cursor) : Entry :=
  let (entry, c') := c.takeEntry
  match c.current, entry with
  | some '#', .junk j => .junk j
  | some '#', _ =>
    let c'' := (Lookahead.skipBlankLines c').2
    if c''.remaining < c.remaining then first c'' else entry
  | _, _ => entry
termination_by c.remaining

/-- The first message or term of a text that is read as a whole. -/
def read [Lookahead] (text : List Char) : Entry :=
  first (Lookahead.skipBlankLines (Cursor.atStart text)).2

/-- The first message or term of a source text. -/
def ofText [Lookahead] (source : List Char) : Entry := read (Cursor.held source)

/-- The first message or term of a source. -/
def parse [Lookahead] (source : String) : Entry := ofText source.toList

end Entry

end Localization
