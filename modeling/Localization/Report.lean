import Localization.Resource.Tree
import Localization.Text.LineTable

/-!
# Reports for a terminal

A report shows each diagnostic with a headline, its position, and the line of the source that it
points into with a caret under the character.

```
error[E0003]: Expected token: "="
 --> app:2:5
  |
2 | bar Bar
  |     ^
```

A summary counts the entries that could not be read.

## Main definitions

* `ColorMode`, `ReportStyle` — whether a report is colored and how it names the source
* `ReportStyle.diagnostic` — the report of one diagnostic
* `ReportStyle.summary` — the last line of a report
* `Resource.junkReport` — the report of all junk of a resource
-/

namespace Localization

/-- When a report is colored. -/
inductive ColorMode
  /-- On a terminal. -/
  | auto
  | always
  | never
  deriving DecidableEq

instance : Inhabited ColorMode := ⟨.auto⟩

/-- Whether a report is colored, given whether it goes to a terminal. -/
def ColorMode.isColored (mode : ColorMode) (terminal : Bool) : Bool :=
  match mode with
  | auto => terminal
  | always => true
  | never => false

/-- The parts of a report that are colored alike. -/
inductive Paint
  /-- What is wrong, in bold red. -/
  | error
  /-- The message, in bold. -/
  | bold
  /-- The frame around the source, in bold blue. -/
  | gutter

/-- The escape sequence that switches a color on. -/
def Paint.escape : Paint → String
  | error => "\x1b[1;31m"
  | bold => "\x1b[1m"
  | gutter => "\x1b[1;34m"

/-- How a report looks. -/
structure ReportStyle where
  colored : Bool
  /-- The name of the source, shown in front of positions. -/
  origin : Option String

namespace ReportStyle

/-- A report without colors and without a name for the source. -/
def plain : ReportStyle := ⟨false, none⟩

variable (style : ReportStyle)

/-- A text in a color. -/
def paint (color : Paint) (text : String) : String :=
  if style.colored then color.escape ++ text ++ "\x1b[0m" else text

/-- A number of spaces. -/
private def spaces (n : Nat) : String := String.ofList (List.replicate n ' ')

/-- The lines of a report on one diagnostic. The source is left out where the position belongs to
no line of it. -/
def diagnosticLines (source : List Char) (table : LineTable) (d : Diagnostic) : List String :=
  let position := table.position source d.span.start
  let number := toString position.line
  let pad := spaces number.length
  let bar := style.paint .gutter "|"
  let location := (style.origin.map (· ++ ":")).getD "" ++ position.text
  let headline :=
    [style.paint .error ("error[" ++ d.code ++ "]") ++ style.paint .bold (": " ++ d.message),
      pad ++ style.paint .gutter "-->" ++ " " ++ location]
  let shown := match table.lineText? source position.line with
    | none => []
    | some text =>
      [pad ++ " " ++ bar,
        style.paint .gutter number ++ " " ++ bar ++ " " ++ String.ofList text,
        pad ++ " " ++ bar ++ " " ++ spaces (position.column - 1) ++ style.paint .error "^"]
  headline ++ shown

/-- Lines as a text, each with a line feed behind it. -/
def joinLines (lines : List String) : String := String.join (lines.map (· ++ "\n"))

/-- The report on diagnostics. -/
def diagnostics (source : List Char) (ds : List Diagnostic) : String :=
  joinLines (ds.flatMap (style.diagnosticLines source (LineTable.ofText source)))

/-- The report on one diagnostic. -/
def diagnostic (source : List Char) (d : Diagnostic) : String := style.diagnostics source [d]

/-- The number of entries that could not be read; empty if there are none. -/
def summary (count : Nat) : String :=
  if count = 0 then ""
  else
    let noun := if count = 1 then "entry" else "entries"
    joinLines [style.paint .error ("could not parse " ++ toString count ++ " " ++ noun)]

end ReportStyle

/-- The plain report on all junk of a resource; empty if there is none. -/
def Resource.junkReport (source : List Char) (resource : Resource) : String :=
  ReportStyle.plain.diagnostics source resource.diagnostics ++
    ReportStyle.plain.summary resource.junk.length

end Localization
