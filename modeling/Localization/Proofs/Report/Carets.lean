import Localization.Proofs.Resource.Attachment
import Localization.Proofs.Text.Cuts
import Localization.Report

/-!
# Where the carets of a report stand

A report shows the line of the source that an error was found on and puts a caret under the place.
The line comes from a line table, the place from wherever the reading of an entry stopped. It is
found on that line because reading never stops inside a line break: an offset between a carriage
return and its line feed would have a column beyond the text that is shown.

An error is reported inside the junk that it turned its entry into, or right behind it: where the
next entry starts or the source ends.

## Main definitions

* `LineTable.HasLine` — the lines that a span covers
* `Diagnostic.rows` — the five rows of a report on one diagnostic

## Main statements

* `Resource.junk_cases`, `Resource.junk_line_cases` — where junk ends, and where its errors are
* `Resource.junkReport_carets` — every caret stands under the line that is shown
-/

namespace Localization

open Text (EndsLine IsCut Joins byteLength)

/-- The lines that a span covers: those of its bytes. -/
def LineTable.HasLine (table : LineTable) (span : Span) (line : ℕ) : Prop :=
  ∃ byte, span.contains byte ∧ table.lineAt byte = line

/-! ### Junk where it was read -/

namespace Resource

variable {source : List Char} {junk : Junk}

/-- Junk ends where an entry can start or where the source ends, and what is reported about it
stands within it or right behind it, inside no line break. -/
theorem junk_cases (h : junk ∈ (read source).junk) :
    ∃ before text rest, source = before ++ (text ++ rest) ∧ text ≠ [] ∧
      ¬Joins before (text ++ rest) ∧ Cursor.Resumes text rest ∧
      junk.span = spanOf (byteLength before) text ∧
      ∀ d ∈ junk.diagnostics, IsCut source d.span.start ∧
        junk.span.start ≤ d.span.start ∧ d.span.start ≤ junk.span.stop := by
  obtain ⟨before, c, hbefore, hc, hne, htake⟩ := exists_taken h
  obtain ⟨text, e, k, hrun, htext, htakes, hresumes, rfl⟩ := hc.exists_junk hne htake
  have hsource : source = before ++ c.here.rest := hbefore.rest
  have hoffset : c.offset = byteLength before := hbefore.offset.trans (Nat.zero_add _)
  have hrest := htakes.rest
  have hfirst : ¬Joins before c.here.rest :=
    Text.not_joins_of_head? (hc.content.resolve_left hne).head?_ne
  refine ⟨before, text, c.behindEntry.here.rest, by rw [hsource, hrest], htext, hrest ▸ hfirst,
    hresumes, by rw [hoffset], List.forall_mem_singleton.2 ?_⟩
  obtain ⟨taken, hsplit, hjoins, hstop⟩ := Cursor.exists_stop hrun
  have hbehind := htakes.offset
  change IsCut source (min (max e.offset c.offset) c.behindEntry.offset) ∧
    c.offset ≤ min (max e.offset c.offset) c.behindEntry.offset ∧
    min (max e.offset c.offset) c.behindEntry.offset ≤ c.offset + byteLength text
  refine ⟨?_, by omega, by omega⟩
  rcases Nat.le_total e.offset c.behindEntry.offset with hle | hle
  -- where it stopped within the junk, that place is reported, and no line break is torn there
  · rw [show min (max e.offset c.offset) c.behindEntry.offset = byteLength (before ++ taken) by
      rw [Text.byteLength_append]; omega]
    exact ⟨_, k.here.rest, by rw [hsource, hsplit, ← List.append_assoc], rfl,
      Text.not_joins_append (hsplit ▸ hfirst) hjoins⟩
  · -- where it stopped behind the junk, the end of the junk is reported
    rw [show min (max e.offset c.offset) c.behindEntry.offset = byteLength (before ++ text) by
      rw [Text.byteLength_append]; omega]
    exact ⟨_, c.behindEntry.here.rest, by rw [hsource, hrest, ← List.append_assoc], rfl,
      Text.not_joins_append (hrest ▸ hfirst) hresumes.not_joins⟩

/-- What is reported about junk is on a line of it, or it is on the line behind it, where an entry
can start or the source ends. -/
theorem junk_line_cases (h : junk ∈ (read source).junk) {d : Diagnostic}
    (hd : d ∈ junk.diagnostics) :
    (LineTable.ofText source).HasLine junk.span ((LineTable.ofText source).lineAt d.span.start) ∨
      (LineTable.ofText source).lineAt d.span.start =
          (LineTable.ofText source).lineAt (junk.span.stop - 1) + 1 ∧
        d.span.start = junk.span.stop ∧
        ∃ before after, source = before ++ after ∧ byteLength before = d.span.start ∧
          Cursor.Resumes before after := by
  obtain ⟨before, text, rest, hsource, htext, hfirst, hresumes, hspan, hplace⟩ := junk_cases h
  obtain ⟨-, hle, hge⟩ := hplace d hd
  rcases Nat.lt_or_eq_of_le hge with hlt | heq
  · exact .inl ⟨d.span.start, decide_eq_true ⟨hle, hlt⟩, rfl⟩
  have hstop : junk.span.stop = byteLength (before ++ text) := by
    rw [hspan, Text.byteLength_append]
    rfl
  have hstart : junk.span.start = byteLength before := by rw [hspan]; rfl
  rw [← List.append_assoc] at hsource
  have hcut : ¬Joins (before ++ text) rest := Text.not_joins_append hfirst hresumes.not_joins
  -- right behind the junk: if its last line is complete, that is the start of the next line
  by_cases hline : EndsLine text
  · have hends : EndsLine (before ++ text) := (Text.endsLine_append htext).2 hline
    refine .inr ⟨?_, heq, before ++ text, rest, hsource, by rw [heq, hstop],
      hresumes.imp_right fun hstart => ⟨hends, hstart.2⟩⟩
    rw [heq, hstop, hsource]
    exact LineTable.lineAt_of_endsLine hends hcut
  · -- the last character of the junk is on the line where the source ends
    obtain ⟨init, ch, rfl⟩ := (List.eq_nil_or_concat text).resolve_left htext
    rw [List.concat_eq_append] at *
    have hbreak : isLineBreak ch = false := by simpa [EndsLine] using hline
    have hpos := ch.utf8Size_pos
    have hsource' : source = (before ++ init) ++ ch :: rest := by simp [hsource]
    have hlast : byteLength (before ++ (init ++ [ch])) = byteLength ((before ++ init) ++ [ch]) := by
      rw [List.append_assoc]
    refine .inl ⟨byteLength (before ++ init), decide_eq_true ?_, ?_⟩
    · rw [hstart, hstop, hlast]
      simp only [Text.byteLength_append, Text.byteLength_cons, Text.byteLength_nil]
      omega
    · rw [heq, hstop, hlast, hsource', LineTable.lineAt_concat hbreak]

end Resource

/-! ### Rows of a report -/

/-- The rows of a report that shows a line: what is wrong, where it is, and the line between an
empty row and the row of the caret. -/
def Diagnostic.rows (d : Diagnostic) (place : Position) (text : List Char) : List String :=
  let number := toString place.line
  let margin := String.ofList (List.replicate number.length ' ')
  let indent := String.ofList (List.replicate (place.column - 1) ' ')
  ["error[" ++ d.code ++ "]" ++ (": " ++ d.message),
    margin ++ "-->" ++ " " ++ place.text,
    margin ++ " " ++ "|",
    number ++ " " ++ "|" ++ " " ++ String.ofList text,
    margin ++ " " ++ "|" ++ " " ++ indent ++ "^"]

namespace ReportStyle

/-- Where a line is found, all rows are printed. -/
theorem plain_diagnostic {source text : List Char} {d : Diagnostic}
    (h : (LineTable.ofText source).lineText? source
      ((LineTable.ofText source).position source d.span.start).line = some text) :
    plain.diagnostic source d =
      joinLines (d.rows ((LineTable.ofText source).position source d.span.start) text) := by
  rw [diagnostic, diagnostics, List.flatMap_singleton, diagnosticLines]
  simp only [h]
  rw [show (plain.origin.map (· ++ ":")).getD "" = "" from rfl, String.empty_append]
  rfl

/-- A report on diagnostics is made of the reports on each of them. -/
theorem diagnostics_eq_join (style : ReportStyle) (source : List Char) (ds : List Diagnostic) :
    style.diagnostics source ds = String.join (ds.map (style.diagnostic source)) := by
  induction ds with
  | nil => rfl
  | cons d ds ih =>
    rw [List.map_cons, String.join_cons, ← ih]
    simp only [diagnostic, diagnostics, joinLines, List.flatMap_cons, List.flatMap_nil,
      List.append_nil, List.map_append, String.join_append]

end ReportStyle

namespace Resource

/-- Every caret stands under the line that is shown. The line of a diagnostic is a line of the
source, and the caret stands under one of its characters or right behind them, so the report on it
has all its rows. The line is one that the junk covers, or the one behind it where an entry can
start or the source ends. A report on all junk is made of these reports and the summary. -/
theorem junkReport_carets (source : String) (hfits : Cursor.Fits source.toList) :
    (∀ junk ∈ (parse source).junk, ∀ d ∈ junk.diagnostics,
      let table := LineTable.ofText source.toList
      let place := table.position source.toList d.span.start
      ∃ text, table.lineText? source.toList place.line = some text ∧
        (∀ ch ∈ text, isLineBreak ch = false) ∧
        1 ≤ place.column ∧ place.column ≤ text.length + 1 ∧
        ReportStyle.plain.diagnostic source.toList d = ReportStyle.joinLines (d.rows place text) ∧
        (table.HasLine junk.span place.line ∨
          place.line = table.lineAt (junk.span.stop - 1) + 1 ∧ d.span.start = junk.span.stop ∧
            ∃ before after, source.toList = before ++ after ∧
              byteLength before = d.span.start ∧ Cursor.Resumes before after)) ∧
    junkReport source.toList (parse source) =
      String.join ((parse source).diagnostics.map (ReportStyle.plain.diagnostic source.toList)) ++
        ReportStyle.plain.summary (parse source).junk.length := by
  refine ⟨fun junk hjunk d hd => ?_, ?_⟩
  · rw [parse, ofText_of_fits hfits] at hjunk
    obtain ⟨_, _, _, -, -, -, -, -, hplace⟩ := junk_cases hjunk
    obtain ⟨front, behind, htext, hcolumn, hbreaks⟩ := LineTable.exists_shown (hplace d hd).1
    refine ⟨front ++ behind, htext, hbreaks, ?_, ?_, ReportStyle.plain_diagnostic htext,
      junk_line_cases hjunk hd⟩
    · rw [hcolumn]
      exact Nat.le_add_left _ _
    · rw [hcolumn, List.length_append]
      omega
  · rw [junkReport, ReportStyle.diagnostics_eq_join]

/-- The choice has no end, which shows at the start of the next entry. -/
theorem junkReport_carets_behind :
    Cursor.Fits "a = \x7b $x ->\r\n *[k] v\r\nb = 1".toList ∧
    ∃ junk ∈ (parse "a = \x7b $x ->\r\n *[k] v\r\nb = 1").junk, ∃ d ∈ junk.diagnostics,
      junk.span = ⟨0, 22⟩ ∧ d.span.start = 22 ∧
      ReportStyle.plain.diagnostic "a = \x7b $x ->\r\n *[k] v\r\nb = 1".toList d =
        ReportStyle.joinLines (d.rows ⟨22, 3, 1⟩ "b = 1".toList) := by
  generalize hsource : "a = \x7b $x ->\r\n *[k] v\r\nb = 1" = source
  have hread : ((parse source).junk.head?.map fun junk =>
      (junk.span, junk.diagnostics.map (·.span.start))) = some (⟨0, 22⟩, [22]) := by
    subst hsource
    decide +kernel
  have hplace : (LineTable.ofText source.toList).position source.toList 22 = ⟨22, 3, 1⟩ := by
    subst hsource
    decide +kernel
  have hline : (LineTable.ofText source.toList).lineText? source.toList 3 =
      some "b = 1".toList := by
    subst hsource
    decide +kernel
  obtain ⟨junk, hhead, hjunk⟩ := Option.map_eq_some_iff.1 hread
  obtain ⟨hspan, hdiagnostics⟩ := Prod.mk.inj hjunk
  obtain ⟨d, hd, hstart⟩ := List.mem_map.1 (hdiagnostics ▸ List.mem_singleton_self 22)
  have hmem := List.mem_of_mem_head? hhead
  have hfits : Cursor.Fits source.toList := by
    subst hsource
    decide
  obtain ⟨text, htext, -, -, -, hreport, -⟩ := (junkReport_carets source hfits).1 junk hmem d hd
  rw [hstart, hplace, hline] at htext
  rw [hstart, hplace] at hreport
  cases htext
  exact ⟨hfits, junk, hmem, d, hd, hspan, hstart, hreport⟩

end Resource

end Localization
