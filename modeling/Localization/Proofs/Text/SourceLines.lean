import Localization.Proofs.Text.Folding
import Localization.Proofs.Text.LineTable
import Mathlib.Data.List.Infix

/-!
# The lines of a source

A source is made of lines that end with line breaks, and of a last line that ends with the source.
Its line table describes these lines: where they start, which of them an offset lies in, and what
their texts are. A line and a column lead back to the offset that they were computed from, also
between the two characters of a line break.

## Main definitions

* `Text.Line` — a line and the line break that ends it
* `Text.HasLines` — what the lines of a source are
* `Text.breakEnds` — where the line breaks of lines end

## Main statements

* `Text.exists_hasLines` — every source is made of lines
* `LineTable.starts_of_hasLines` — where the lines start
* `LineTable.lineText?_eq` — the texts of the lines
* `LineTable.exists_moved` — from a line and a column back to the offset
* `LineTable.describes_source` — what a line table says about its source
-/

namespace Localization

namespace Text

/-- A line and the line break that ends it. -/
structure Line where
  text : List Char
  ending : List Char

/-- A line with its line break. -/
def Line.chars (line : Line) : List Char := line.text ++ line.ending

/-- Lines with their line breaks, one behind the other. -/
def joined (lines : List Line) : List Char := lines.flatMap Line.chars

/-- A source is made of lines and of a last one that no line break ends. No line holds a character
of a line break, and no line break goes on in the next line. -/
inductive HasLines : List Char → List Line → List Char → Prop
  | last {last} : (∀ ch ∈ last, isLineBreak ch = false) → HasLines last [] last
  | line {line rest lines last} : (∀ ch ∈ line.text, isLineBreak ch = false) →
      IsEnding line.ending → ¬Joins line.ending rest → HasLines rest lines last →
      HasLines (line.chars ++ rest) (line :: lines) last

/-- The offsets at which the line breaks of lines end. -/
def breakEnds (lines : List Line) : List ℕ :=
  lines.inits.tail.map fun front => byteLength (joined front)

variable {source last : List Char} {lines front back : List Line} {line : Line}

theorem joined_append (front back : List Line) :
    joined (front ++ back) = joined front ++ joined back := List.flatMap_append

theorem joined_cons (line : Line) (lines : List Line) :
    joined (line :: lines) = line.chars ++ joined lines := List.flatMap_cons

/-- The line breaks are the pieces between the lines, so nothing of the source is left out. -/
theorem HasLines.eq_joined (h : HasLines source lines last) : source = joined lines ++ last := by
  induction h with
  | last => rfl
  | line _ _ _ _ ih => rw [joined_cons, List.append_assoc, ← ih]

theorem HasLines.line_of_mem (h : HasLines source lines last) :
    ∀ line ∈ lines, (∀ ch ∈ line.text, isLineBreak ch = false) ∧ IsEnding line.ending := by
  induction h with
  | last => exact nofun
  | line htext hending _ _ ih => exact List.forall_mem_cons.2 ⟨⟨htext, hending⟩, ih⟩

theorem HasLines.not_break_last (h : HasLines source lines last) :
    ∀ ch ∈ last, isLineBreak ch = false := by
  induction h with
  | last hlast => exact hlast
  | line _ _ _ _ ih => exact ih

/-- Every source is made of lines, of which the first one ends with the first line break. -/
theorem exists_hasLines (source : List Char) : ∃ lines last, HasLines source lines last := by
  have htext : ∀ ch ∈ source.takeWhile (!isLineBreak ·), isLineBreak ch = false :=
    fun ch hch => by simpa using List.mem_takeWhile_imp hch
  have hsplit := List.takeWhile_append_dropWhile (p := (!isLineBreak ·)) (l := source)
  cases hbehind : source.dropWhile (!isLineBreak ·) with
  | nil =>
    rw [hbehind, List.append_nil] at hsplit
    rw [hsplit] at htext
    exact ⟨[], source, .last htext⟩
  | cons ch tail =>
    -- the first character of a line break ends the first line, with one behind it or not
    have hbreak : isLineBreak ch := by
      simpa using ends_dropWhile (!isLineBreak ·) source ch (by rw [hbehind]; rfl)
    obtain ⟨rest, hrest⟩ := Option.isSome_iff_exists.1 (afterBreak?_isSome_iff.2 hbreak)
    have hlength := afterBreak?_length_lt hrest
    obtain ⟨ending, hending, hfeed, htail⟩ := afterBreak?_eq_some_iff.1 hrest
    have hle := List.length_dropWhile_le (!isLineBreak ·) source
    obtain ⟨lines, last, hlines⟩ := exists_hasLines rest
    refine ⟨⟨source.takeWhile (!isLineBreak ·), ending⟩ :: lines, last, ?_⟩
    have hsource : source = Line.chars ⟨source.takeWhile (!isLineBreak ·), ending⟩ ++ rest := by
      rw [Line.chars, List.append_assoc, ← htail, ← hbehind, hsplit]
    conv in HasLines source => rw [hsource]
    exact .line htext hending (hending.not_joins hfeed) hlines
termination_by source.length
decreasing_by
  rw [hbehind] at hle
  omega

theorem IsEnding.isLineBreak_of_mem {ending : List Char} (h : IsEnding ending) :
    ∀ ch ∈ ending, isLineBreak ch := by
  rcases h with rfl | rfl | rfl <;> simp [isLineBreak]

/-- A line is its text again when the line breaks at its end are left out. -/
theorem rdropWhile_isLineBreak {text ending : List Char}
    (htext : ∀ ch ∈ text, isLineBreak ch = false) (hending : ∀ ch ∈ ending, isLineBreak ch) :
    (text ++ ending).rdropWhile isLineBreak = text :=
  rdropWhile_append_of_ends hending fun ch hch => htext ch (List.mem_of_getLast? hch)

/-- Of two cuts of a source the one with fewer bytes in front comes first. -/
theorem exists_between {before after start rest : List Char}
    (h : start ++ rest = before ++ after) (hle : byteLength start ≤ byteLength before) :
    ∃ moved, before = start ++ moved ∧ rest = moved ++ after := by
  rcases List.append_eq_append_iff.1 h with ⟨moved, rfl, rfl⟩ | ⟨moved, rfl, rfl⟩
  · exact ⟨moved, rfl, rfl⟩
  · rw [byteLength_append] at hle
    obtain rfl : moved = [] := byteLength_eq_zero_iff.1 (by omega)
    exact ⟨[], by simp, rfl⟩

end Text

namespace LineTable

open Text (HasLines IsEnding Joins Line breakEnds byteLength joined)

variable {source rest last : List Char} {lines front back : List Line} {line : Line}

/-! ### Line starts -/

/-- Behind a line with its line break the next line starts. -/
theorem startsFrom_line (offset : ℕ) (htext : ∀ ch ∈ line.text, isLineBreak ch = false)
    (hending : IsEnding line.ending) (hcut : ¬Joins line.ending rest) :
    startsFrom offset (line.chars ++ rest) =
      (offset + byteLength line.chars) :: startsFrom (offset + byteLength line.chars) rest := by
  have hbreak : ¬Joins line.text (line.ending ++ rest) := Text.not_joins_of_left htext
  rw [Line.chars, List.append_assoc, startsFrom_append offset hbreak,
    startsFrom_eq_nil offset htext, startsFrom_append _ hcut, startsFrom_isEnding _ hending,
    Text.byteLength_append, Nat.add_assoc]
  rfl

/-- Each line starts behind the lines in front of it. -/
theorem startsFrom_of_hasLines (h : HasLines source lines last) (offset : ℕ) :
    offset :: startsFrom offset source =
      lines.inits.map fun front => offset + byteLength (joined front) := by
  induction h generalizing offset with
  | last hlast =>
    rw [startsFrom_eq_nil offset hlast]
    rfl
  | line htext hending hcut _ ih =>
    rw [startsFrom_line offset htext hending hcut, ih, List.inits_cons, List.map_cons,
      List.map_map]
    refine congrArg₂ _ rfl (List.map_congr_left fun front _ => ?_)
    rw [Function.comp_apply, Text.joined_cons, Text.byteLength_append, Nat.add_assoc]

theorem starts_of_hasLines (h : HasLines source lines last) :
    (ofText source).starts = lines.inits.map fun front => byteLength (joined front) := by
  have hstarts := startsFrom_of_hasLines h 0
  simp only [Nat.zero_add] at hstarts
  exact hstarts

theorem starts_eq_breakEnds (h : HasLines source lines last) :
    (ofText source).starts = 0 :: breakEnds lines := by
  rw [starts_of_hasLines h]
  cases lines <;> rfl

theorem count_of_hasLines (h : HasLines source lines last) :
    (ofText source).count = lines.length + 1 := by
  rw [count, starts_of_hasLines h, List.length_map, List.length_inits]

theorem lineStart?_of_hasLines (h : HasLines source (front ++ back) last) :
    (ofText source).lineStart? (front.length + 1) = some (byteLength (joined front)) := by
  have hlength : front.length < (front ++ back).inits.length := by
    rw [List.length_inits, List.length_append]
    omega
  rw [lineStart?, if_neg (Nat.succ_ne_zero _), Nat.add_sub_cancel, starts_of_hasLines h,
    List.getElem?_map, List.getElem?_eq_getElem hlength, List.getElem_inits,
    List.take_left, Option.map_some]

theorem lineStart?_eq_none {n : ℕ} (h : HasLines source lines last) (hn : lines.length < n) :
    (ofText source).lineStart? (n + 1) = none := by
  have hcount := count_of_hasLines h
  rw [count] at hcount
  rw [lineStart?, if_neg (Nat.succ_ne_zero _), Nat.add_sub_cancel]
  exact List.getElem?_eq_none (by omega)

/-! ### Texts of lines -/

/-- A line is cut out at its start and at the next one's, and its line break is left out. -/
theorem lineText?_of_slice {n start stop : ℕ} {whole : List Char}
    (hstart : (ofText source).lineStart? n = some start)
    (hstop : ((ofText source).lineStart? (n + 1)).getD (byteLength source) = stop)
    (hslice : Text.slice? source start stop = some whole) :
    (ofText source).lineText? source n = some (whole.rdropWhile isLineBreak) := by
  rw [lineText?, hstart]
  simp only [Option.bind_eq_bind, Option.bind_some, hstop, hslice]
  rfl

theorem lineText?_of_hasLines (h : HasLines source (front ++ line :: back) last) :
    (ofText source).lineText? source (front.length + 1) = some line.text := by
  obtain ⟨htext, hending⟩ := h.line_of_mem line (by simp)
  have hsource : source = joined front ++ (line.chars ++ (joined back ++ last)) := by
    rw [h.eq_joined, Text.joined_append, Text.joined_cons, List.append_assoc, List.append_assoc]
  have hstart := lineStart?_of_hasLines h
  -- the next line starts behind this one and its line break
  rw [List.append_cons] at h
  have hnext := lineStart?_of_hasLines h
  rw [List.length_append, List.length_singleton, Text.joined_append, Text.byteLength_append,
    show joined [line] = line.chars from List.flatMap_singleton ..] at hnext
  have hslice := Text.slice?_append (joined front) line.chars (joined back ++ last)
  rw [← hsource] at hslice
  rw [lineText?_of_slice hstart (by rw [hnext, Option.getD_some]) hslice, Line.chars,
    Text.rdropWhile_isLineBreak htext hending.isLineBreak_of_mem]

/-- No line starts behind the last one, so that one is cut out up to the end of the source. -/
theorem lineText?_last (h : HasLines source lines last) :
    (ofText source).lineText? source (lines.length + 1) = some last := by
  have hstart := @lineStart?_of_hasLines source last lines [] (by rwa [List.append_nil])
  have hnext := lineStart?_eq_none h (Nat.lt_succ_self _)
  have hslice := Text.slice?_append (joined lines) last []
  rw [List.append_nil, ← Text.byteLength_append, ← h.eq_joined] at hslice
  have htrim := @Text.rdropWhile_isLineBreak last [] h.not_break_last nofun
  rw [List.append_nil] at htrim
  rw [lineText?_of_slice hstart (by rw [hnext, Option.getD_none]) hslice, htrim]

/-- The texts of the lines stand under their numbers, and nothing else does. -/
theorem lineText?_eq (h : HasLines source lines last) (n : ℕ) :
    (ofText source).lineText? source n =
      if n = 0 then none else (lines.map Line.text ++ [last])[n - 1]? := by
  cases n with
  | zero => rfl
  | succ n =>
    rw [if_neg (Nat.succ_ne_zero n), Nat.add_sub_cancel]
    rcases Nat.lt_trichotomy n lines.length with hlt | rfl | hgt
    · obtain ⟨front, line, back, rfl, rfl⟩ :
          ∃ front line back, lines = front ++ line :: back ∧ front.length = n :=
        ⟨lines.take n, lines[n], lines.drop (n + 1), by simp, by simp [hlt.le]⟩
      rw [lineText?_of_hasLines h]
      simp
    · rw [lineText?_last h]
      simp
    · rw [lineText?, lineStart?_eq_none h hgt, List.getElem?_eq_none (by simp; omega)]
      rfl

/-! ### Positions -/

/-- The line of an offset starts at a cut that is not behind the offset. -/
theorem exists_lineStart? (source : List Char) (offset : ℕ) :
    ∃ start rest, source = start ++ rest ∧ byteLength start ≤ offset ∧
      (ofText source).lineStart? ((ofText source).lineAt offset) = some (byteLength start) := by
  obtain ⟨lines, last, h⟩ := Text.exists_hasLines source
  have hline := lineAt_eq_countP source offset
  have hcount := count_of_hasLines h
  have hle : (ofText source).lineAt offset ≤ (ofText source).count :=
    hline.trans_le List.countP_le_length
  have hpos : 0 < (ofText source).lineAt offset := Nat.succ_pos _
  obtain ⟨index, hindex⟩ := Nat.exists_eq_add_one.2 hpos
  -- the lines in front of the line of the offset
  have hfront : (lines.take index).length = index := by
    rw [List.length_take]
    omega
  rw [← List.take_append_drop index lines] at h
  have hstart := lineStart?_of_hasLines h
  rw [hfront] at hstart
  refine ⟨joined (lines.take index), joined (lines.drop index) ++ last, ?_, ?_, ?_⟩
  · rw [h.eq_joined, Text.joined_append, List.append_assoc]
  · have hstarts : (ofText source).starts.getD index 0 =
        byteLength (joined (lines.take index)) := by
      rw [lineStart?, if_neg (Nat.succ_ne_zero _), Nat.add_sub_cancel] at hstart
      rw [List.getD_eq_getElem?_getD, hstart, Option.getD_some]
    rw [← hstarts]
    exact (getD_le_iff offset (pairwise_starts source) (by rw [count] at hle; omega)).2 (by omega)
  · rw [hindex, hstart]

/-- From the start of its line an offset is as many characters away as its column says. -/
theorem exists_moved {before after : List Char} (h : source = before ++ after) :
    ∃ start moved,
      (ofText source).lineStart? ((ofText source).position source (byteLength before)).line =
        some start ∧
      Text.dropBytes? start source = some (moved ++ after) ∧
      ((ofText source).position source (byteLength before)).column = moved.length + 1 ∧
      start + byteLength moved = byteLength before := by
  obtain ⟨start, rest, hsource, hle, hstart⟩ := exists_lineStart? source (byteLength before)
  -- both the line start and the offset are cuts, so what lies between them is a text
  obtain ⟨moved, rfl, rfl⟩ := Text.exists_between (hsource.symm.trans h) hle
  have hlength : min (byteLength (start ++ moved)) (byteLength source) =
      byteLength start + byteLength moved := by
    rw [h, Text.byteLength_append (start ++ moved), Text.byteLength_append start]
    omega
  have hslice := Text.slice?_append start moved after
  rw [← hsource] at hslice
  refine ⟨byteLength start, moved, hstart, ?_, ?_, (Text.byteLength_append ..).symm⟩
  · rw [hsource]
    exact Text.dropBytes?_append _ _
  · simp only [position, hstart, hlength, Option.getD_some, hslice]

/-- The lines of a source start in order, one behind each line break; the line of an offset counts
the line breaks that end up to there; the lines without their line breaks are what is found under
their numbers, and nothing else is; and the position of a character leads back to it. -/
theorem describes_source (source : List Char) :
    ∃ lines last, HasLines source lines last ∧
      source = lines.flatMap (fun line => line.text ++ line.ending) ++ last ∧
      (ofText source).starts = 0 :: breakEnds lines ∧
      (ofText source).starts.Pairwise (· < ·) ∧
      (∀ offset, (ofText source).lineAt offset = 1 + (breakEnds lines).countP (· ≤ offset)) ∧
      (ofText source).count = lines.length + 1 ∧
      (∀ n, (ofText source).lineText? source n =
        if n = 0 then none else (lines.map Line.text ++ [last])[n - 1]?) ∧
      (∀ n text, (ofText source).lineText? source n = some text →
        ∀ ch ∈ text, isLineBreak ch = false) ∧
      ∀ before after, source = before ++ after → ∃ start moved,
        (ofText source).lineStart? ((ofText source).position source (byteLength before)).line =
          some start ∧
        Text.dropBytes? start source = some (moved ++ after) ∧
        ((ofText source).position source (byteLength before)).column = moved.length + 1 ∧
        start + byteLength moved = byteLength before := by
  obtain ⟨lines, last, h⟩ := Text.exists_hasLines source
  have hstarts := starts_eq_breakEnds h
  refine ⟨lines, last, h, h.eq_joined, hstarts, pairwise_starts source, fun offset => ?_,
    count_of_hasLines h, lineText?_eq h, fun n text htext => ?_,
    fun before after hcut => exists_moved hcut⟩
  -- the first start is at zero, at or before every offset
  · rw [lineAt_eq_countP, hstarts, List.countP_cons_of_pos (by simp), Nat.add_comm]
  · rw [lineText?_eq h] at htext
    split_ifs at htext
    rcases List.mem_append.1 (List.mem_of_getElem? htext) with hmem | hlast
    · obtain ⟨line, hline, rfl⟩ := List.mem_map.1 hmem
      exact (h.line_of_mem line hline).1
    · obtain rfl := List.mem_singleton.1 hlast
      exact h.not_break_last

/-- A carriage return in front of another line break is a line break of its own. Between a carriage
return and its line feed the line goes on. -/
theorem describes_source_mixed :
    (ofText "a\r\r\né\n".toList).position "a\r\r\né\n".toList 3 = ⟨3, 2, 2⟩ ∧
    ∃ start moved, (ofText "a\r\r\né\n".toList).lineStart? 2 = some start ∧
      moved.length = 1 ∧ start + byteLength moved = 3 := by
  have hposition : (ofText "a\r\r\né\n".toList).position "a\r\r\né\n".toList 3 = ⟨3, 2, 2⟩ := by
    decide +kernel
  obtain ⟨lines, last, -, -, -, -, -, -, -, -, hmoved⟩ := describes_source "a\r\r\né\n".toList
  obtain ⟨start, moved, hstart, -, hcolumn, hoffset⟩ := hmoved "a\r\r".toList "\né\n".toList rfl
  rw [show byteLength "a\r\r".toList = 3 by decide +kernel] at hstart hcolumn hoffset
  rw [hposition] at hstart hcolumn
  exact ⟨hposition, start, moved, hstart, Nat.succ_injective hcolumn.symm, hoffset⟩

end LineTable

end Localization
