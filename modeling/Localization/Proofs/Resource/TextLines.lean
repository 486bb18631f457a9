import Localization.Proofs.Resource.SingleMessages
import Localization.Proofs.Resource.Spelling.Lines

/-!
# Texts on several lines

Any text can be the value of a message, on one line or on several. Only braces and quotes have to be
escaped; a backslash needs no care, whatever it stands in front of. A line behind the first may be
indented by any blanks, and may be empty unless it is the last. The lines are read as a single text
in which they are joined by line feeds.

## Main definitions

* `escaped` — a line with its braces and quotes escaped
* `FurtherLine` — a line behind the first, with the line ending and the blanks in front of it

## Main statements

* `FurtherLine.spellsText` — what is written is spelled as a text
* `Resource.body_textLines` — a text that is written on lines is read back
-/

namespace Localization

open Text (Ends IsBlanks IsEnding StartsBreak byteLength isVisible)

variable {line raw value : List Char} {next : Option Char}

theorem IsLine.isVisible_head {ch : Char} (h : IsLine line) (hch : ch ∈ line.head?)
    (hblank : isInlineBlank ch = false) : isVisible ch := by
  simp [isVisible, hblank, h ch (List.mem_of_mem_head? hch)]

/-! ### Escapes -/

/-- A line with a backslash in front of each opening brace and each quote. -/
def escaped (line : List Char) : List Char :=
  line.flatMap fun ch => if ch = '{' ∨ ch = '"' then ['\\', ch] else [ch]

theorem escaped_cons (ch : Char) (line : List Char) :
    escaped (ch :: line) =
      if ch = '{' ∨ ch = '"' then '\\' :: ch :: escaped line else ch :: escaped line := by
  unfold escaped
  rw [List.flatMap_cons]
  split <;> rfl

/-- An escaped line starts as the line does, or with a backslash. -/
theorem exists_escaped_cons {p : Char → Prop} (hne : line ≠ []) (hhead : ∀ ch ∈ line.head?, p ch)
    (hslash : p '\\') :
    ∃ ch rest, escaped line = ch :: rest ∧ (ch ≠ '{' ∧ ch ≠ '"') ∧ p ch := by
  cases line with
  | nil => exact absurd rfl hne
  | cons ch line =>
    rw [escaped_cons]
    split
    · exact ⟨'\\', _, rfl, by decide, hslash⟩
    · next hplain => exact ⟨ch, _, rfl, not_or.1 hplain, hhead ch rfl⟩

/-- An escaped line in front of a text is spelled as the line and the text. A backslash at its end
stands for itself, since no brace and no quote follows. -/
theorem SpellsText.escaped_append (hline : IsLine line) (h : SpellsText raw value next)
    (hnext : ∀ ch ∈ raw.head?.or next, ch ≠ '{' ∧ ch ≠ '"') :
    SpellsText (escaped line ++ raw) (line ++ value) next := by
  induction line with
  | nil => exact h
  | cons ch line ih =>
    obtain ⟨hbreak, hline⟩ := isLine_cons.1 hline
    have hrest := ih hline
    rw [escaped_cons]
    split
    · next hescaped => exact .escape hescaped hrest
    · next hplain =>
      obtain ⟨hbrace, -⟩ := not_or.1 hplain
      by_cases hslash : ch = '\\'
      · subst hslash
        refine .slash (fun ch hch => ?_) hrest
        by_cases hnil : line = []
        · subst hnil
          exact hnext ch hch
        · obtain ⟨first, rest, hescaped, hfirst, -⟩ :=
            exists_escaped_cons (p := fun _ => True) hnil (fun _ _ => trivial) trivial
          rw [hescaped] at hch
          obtain rfl : first = ch := Option.some.inj hch
          exact hfirst
      · exact .plain hbrace hslash hbreak hrest

/-! ### Lines behind the first -/

/-- A line behind the first one: the line ending in front of it, its indentation and its text, which
is empty or starts with a character that does not end the pattern. -/
structure FurtherLine where
  ending : List Char
  indentation : List Char
  line : List Char
  isEnding_ending : IsEnding ending
  isBlanks_indentation : IsBlanks indentation
  indentation_ne_nil : indentation ≠ []
  isLine_line : IsLine line
  goesOn : ∀ ch ∈ line.head?, isInlineBlank ch = false ∧ Cursor.endsPattern ch = false

namespace FurtherLine

/-- How the line is written. -/
def source (further : FurtherLine) : List Char :=
  further.ending ++ (further.indentation ++ escaped further.line)

variable {more : List FurtherLine}

theorem startsBreak_source (hne : more ≠ []) : StartsBreak (more.flatMap source) := by
  cases more with
  | nil => exact absurd rfl hne
  | cons further more =>
    rw [List.flatMap_cons, source, List.append_assoc]
    exact further.isEnding_ending.startsBreak

theorem ne_of_mem_head?_source : ∀ ch ∈ (more.flatMap source).head?, ch ≠ '{' ∧ ch ≠ '"' := by
  intro ch hch
  by_cases hnil : more = []
  · subst hnil
    cases hch
  · obtain ⟨first, hfirst, hbreak⟩ := startsBreak_source hnil
    obtain rfl : first = ch := Option.some.inj (hfirst.symm.trans hch)
    obtain rfl | rfl := Text.isLineBreak_iff.1 hbreak <;> decide

/-- A line starts with a visible character that does not end the pattern, also when it is
escaped. -/
theorem exists_visible (further : FurtherLine) (hne : further.line ≠ []) (tail : List Char) :
    ∃ ch ∈ (escaped further.line ++ tail).head?, isVisible ch ∧ Cursor.endsPattern ch = false := by
  have hhead : ∀ ch ∈ further.line.head?, isVisible ch ∧ Cursor.endsPattern ch = false := by
    intro ch hch
    obtain ⟨hblank, hends⟩ := further.goesOn ch hch
    exact ⟨further.isLine_line.isVisible_head hch hblank, hends⟩
  obtain ⟨ch, rest, hescaped, -, hvisible⟩ := exists_escaped_cons hne hhead (by decide)
  exact ⟨ch, by rw [hescaped]; rfl, hvisible⟩

/-- Lines behind the first are spelled as a text, each behind a line feed, if the last one is not
empty. -/
theorem spellsText (hlast : ∀ last ∈ more.getLast?, last.line ≠ []) :
    SpellsText (more.flatMap source) (more.flatMap fun further => '\n' :: further.line) none := by
  induction more with
  | nil => exact .stop (by simp)
  | cons further more ih =>
    have hmore : SpellsText (more.flatMap source) _ none := ih fun last hmem => by
      refine hlast last ?_
      cases more with
      | nil => cases hmem
      | cons next more => rwa [List.getLast?_cons_cons]
    have hline := SpellsText.escaped_append further.isLine_line hmore
      (by simpa using ne_of_mem_head?_source)
    rw [List.flatMap_cons, List.flatMap_cons, source, List.append_assoc, List.append_assoc]
    by_cases hempty : further.line = []
    · -- an empty line is followed by another line, whose ending starts with no blank
      have hne : more ≠ [] := by
        rintro rfl
        exact hlast further rfl hempty
      refine .blankLine further.isEnding_ending (fun _ => ?_) further.isBlanks_indentation ?_ hline
      · obtain ⟨ch, hch⟩ := Option.isSome_iff_exists.1
          (List.isSome_head?.2 further.indentation_ne_nil)
        rw [List.head?_append_of_ne_nil _ further.indentation_ne_nil, hch]
        rintro ⟨⟩
        exact absurd (further.isBlanks_indentation _ (List.mem_of_mem_head? hch)) (by decide)
      · rw [hempty]
        exact startsBreak_source hne
    · refine .indent further.isEnding_ending further.isBlanks_indentation
        further.indentation_ne_nil ?_ hline
      rw [Option.or_none]
      exact further.exists_visible hempty _

end FurtherLine

/-! ### Texts in a source -/

theorem intercalate_lines (first : List Char) (more : List FurtherLine) :
    List.intercalate ['\n'] (first :: more.map FurtherLine.line) =
      first ++ more.flatMap fun further => '\n' :: further.line := by
  induction more generalizing first with
  | nil => simp
  | cons further more ih =>
    rw [List.map_cons, List.intercalate_cons_cons, ih, List.flatMap_cons]
    simp

/-- Joined lines end as the last of them does, unless that one is empty. -/
theorem getLast?_intercalate (first : List Char) {lines : List (List Char)}
    (hlast : ∀ last ∈ (first :: lines).getLast?, last ≠ []) :
    ∃ last ∈ (first :: lines).getLast?,
      (List.intercalate ['\n'] (first :: lines)).getLast? = last.getLast? := by
  induction lines generalizing first with
  | nil => exact ⟨first, rfl, by simp⟩
  | cons second lines ih =>
    rw [List.getLast?_cons_cons] at hlast ⊢
    obtain ⟨last, hmem, hsame⟩ := ih second hlast
    refine ⟨last, hmem, ?_⟩
    have hne : List.intercalate ['\n'] (second :: lines) ≠ [] := by
      rw [← List.getLast?_isSome, hsame, List.getLast?_isSome]
      exact hlast last hmem
    rw [List.intercalate_cons_cons, List.getLast?_append_of_ne_nil _ hne, hsame]

namespace Resource

/-- A text that is written on lines is read back if they fit: the message has no other content, and
its text is the lines joined by line feeds. -/
theorem body_textLines {id first : List Char} {more : List FurtherLine} (hid : IsName id)
    (hline : IsLine first) (hfirst : first ≠ []) (hhead : Ends isInlineBlank first.head?)
    (hlast : ∀ last ∈ (first :: more.map FurtherLine.line).getLast?,
      last ≠ [] ∧ Ends isInlineBlank last.getLast?) :
    let source := assignment id (escaped first ++ more.flatMap FurtherLine.source)
    let value := List.intercalate ['\n'] (first :: more.map FurtherLine.line)
    let span : Span := ⟨byteLength id + 3, byteLength source⟩
    Cursor.Fits source → (ofText source).body =
      [.message ⟨⟨String.ofList id, ⟨0, byteLength id⟩⟩,
        some ⟨[.text (String.ofList value) span], span⟩, [], none, ⟨0, byteLength source⟩⟩] := by
  intro source value span hfits
  have hmore : ∀ last ∈ more.getLast?, last.line ≠ [] := by
    intro last hmem
    refine (hlast last.line ?_).1
    cases more with
    | nil => cases hmem
    | cons next more =>
      rw [List.map_cons, List.getLast?_cons_cons, ← List.map_cons, List.getLast?_map, hmem]
      rfl
  have hspells : SpellsText (escaped first ++ more.flatMap FurtherLine.source) value none := by
    have htext := (FurtherLine.spellsText hmore).escaped_append hline
      (by simpa using FurtherLine.ne_of_mem_head?_source)
    rwa [← intercalate_lines] at htext
  -- the last line ends visibly, so nothing of the value is trimmed
  have hends : Ends isInlineBlank value.getLast? := by
    obtain ⟨last, hmem, hsame⟩ := getLast?_intercalate first fun last hmem => (hlast last hmem).1
    rw [hsame]
    exact (hlast last hmem).2
  have hne : value ≠ [] := by
    rw [show value = _ from intercalate_lines first more]
    exact List.append_ne_nil_of_left_ne_nil hfirst _
  have hvisible : ∃ ch rest, escaped first ++ more.flatMap FurtherLine.source = ch :: rest ∧
      isVisible ch := by
    obtain ⟨ch, rest, hescaped, -, hch⟩ := exists_escaped_cons (p := (isVisible ·)) hfirst
      (fun ch hch => hline.isVisible_head hch (hhead ch hch)) (by decide)
    exact ⟨ch, rest ++ more.flatMap FurtherLine.source, by rw [hescaped]; rfl, hch⟩
  have hbody := body_assignment hid hvisible (hspells.spellsPattern (byteLength id + 3) hne hends)
  rw [spanOf, ← byteLength_assignment, identifierAt, spanOf, Nat.zero_add] at hbody
  rw [ofText_of_fits hfits]
  exact hbody

/-- A brace behind a backslash, an empty line, a line that looks like a comment and a backslash at
the end are read back. -/
theorem body_textLines_escapes :
    (ofText "k = a\\\\\x7b\r\n \r\t# \\\"b\\\" \\".toList).body =
      [.message ⟨⟨"k", ⟨0, 1⟩⟩, some ⟨[.text "a\\\x7b\n\n# \"b\" \\" ⟨4, 22⟩], ⟨4, 22⟩⟩, [], none,
        ⟨0, 22⟩⟩] := by
  let empty : FurtherLine := ⟨['\r', '\n'], [' '], [], .inr (.inr rfl), Text.isBlanks_space,
    List.cons_ne_nil _ _, by simp [IsLine], by simp⟩
  let last : FurtherLine := ⟨['\r'], ['\t'], ['#', ' ', '"', 'b', '"', ' ', '\\'], .inr (.inl rfl),
    Text.isBlanks_cons.2 ⟨rfl, Text.isBlanks_nil⟩, List.cons_ne_nil _ _,
    by simp [IsLine, isLineBreak], by rintro ch ⟨⟩; decide⟩
  have hbody := @body_textLines ['k'] ['a', '\\', '{'] [empty, last]
    (isName_singleton (by decide)) (by simp [IsLine, isLineBreak]) (List.cons_ne_nil _ _)
    (Text.ends_some.2 (by decide)) (by
      rintro line ⟨⟩
      exact ⟨List.cons_ne_nil _ _, Text.ends_some.2 (by decide)⟩)
  have hsource : assignment ['k'] (escaped ['a', '\\', '{'] ++
      [empty, last].flatMap FurtherLine.source) =
      "k = a\\\\\x7b\r\n \r\t# \\\"b\\\" \\".toList := by decide +kernel
  have hsize : byteLength "k = a\\\\\x7b\r\n \r\t# \\\"b\\\" \\".toList = 22 := by decide +kernel
  have hvalue : String.ofList (List.intercalate ['\n']
      (['a', '\\', '{'] :: [empty, last].map FurtherLine.line)) = "a\\\x7b\n\n# \"b\" \\" := by
    decide +kernel
  dsimp only at hbody
  rw [hsource, hsize, hvalue] at hbody
  exact hbody (by decide +kernel)

end Resource

end Localization
