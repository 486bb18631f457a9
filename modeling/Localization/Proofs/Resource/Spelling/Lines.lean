import Localization.Proofs.Resource.Spelling.Entry
import Localization.Proofs.Text.Slices

/-!
# Spellings and lines

Selectors, keys and names lie within a line. Values, attributes and comments run over lines, but
none of them ends with a line break, so what ends the line of an entry is none of its text.

## Main statements

* `SpellsSelector.isLine` — selectors lie within a line
* `SpellsElements.not_endsLine`, `SpellsMessage.not_endsLine` — texts that run over lines
* `SpellsEntry.not_endsLine` — a comment covers no blank line
-/

namespace Localization

open Text (EndsLine IsBlanks IsEnding IsIndent Joins byteLength isVisible)

variable {text rest before blanks : List Char} {start : Nat} {next : Option Char}

/-! ### Texts within a line -/

theorem isLine_cons {ch : Char} : IsLine (ch :: text) ↔ isLineBreak ch = false ∧ IsLine text :=
  List.forall_mem_cons

theorem isLine_append : IsLine (text ++ rest) ↔ IsLine text ∧ IsLine rest := List.forall_mem_append

/-- No part of a text within a line ends the line. -/
theorem IsLine.not_endsLine (h : IsLine text) (htext : text = before ++ rest) :
    ¬EndsLine before := by
  rintro ⟨ch, hch, hbreak⟩
  rw [h ch (by rw [htext]; exact List.mem_append_left _ (List.mem_of_getLast? hch))] at hbreak
  cases hbreak

/-- A text within a line has no CR that could join a line feed behind it. -/
theorem IsLine.not_joins (h : IsLine text) : ¬Joins text rest :=
  Text.not_joins_of_not_endsLine (h.not_endsLine (List.append_nil text).symm)

/-- A class without line breaks. -/
theorem isLine_of_forall {p : Char → Bool} (hp : ∀ ch, isLineBreak ch → p ch = false)
    (h : ∀ ch ∈ text, p ch) : IsLine text := fun ch hch => by
  by_contra hbreak
  rw [Bool.not_eq_false] at hbreak
  have hp := hp ch hbreak
  rw [h ch hch] at hp
  cases hp

theorem Text.IsBlanks.isLine (h : IsBlanks text) : IsLine text :=
  isLine_of_forall (fun _ => Text.not_isInlineBlank_of_isLineBreak) h

theorem Text.isLine_of_spaces (h : ∀ ch ∈ text, ch = ' ') : IsLine text := fun ch hch => by
  rw [h ch hch]
  rfl

theorem IsName.isLine (h : IsName text) : IsLine text := by
  obtain ⟨first, more, hfirst, hmore, rfl⟩ := h
  exact isLine_cons.2 ⟨isLineBreak_of_isIdentifierStart hfirst,
    isLine_of_forall (fun _ => isIdentifierChar_of_isLineBreak) hmore⟩

/-- The name of a message or a term stays within a line. -/
theorem IsEntryName.isLine (h : IsEntryName text) : IsLine text := by
  rcases h with hname | ⟨name, hname, rfl⟩
  · exact hname.isLine
  · exact isLine_cons.2 ⟨rfl, hname.isLine⟩

theorem IsDigits.isLine (h : IsDigits text) : IsLine text :=
  isLine_of_forall (fun _ => isDigit_of_isLineBreak) h.2

/-- A number stays within a line. -/
theorem SpellsNumber.isLine (h : SpellsNumber text next) : IsLine text := by
  have hsign : ∀ {sign : List Char}, sign = [] ∨ sign = ['-'] → IsLine sign := by
    rintro sign (rfl | rfl)
    · exact isLine_nil
    · exact isLine_cons.2 ⟨rfl, isLine_nil⟩
  cases h with
  | whole h hdigits _ => exact isLine_append.2 ⟨hsign h, hdigits.isLine⟩
  | fraction h hdigits hplaces _ =>
    exact isLine_append.2 ⟨hsign h, isLine_append.2 ⟨hdigits.isLine,
      isLine_cons.2 ⟨rfl, hplaces.isLine⟩⟩⟩

/-- What stands between quotes stays within a line. -/
theorem Quotes.isLine {value : List Char} (h : Quotes text value) : IsLine text := by
  induction h with
  | nil => exact isLine_nil
  | plain _ _ hbreak _ ih => exact isLine_cons.2 ⟨hbreak, ih⟩
  | pair hpair _ ih =>
    refine isLine_cons.2 ⟨rfl, isLine_cons.2 ⟨?_, ih⟩⟩
    rcases hpair with rfl | rfl <;> rfl
  | unicode hdigits _ _ ih =>
    exact isLine_cons.2 ⟨rfl, isLine_cons.2 ⟨rfl,
      isLine_append.2 ⟨isLine_of_forall (fun _ => isHexDigit_of_isLineBreak) hdigits, ih⟩⟩⟩
  | slash _ _ _ _ ih => exact isLine_cons.2 ⟨rfl, ih⟩

/-- A key stays within a line. -/
theorem SpellsKey.isLine {key : VariantKey} (h : SpellsKey start text key next) : IsLine text := by
  cases h with
  | number hdigits => exact hdigits.isLine
  | name hfirst hmore _ hspaces _ =>
    exact isLine_cons.2 ⟨isLineBreak_of_isIdentifierStart hfirst, isLine_append.2
      ⟨isLine_of_forall (fun _ => isVariantNameChar_of_isLineBreak) hmore,
        Text.isLine_of_spaces hspaces⟩⟩

mutual

/-- A selector stays within a line, with all its arguments. -/
theorem SpellsSelector.isLine : ∀ {start text next} (expression : Expression),
    SpellsSelector start text expression next → IsLine text
  | _, _, _, .call _ args _, h => by
    cases h with
    | call hname _ hblanks hargs =>
      simp [isLine_cons, isLine_append, isLine_nil, hname.isLine, hblanks.isLine,
        SpellsArguments.isLine args hargs, isLineBreak]
  | _, _, _, .stringLiteral _ _, h => by
    cases h with
    | string hquotes => simp [isLine_cons, isLine_append, isLine_nil, hquotes.isLine, isLineBreak]
  | _, _, _, .numberLiteral _ _, h => by
    cases h with
    | number hdigits => exact hdigits.isLine
  | _, _, _, .variableReference _ _, h => by
    cases h with
    | var hname _ => exact isLine_cons.2 ⟨rfl, hname.isLine⟩
  | _, _, _, .messageReference _, h => h.isEntryName.1.isLine
  | _, _, _, .attribute _ _ _, h => by
    cases h with
    | field hname hfield _ =>
      exact isLine_append.2 ⟨hname.isLine, isLine_cons.2 ⟨rfl, hfield.isLine⟩⟩
  | _, _, _, .variant _ _ _, h => by
    cases h with
    | variant hname hblanks hkey hblanks' =>
      simp [isLine_cons, isLine_append, isLine_nil, hname.isLine, hblanks.isLine, hkey.isLine,
        hblanks'.isLine, isLineBreak]

theorem SpellsArguments.isLine : ∀ {start before text} (args : List CallArgument),
    SpellsArguments start before text args → IsLine text
  | _, _, _, [], h => by
    cases h
    exact isLine_nil
  | _, _, _, argument :: args, h => by
    cases h with
    | last hspells hblanks _ =>
      exact isLine_append.2 ⟨SpellsArgument.isLine argument hspells, hblanks.isLine⟩
    | more hspells hblanks _ hblanks' hmore =>
      simp [isLine_cons, isLine_append, SpellsArgument.isLine argument hspells, hblanks.isLine,
        hblanks'.isLine, SpellsArguments.isLine args hmore, isLineBreak]

theorem SpellsArgument.isLine : ∀ {start text next} (argument : CallArgument),
    SpellsArgument start text argument next → IsLine text
  | _, _, _, .positional value, h => by
    cases h with
    | positional hspells => exact SpellsSelector.isLine value hspells
  | _, _, _, .named _ value _, h => by
    cases h with
    | named hname hblanks hblanks' _ hspells =>
      simp [isLine_cons, isLine_append, hname.isLine, hblanks.isLine, hblanks'.isLine,
        SpellsSelector.isLine value hspells, isLineBreak]

end

/-! ### Texts that run over lines -/

theorem Text.IsBlanks.not_endsLine (h : IsBlanks text) : ¬EndsLine text :=
  h.isLine.not_endsLine (List.append_nil text).symm

/-- An indent ends behind a line break, with blanks. -/
theorem Text.IsIndent.not_endsLine (h : IsIndent text) : ¬EndsLine text := by
  rintro ⟨ch, hch, hbreak⟩
  obtain ⟨last, hlast, hblank⟩ := h.endsBlank
  rw [Option.mem_unique hch hlast, Text.not_isLineBreak_of_isInlineBlank hblank] at hbreak
  cases hbreak

theorem Text.not_endsLine_nil : ¬EndsLine [] := fun ⟨_, hch, _⟩ => by cases hch

/-- A text does not end a line if neither of its parts does. -/
theorem Text.not_endsLine_append (h : ¬EndsLine text) (h' : ¬EndsLine rest) :
    ¬EndsLine (text ++ rest) := by
  intro hends
  rcases hends.of_append with rfl | hends
  · rw [List.append_nil] at hends
    exact h hends
  · exact h' hends

theorem Text.not_endsLine_append_cons {ch : Char} (hch : isLineBreak ch = false)
    (h : ¬EndsLine rest) : ¬EndsLine (text ++ ch :: rest) :=
  fun hends => h (((Text.endsLine_append (List.cons_ne_nil _ _)).1 hends).of_cons hch)

/-- A text of a pattern does not end its line. -/
theorem SpellsText.not_endsLine {value : List Char} (h : SpellsText text value next) :
    ¬EndsLine text := by
  induction h with
  | stop _ => simp [EndsLine]
  | plain _ _ hbreak _ ih => exact fun hends => ih (hends.of_cons hbreak)
  | escape hch _ ih =>
    refine fun hends => ih ((hends.of_cons rfl).of_cons ?_)
    rcases hch with rfl | rfl <;> rfl
  | slash _ _ ih => exact fun hends => ih (hends.of_cons rfl)
  | blankLine _ _ hblanks hbreak _ ih =>
    intro hends
    rcases hends.of_append with hnil | hends
    · simp [(List.append_eq_nil_iff.1 hnil).2, Text.StartsBreak] at hbreak
    · exact ih (hends.of_append_blanks hblanks)
  | indent _ hblanks hne _ _ ih =>
    intro hends
    rw [Text.endsLine_append (List.append_ne_nil_of_left_ne_nil hne _)] at hends
    exact ih (hends.of_append_blanks hblanks)

/-- The elements of a pattern do not end their line. -/
theorem SpellsElements.not_endsLine {elements : List PatternElement}
    (h : SpellsElements start text elements) : ¬EndsLine text := by
  induction elements generalizing start text with
  | nil =>
    cases h
    exact Text.not_endsLine_nil
  | cons element elements ih =>
    cases h with
    | text _ hspells hrest => exact Text.not_endsLine_append hspells.not_endsLine (ih hrest)
    | placeable _ hrest =>
      rw [← List.cons_append]
      exact Text.not_endsLine_append_cons rfl (ih hrest)

/-- A pattern does not end its line; the line break behind it is not its own. -/
theorem SpellsPattern.not_endsLine {pattern : Pattern} (h : SpellsPattern start text pattern) :
    ¬EndsLine text := by
  cases h with
  | mk helements => exact helements.not_endsLine

/-- A text with a value at its end does not end with a line break. -/
theorem SpellsPattern.not_endsLine_append {pattern : Pattern} {lead : List Char}
    (h : SpellsPattern start text pattern) (hlead : IsLead lead text) (before : List Char) :
    ¬EndsLine (before ++ text) := by
  obtain ⟨ch, more, rfl, -⟩ := hlead.exists_visible
  rw [Text.endsLine_append (List.cons_ne_nil _ _)]
  exact h.not_endsLine

theorem SpellsVariant.not_endsLine {hasDefault : Bool} {variant : Variant}
    (h : SpellsVariant start text hasDefault variant) : ¬EndsLine text := by
  cases h with
  | @mk _ _ _ star blanks key keyText blanks' lead _ _ _ _ _ _ _ hlead hspells =>
    simpa using hspells.not_endsLine_append hlead
      (star ++ '[' :: (blanks ++ (keyText ++ (blanks' ++ ']' :: lead))))

/-- Variants do not end their line. -/
theorem SpellsVariants.not_endsLine {count : Nat} {default? : Option Nat} {variants : List Variant}
    {defaultIndex : Nat} (h : SpellsVariants start text count default? variants defaultIndex) :
    ¬EndsLine text := by
  induction variants generalizing start text count default? with
  | nil => cases h
  | cons variant variants ih =>
    cases h with
    | last hgap hspells _ => exact Text.not_endsLine_append hgap.not_endsLine hspells.not_endsLine
    | more hgap hspells hmore =>
      exact Text.not_endsLine_append hgap.not_endsLine
        (Text.not_endsLine_append hspells.not_endsLine (ih hmore))

theorem SpellsAttribute.not_endsLine {named : Attribute} (h : SpellsAttribute start text named) :
    ¬EndsLine text := by
  cases h with
  | @mk name blanks lead text value _ _ hlead hspells =>
    simpa using hspells.not_endsLine_append hlead ('.' :: (name ++ (blanks ++ '=' :: lead)))

/-- Attributes do not end their line. -/
theorem SpellsAttributes.not_endsLine {attributes : List Attribute}
    (h : SpellsAttributes start text attributes) : ¬EndsLine text := by
  induction h with
  | nil => exact Text.not_endsLine_nil
  | cons hgap hspells _ ih =>
    exact Text.not_endsLine_append hgap.not_endsLine
      (Text.not_endsLine_append hspells.not_endsLine ih)

theorem SpellsValue.not_endsLine {value : Option Pattern} (h : SpellsValue start text value) :
    ¬EndsLine text := by
  cases h with
  | none hblanks => exact hblanks.not_endsLine
  | some hlead hspells => exact hspells.not_endsLine_append hlead _

/-- A message or a term does not end its line. -/
theorem SpellsMessage.not_endsLine {message : Message} (h : SpellsMessage start text message) :
    ¬EndsLine text := by
  cases h with
  | @mk name blanks valueText _ attributesText _ _ _ hvalue hattributes _ _ =>
    rw [← List.append_assoc]
    exact Text.not_endsLine_append_cons rfl
      (Text.not_endsLine_append hvalue.not_endsLine hattributes.not_endsLine)

/-! ### Comments -/

/-- A line of a comment stays within a line. -/
theorem MarkedLine.isLine {line content : List Char} (h : MarkedLine line content) :
    IsLine line := by
  cases h with
  | empty => exact isLine_nil
  | text hcontent => exact isLine_cons.2 ⟨rfl, hcontent⟩

theorem SlashedLine.isLine {line content : List Char} (h : SlashedLine line content) :
    IsLine line := by
  cases h with
  | spaced hcontent => exact isLine_cons.2 ⟨rfl, hcontent⟩
  | bare _ hcontent => exact hcontent

/-- No line of a comment is blank. -/
theorem CommentLines.not_endsLine {Line : List Char → List Char → Prop}
    {mark : Char} {marks content : List Char}
    (hLine : ∀ {line content}, Line line content → IsLine line)
    (hmarks : ∀ ch ∈ mark :: marks, isVisible ch)
    (h : CommentLines Line (mark :: marks) text content) (hblanks : IsBlanks blanks)
    (htext : (mark :: marks) ++ text = before ++ blanks) : ¬EndsLine before := by
  have hvisible : ∀ tail more, blanks ≠ more ++ mark :: (marks ++ tail) := by
    rintro tail more rfl
    have hmark := hmarks mark (by simp)
    rw [Text.not_isVisible_of_isInlineBlank (hblanks mark (by simp))] at hmark
    cases hmark
  have hfirst : IsLine (mark :: marks) := fun ch hch =>
    Text.not_isLineBreak_of_isVisible (hmarks ch hch)
  induction h generalizing before with
  | last hline =>
    refine IsLine.not_endsLine (fun ch hch => ?_) htext
    exact (List.mem_append.1 hch).elim (hfirst ch) (hLine hline ch)
  | @more line content ending rest more hline hending _ ih =>
    have hsplit : (mark :: marks ++ line ++ ending) ++ (mark :: marks ++ rest) =
        before ++ blanks := by
      simpa using htext
    intro hends
    -- cut within the first line, the blanks would reach over the marks of the next one
    rcases List.append_eq_append_iff.1 hsplit with ⟨within, rfl, hwithin⟩ | ⟨more, -, hmore⟩
    · rcases hends.of_append with rfl | hends
      · exact hvisible rest [] (by simpa using hwithin.symm)
      · exact ih hwithin hends
    · exact hvisible rest more (by simpa using hmore)

/-- A comment covers no blank line. -/
theorem SpellsEntry.not_endsLine_of_append {level : CommentLevel} {comment : Comment}
    (h : SpellsEntry start text (.comment level comment) rest) (hblanks : IsBlanks blanks)
    (htext : text = before ++ blanks) : ¬EndsLine before := by
  generalize hentry : Entry.comment level comment = entry at h
  cases h with
  | message => split at hentry <;> cases hentry
  | @marked count text content _ hlevel _ hlines _ _ =>
    obtain ⟨more, rfl⟩ := Nat.exists_eq_add_of_le' hlevel
    have hlines : CommentLines MarkedLine ('#' :: marks more) text content := hlines
    refine hlines.not_endsLine MarkedLine.isLine (fun ch hch => ?_) hblanks htext
    rw [show '#' :: marks more = marks (more + 1) from rfl, marks, List.mem_replicate] at hch
    rw [hch.2]
    rfl
  | slashed hlines _ _ =>
    exact hlines.not_endsLine SlashedLine.isLine (by simp [isVisible, isInlineBlank, isLineBreak])
      hblanks htext
  | header hblanks hfirst hmore _ hspaces hblanks' _ =>
    refine IsLine.not_endsLine ?_ htext
    have hmore := isLine_of_forall (fun _ => isVariantNameChar_of_isLineBreak) hmore
    have hspaces := Text.isLine_of_spaces hspaces
    refine isLine_cons.2 ⟨rfl, isLine_cons.2 ⟨rfl, isLine_append.2 ⟨hblanks.isLine,
      isLine_cons.2 ⟨isLineBreak_of_isIdentifierStart hfirst, ?_⟩⟩⟩⟩
    simp [isLine_cons, isLine_append, isLine_nil, hblanks'.isLine, hmore, hspaces, isLineBreak]

/-- No entry ends with a line break. -/
theorem SpellsEntry.not_endsLine {entry : Entry} (h : SpellsEntry start text entry rest) :
    ¬EndsLine text := by
  have hcomment : ∀ {level comment}, SpellsEntry start text (.comment level comment) rest →
      ¬EndsLine text := fun h => h.not_endsLine_of_append Text.isBlanks_nil (List.append_nil _).symm
  cases h with
  | message hspells _ _ => exact hspells.not_endsLine
  | marked hlevel hle hlines hends hnone => exact hcomment (.marked hlevel hle hlines hends hnone)
  | slashed hlines hends hnone => exact hcomment (.slashed hlines hends hnone)
  | header hblanks hfirst hmore hlast hspaces hblanks' hend =>
    exact hcomment (.header hblanks hfirst hmore hlast hspaces hblanks' hend)

end Localization
