import Localization.Proofs.Resource.Spelling.CanonicalPattern
import Localization.Proofs.Resource.Spelling.Lines

/-!
# Canonical spellings of entries

Comments are spelled with `#` on every line, whatever marks they were read from, and every
attribute stands on an indented line of its own.

## Main definitions

* `Message.spelling`, `commentSpelling` — messages without their comments, and comments

## Main statements

* `SpellsMessage.canonical`, `SpellsEntry.comment_canonical` — canonical spellings spell what they
  are the spellings of, up to spans
-/

namespace Localization

open Text (IsBlanks byteLength)

variable {start : Nat} {text rest : List Char}

/-! ### Messages and terms -/

/-- The canonical spelling of an attribute. -/
def Attribute.spelling (named : Attribute) : List Char :=
  '.' :: (named.id.name.toList ++ ' ' :: '=' :: ' ' :: named.value.spelling)

/-- The canonical spelling of attributes, each on a line of its own. -/
def attributesSpelling (attributes : List Attribute) : List Char :=
  attributes.flatMap fun named => indentation ++ named.spelling

/-- The canonical spelling of the value of a message, from behind its `=`. -/
def valueSpelling : Option Pattern → List Char
  | none => []
  | some value => ' ' :: value.spelling

/-- The canonical spelling of a message or a term without its comment. -/
def Message.spelling (message : Message) : List Char :=
  message.id.name.toList ++
    ' ' :: '=' :: (valueSpelling message.value ++ attributesSpelling message.attributes)

theorem SpellsAttribute.canonical {named : Attribute} (h : SpellsAttribute start text named)
    (start' : Nat) :
    ∃ named', SpellsAttribute start' named.spelling named' ∧
      named'.mapOffsets origin = named.mapOffsets origin := by
  cases h with
  | @mk name _ _ _ value hname _ hlead hvalue =>
    obtain ⟨value', hvalue', hsame⟩ := hvalue.canonical value hlead.exists_visible
      (start' + byteLength ('.' :: (name ++ ' ' :: '=' :: [' '])))
    rw [Attribute.spelling, name_identifierAt]
    refine ⟨_, .mk hname Text.isBlanks_space (hvalue.isLead hlead) hvalue', ?_⟩
    simp only [Attribute.mapOffsets, hsame]
    rfl

theorem SpellsAttributes.canonical {attributes : List Attribute}
    (h : SpellsAttributes start text attributes) (start' : Nat) :
    ∃ attributes', SpellsAttributes start' (attributesSpelling attributes) attributes' ∧
      attributes'.map (·.mapOffsets origin) = attributes.map (·.mapOffsets origin) := by
  induction attributes generalizing start text start' with
  | nil => exact ⟨[], .nil, rfl⟩
  | cons named attributes ih =>
    cases h with
    | cons _ hnamed hattributes =>
      obtain ⟨named', hnamed', hsame⟩ := hnamed.canonical (start' + byteLength indentation)
      obtain ⟨attributes', hattributes', hsame'⟩ :=
        ih hattributes (start' + byteLength (indentation ++ named.spelling))
      rw [attributesSpelling, List.flatMap_cons, List.append_assoc]
      exact ⟨_, .cons isIndent_indentation hnamed' hattributes', by
        rw [List.map_cons, List.map_cons, hsame, hsame']⟩

theorem SpellsValue.canonical {value : Option Pattern} (h : SpellsValue start text value)
    (start' : Nat) :
    ∃ value', SpellsValue start' (valueSpelling value) value' ∧
      value'.map (·.mapOffsets origin) = value.map (·.mapOffsets origin) := by
  cases h with
  | none _ => exact ⟨.none, .none Text.isBlanks_nil, rfl⟩
  | @some _ _ value hlead hvalue =>
    obtain ⟨value', hvalue', hsame⟩ :=
      hvalue.canonical value hlead.exists_visible (start' + byteLength [' '])
    exact ⟨_, .some (hvalue.isLead hlead) hvalue', congrArg Option.some hsame⟩

/-- Messages and terms are spelled by their canonical spellings. -/
theorem SpellsMessage.canonical {message : Message} (h : SpellsMessage start text message)
    (start' : Nat) :
    ∃ message', SpellsMessage start' message.spelling message' ∧
      message'.mapOffsets origin = message.mapOffsets origin := by
  cases h with
  | @mk name _ _ value _ attributes hname _ hvalue hattributes hterm hmessage =>
    obtain ⟨value', hvalue', hsame⟩ :=
      hvalue.canonical (start' + byteLength (name ++ ' ' :: ['=']))
    obtain ⟨attributes', hattributes', hsame'⟩ := hattributes.canonical
      (start' + byteLength (name ++ ' ' :: '=' :: valueSpelling value))
    have hnone : value'.isNone = value.isNone := by
      rw [← Option.isNone_map, hsame, Option.isNone_map]
    have hempty : attributes'.isEmpty = attributes.isEmpty := by
      rw [← List.isEmpty_map, hsame', List.isEmpty_map]
    rw [Message.spelling, name_identifierAt]
    refine ⟨_, .mk hname Text.isBlanks_space hvalue' hattributes' (hnone ▸ hterm)
      (hnone ▸ hempty ▸ hmessage), ?_⟩
    simp only [Message.mapOffsets, hsame, hsame']
    rfl

/-! ### Comments -/

/-- How many `#` the lines of a comment start with. -/
def CommentLevel.depth : CommentLevel → Nat
  | .plain => 1
  | .group => 2
  | .resource => 3

theorem CommentLevel.commentLevel_depth (level : CommentLevel) :
    Parser.commentLevel level.depth = level := by
  cases level <;> rfl

theorem CommentLevel.one_le_depth (level : CommentLevel) : 1 ≤ level.depth := by
  cases level <;> decide

theorem CommentLevel.depth_le_three (level : CommentLevel) : level.depth ≤ 3 := by
  cases level <;> decide

/-- The canonical spelling of a line of a comment behind its marks. -/
def lineSpelling (line : List Char) : List Char := if line = [] then [] else ' ' :: line

/-- The lines of a comment, each with its marks and its line break. -/
def commentSpelling (level : CommentLevel) (content : List Char) : List Char :=
  (content.splitOn '\n').flatMap fun line => marks level.depth ++ (lineSpelling line ++ ['\n'])

theorem isLine_of_not_mem {line : List Char} (hfeed : '\n' ∉ line) (hreturn : '\r' ∉ line) :
    IsLine line := by
  intro ch hch
  rw [Bool.eq_false_iff, Ne, Text.isLineBreak_iff]
  rintro (rfl | rfl)
  · exact hfeed hch
  · exact hreturn hch

theorem markedLine_lineSpelling {line : List Char} (h : IsLine line) :
    MarkedLine (lineSpelling line) line := by
  unfold lineSpelling
  split
  · next hnil =>
    subst hnil
    exact .empty
  · exact .text h

theorem commentSpelling_of_not_mem {line : List Char} (h : '\n' ∉ line) (level : CommentLevel) :
    commentSpelling level line = marks level.depth ++ (lineSpelling line ++ ['\n']) := by
  rw [commentSpelling, List.splitOn_eq_singleton h, List.flatMap_singleton]

theorem commentSpelling_append (line content : List Char) (level : CommentLevel) :
    commentSpelling level (line ++ '\n' :: content) =
      commentSpelling level line ++ commentSpelling level content := by
  rw [commentSpelling, List.splitOn_append_cons_of_beq _ _ (by decide), List.flatMap_append]
  rfl

/-- A content is spelled by its canonical spelling, one line after the other. -/
theorem commentLines_canonical (level : CommentLevel) (content : List Char)
    (hreturn : '\r' ∉ content) :
    ∃ lines, commentSpelling level content = marks level.depth ++ (lines ++ ['\n']) ∧
      CommentLines MarkedLine (marks level.depth) lines content := by
  induction hlength : content.length using Nat.strong_induction_on generalizing content with
  | _ n ih =>
    subst hlength
    by_cases hfeed : '\n' ∈ content
    · obtain ⟨line, more, rfl, hline⟩ := List.eq_append_cons_of_mem hfeed
      simp only [List.mem_append, List.mem_cons, not_or] at hreturn
      obtain ⟨lines, hspelling, hlines⟩ := ih more.length
        (by simp only [List.length_append, List.length_cons]; omega) more hreturn.2.2 rfl
      refine ⟨lineSpelling line ++ (['\n'] ++ (marks level.depth ++ lines)), ?_,
        .more (markedLine_lineSpelling (isLine_of_not_mem hline hreturn.1)) (.inl rfl) hlines⟩
      rw [commentSpelling_append, commentSpelling_of_not_mem hline, hspelling]
      simp
    · exact ⟨lineSpelling content, commentSpelling_of_not_mem hfeed level,
        .last (markedLine_lineSpelling (isLine_of_not_mem hfeed hreturn))⟩

theorem IsLine.not_mem_return (h : IsLine text) : '\r' ∉ text :=
  fun hmem => absurd (h _ hmem) (by decide)

/-- The lines of a comment are joined by line feeds only. -/
theorem CommentLines.not_mem_return {Line : List Char → List Char → Prop}
    {marks content : List Char} (hLine : ∀ {line content}, Line line content → IsLine content)
    (h : CommentLines Line marks text content) : '\r' ∉ content := by
  induction h with
  | last hline => exact (hLine hline).not_mem_return
  | more hline _ _ ih =>
    simp only [List.mem_append, List.mem_cons, not_or]
    exact ⟨(hLine hline).not_mem_return, by decide, ih⟩

theorem SpellsEntry.content_not_mem_return {level : CommentLevel} {comment : Comment}
    (h : SpellsEntry start text (.comment level comment) rest) :
    '\r' ∉ comment.content.toList := by
  generalize hentry : Entry.comment level comment = entry at h
  cases h with
  | marked _ _ hlines _ _ =>
    cases hentry
    rw [String.toList_ofList]
    -- the lines of a comment are joined by line feeds, whatever ended them
    exact hlines.not_mem_return fun hline => by
      cases hline with
      | empty => exact isLine_nil
      | text hcontent => exact hcontent
  | slashed hlines _ _ =>
    cases hentry
    rw [String.toList_ofList]
    exact hlines.not_mem_return fun hline => by
      cases hline with
      | spaced hcontent => exact hcontent
      | bare _ hcontent => exact hcontent
  | header _ hfirst hmore _ _ _ _ =>
    cases hentry
    rw [String.toList_ofList]
    -- a header is spelled in letters and blanks
    rintro (_ | ⟨_, hmem⟩)
    · exact absurd hfirst (by decide)
    · exact absurd (hmore _ hmem) (by decide)
  | message _ _ _ => split at hentry <;> cases hentry

/-- A comment is spelled by its canonical spelling up to the end of its last line. -/
theorem SpellsEntry.comment_canonical {level : CommentLevel} {comment : Comment}
    (h : SpellsEntry start text (.comment level comment) rest) :
    ∃ spelled, commentSpelling level comment.content.toList = spelled ++ ['\n'] ∧
      ∀ start' : Nat, SpellsEntry start' spelled
        (.comment level ⟨comment.content, spanOf start' spelled⟩) [] := by
  obtain ⟨lines, hspelling, hlines⟩ :=
    commentLines_canonical level comment.content.toList h.content_not_mem_return
  refine ⟨marks level.depth ++ lines, by rw [hspelling, List.append_assoc], fun start' => ?_⟩
  have hmarked := @SpellsEntry.marked start' _ _ _ [] level.one_le_depth level.depth_le_three hlines
    lineEnds_nil rfl
  rwa [level.commentLevel_depth, String.ofList_toList] at hmarked

end Localization
