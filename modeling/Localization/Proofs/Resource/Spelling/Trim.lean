import Localization.Proofs.Resource.Offsets
import Localization.Proofs.Resource.Spelling.Layout

/-!
# Blanks at the end of a pattern

The blanks at the end of a pattern belong to its text but to none of its elements. Without them the
text spells the same pattern, whose span is then the whole text.

## Main statements

* `SpellsText.trim` — a run of text at the end of a pattern without its last blanks
* `SpellsPattern.trim`, `SpellsMessage.trim` — the text that a span covers spells the same tree
-/

namespace Localization

open Localization.Parser (assemble trimLast)
open Text (Ends IsBlanks IsEnding IsIndent StartsBreak StartsVisible byteLength isVisible)

variable {text raw value kept blanks : List Char} {start : Nat}

theorem Text.IsBlanks.byteLength (h : IsBlanks text) : byteLength text = text.length := by
  induction text with
  | nil => rfl
  | cons ch text ih =>
    have hsize : ch.utf8Size = 1 := by
      rcases Text.isInlineBlank_iff.1 (h ch (by simp)) with rfl | rfl <;> decide
    rw [Text.byteLength_cons, ih (Text.isBlanks_cons.1 h).2, hsize, List.length_cons, Nat.add_comm]

/-! ### Text -/

theorem SpellsText.eq_nil {next : Option Char} (h : SpellsText raw value next)
    (hvalue : value = []) : raw = [] := by
  cases h with
  | stop _ => rfl
  | plain _ _ _ _ => cases hvalue
  | escape _ _ => cases hvalue
  | slash _ _ => cases hvalue
  | blankLine _ _ _ _ _ => cases hvalue
  | indent _ _ _ _ _ => cases hvalue

/-- A character that is no blank keeps what stands in front of the last blanks. -/
theorem ends_getLast?_cons {ch : Char} (h : Ends isInlineBlank value.getLast?)
    (hch : value = [] → isInlineBlank ch = false) :
    Ends isInlineBlank (ch :: value).getLast? := by
  cases value with
  | nil => exact Text.ends_some.2 (hch rfl)
  | cons first value => rwa [List.getLast?_cons_cons]

/-- A run of text at the end of a pattern, cut in front of its last blanks. -/
theorem SpellsText.trim (h : SpellsText raw value none) :
    ∃ kept value' blanks, raw = kept ++ blanks ∧ value = value' ++ blanks ∧ IsBlanks blanks ∧
      Ends isInlineBlank value'.getLast? ∧ SpellsText kept value' none := by
  generalize hnext : (none : Option Char) = next at h
  -- the blanks at the end are found along the rules, from the last one back
  induction h with
  | stop hstop =>
    subst hnext
    exact ⟨[], [], [], rfl, rfl, Text.isBlanks_nil, Text.ends_none, .stop hstop⟩
  | @plain ch raw value next hbrace hslash hbreak _ ih =>
    subst hnext
    obtain ⟨kept, value', blanks, rfl, rfl, hblanks, hends, hspells⟩ := ih rfl
    -- a blank is cut only when nothing is kept behind it
    by_cases hcut : value' = [] ∧ isInlineBlank ch
    · obtain ⟨rfl, hch⟩ := hcut
      obtain rfl := hspells.eq_nil rfl
      exact ⟨[], [], ch :: blanks, rfl, rfl, Text.isBlanks_cons.2 ⟨hch, hblanks⟩, hends, hspells⟩
    · refine ⟨ch :: kept, ch :: value', blanks, rfl, rfl, hblanks,
        ends_getLast?_cons hends fun hnil => ?_, .plain hbrace hslash hbreak hspells⟩
      simpa [hnil] using hcut
  | @escape ch raw value next hch _ ih =>
    subst hnext
    obtain ⟨kept, value', blanks, rfl, rfl, hblanks, hends, hspells⟩ := ih rfl
    refine ⟨'\\' :: ch :: kept, ch :: value', blanks, rfl, rfl, hblanks,
      ends_getLast?_cons hends fun _ => ?_, .escape hch hspells⟩
    rcases hch with rfl | rfl <;> decide
  | @slash raw value next hhead _ ih =>
    subst hnext
    obtain ⟨kept, value', blanks, rfl, rfl, hblanks, hends, hspells⟩ := ih rfl
    refine ⟨'\\' :: kept, '\\' :: value', blanks, rfl, rfl, hblanks,
      ends_getLast?_cons hends fun _ => by decide, .slash (fun ch hch => hhead ch ?_) hspells⟩
    cases kept with
    | nil => cases hch
    | cons first kept => exact hch
  | @blankLine ending blanks raw value next hending hfeed hblanks hbreak _ ih =>
    subst hnext
    obtain ⟨kept, value', spaces, rfl, rfl, hspaces, hends, hspells⟩ := ih rfl
    cases kept with
    | nil =>
      rw [List.nil_append] at hbreak
      obtain rfl := hspaces.eq_nil_of_startsBreak ((List.append_nil spaces).symm ▸ hbreak)
      obtain ⟨ch, hch, -⟩ := hbreak
      cases hch
    | cons first kept =>
      refine ⟨ending ++ (blanks ++ first :: kept), '\n' :: value', spaces, by simp, rfl, hspaces,
        ends_getLast?_cons hends fun _ => by decide,
        .blankLine hending (fun heq => ?_) hblanks (Text.startsBreak_cons.2 ?_) hspells⟩
      · have hhead := hfeed heq
        rwa [← List.append_assoc, List.head?_append_of_ne_nil _ (by simp)] at hhead
      · exact Text.startsBreak_cons.1 hbreak
  | @indent ending blanks raw value next hending hblanks hne hvisible _ ih =>
    subst hnext
    obtain ⟨kept, value', spaces, rfl, rfl, hspaces, hends, hspells⟩ := ih rfl
    obtain ⟨ch, hch, hvisible⟩ := hvisible
    have hkept : ch ∈ kept.head?.or none := by
      cases kept with
      | nil =>
        cases spaces with
        | nil => cases hch
        | cons first spaces =>
          obtain rfl : first = ch := by simpa using hch
          have hblank := Text.not_isInlineBlank_of_isVisible hvisible.1
          rw [hspaces first (by simp)] at hblank
          cases hblank
      | cons first kept => exact hch
    exact ⟨ending ++ (blanks ++ kept), '\n' :: value', spaces, by simp, rfl, hspaces,
      ends_getLast?_cons hends fun _ => by decide,
      .indent hending hblanks hne ⟨ch, hkept, hvisible⟩ hspells⟩

/-! ### Elements -/

theorem trimLast_text {value' : List Char} {before : List PatternElement}
    (hblanks : IsBlanks blanks)
    (hends : Ends isInlineBlank value'.getLast?) (hkept : value' = [] → kept = []) :
    trimLast (.text (String.ofList (value' ++ blanks)) (spanOf start (kept ++ blanks)) :: before) =
      if value' = [] then before
      else .text (String.ofList value') (spanOf start kept) :: before := by
  have hhead : Ends isInlineBlank value'.reverse.head? := by rwa [List.head?_reverse]
  have htake : (value' ++ blanks).reverse.takeWhile isInlineBlank = blanks.reverse := by
    rw [List.reverse_append]
    exact Text.takeWhile_append_of_ends (fun ch hch => hblanks ch (List.mem_reverse.1 hch)) hhead
  have hdrop : (value' ++ blanks).reverse.dropWhile isInlineBlank = value'.reverse := by
    rw [List.reverse_append, List.dropWhile_append_of_pos fun ch hch =>
      hblanks ch (List.mem_reverse.1 hch), Text.dropWhile_of_ends hhead]
  have hstop : max ((spanOf start (kept ++ blanks)).stop - blanks.length) start =
      start + byteLength kept := by
    simp only [spanOf, Text.byteLength_append, hblanks.byteLength]
    omega
  simp only [trimLast, String.toList_ofList, htake, hdrop, List.reverse_reverse,
    List.length_reverse]
  cases value' with
  | nil => rfl
  | cons ch value' =>
    rw [show (spanOf start (kept ++ blanks)).start = start from rfl, hstop]
    rfl

/-- Mapping the end of a text and cutting the blanks there can be done in either order. -/
def Trims (f : Nat → Nat) : PatternElement → Prop
  | .text value span =>
    let blanks := (value.toList.reverse.takeWhile isInlineBlank).length
    f (span.stop - blanks) = f span.stop - blanks
  | .placeable _ _ => True

theorem trimLast_map {f : Nat → Nat} (hf : Monotone f) {elements : List PatternElement}
    (h : ∀ element ∈ elements.head?, Trims f element) :
    trimLast (elements.map (PatternElement.mapOffsets f)) =
      (trimLast elements).map (PatternElement.mapOffsets f) := by
  cases elements with
  | nil => rfl
  | cons element before =>
    cases element with
    | placeable expression span => rfl
    | text value span =>
      have htrims := h _ rfl
      simp only [Trims] at htrims
      simp only [List.map_cons, PatternElement.mapOffsets, trimLast]
      split
      · rfl
      · simp only [List.map_cons, PatternElement.mapOffsets, Span.mapOffsets, hf.map_max, htrims]

theorem trimLast_append {before : List PatternElement} (hne : before ≠ [])
    (after : List PatternElement) : trimLast (before ++ after) = trimLast before ++ after := by
  cases before with
  | nil => exact absurd rfl hne
  | cons element before =>
    cases element with
    | text value span =>
      simp only [List.cons_append, trimLast]
      split <;> rfl
    | placeable _ _ => rfl

theorem trimLast_append_placeable (before : List PatternElement) (expression : Expression)
    (span : Span) :
    trimLast (before ++ [.placeable expression span]) =
      trimLast before ++ [.placeable expression span] := by
  by_cases hnil : before = []
  · rw [hnil]
    rfl
  · exact trimLast_append hnil _

theorem assemble_elements (start : Nat) (elements : List PatternElement) :
    (assemble start elements).elements = elements.reverse := by
  cases elements with
  | nil => rfl
  | cons last elements =>
    unfold assemble
    rw [List.head?_cons]
    cases hfirst : (last :: elements).getLast? with
    | none => simp at hfirst
    | some first => rfl

theorem SpellsElements.eq_nil {elements : List PatternElement}
    (h : SpellsElements start text elements) (hnil : elements = []) : text = [] := by
  cases h with
  | nil => rfl
  | text _ _ _ => cases hnil
  | placeable _ _ => cases hnil

theorem SpellsElements.ne_nil {elements : List PatternElement}
    (h : SpellsElements start text elements) (hne : elements ≠ []) : text ≠ [] := by
  cases h with
  | nil => exact absurd rfl hne
  | text hraw _ _ => simp [hraw]
  | placeable _ _ => simp

theorem SpellsText.value_eq_nil {next : Option Char} (h : SpellsText raw value next)
    (hraw : raw = []) : value = [] := by
  cases h with
  | stop _ => rfl
  | plain _ _ _ _ => cases hraw
  | escape _ _ => cases hraw
  | slash _ _ => cases hraw
  | blankLine hending _ _ _ _ => exact absurd (List.append_eq_nil_iff.1 hraw).1 hending.ne_nil
  | indent hending _ _ _ _ => exact absurd (List.append_eq_nil_iff.1 hraw).1 hending.ne_nil

/-- The elements of a pattern without the blanks behind the last one. -/
structure Trimmed (start : Nat) (text : List Char) (elements : List PatternElement)
    (kept blanks : List Char) (elements' : List PatternElement) : Prop where
  text_eq : text = kept ++ blanks
  isBlanks : IsBlanks blanks
  spells : SpellsElements start kept elements'
  trimLast_eq : trimLast elements.reverse = elements'.reverse
  trimLast_kept : trimLast elements'.reverse = elements'.reverse

theorem SpellsElements.trim {elements : List PatternElement}
    (h : SpellsElements start text elements) :
    ∃ kept blanks elements', Trimmed start text elements kept blanks elements' := by
  induction elements generalizing start text with
  | nil =>
    cases h
    exact ⟨[], [], [], rfl, Text.isBlanks_nil, .nil, rfl, rfl⟩
  | cons element elements ih =>
    cases h with
    | @text _ raw value rest _ hne hspells hrest =>
      -- only the last text is cut, and it goes when nothing of it is kept
      by_cases hlast : elements = []
      · obtain rfl := hrest.eq_nil hlast
        subst hlast
        obtain ⟨kept, value', blanks, rfl, rfl, hblanks, hends, hkept⟩ := hspells.trim
        have htrim := @trimLast_text kept blanks start value' [] hblanks hends hkept.eq_nil
        by_cases hnil : value' = []
        · obtain rfl := hkept.eq_nil hnil
          rw [if_pos hnil] at htrim
          exact ⟨[], blanks, [], by simp, hblanks, .nil, htrim, rfl⟩
        · rw [if_neg hnil] at htrim
          have hkept' : kept ≠ [] := mt hkept.value_eq_nil hnil
          have hagain := @trimLast_text kept [] start value' [] Text.isBlanks_nil hends hkept.eq_nil
          rw [if_neg hnil, List.append_nil, List.append_nil] at hagain
          refine ⟨kept, blanks, [_], by simp, hblanks, ?_, htrim, hagain⟩
          simpa using SpellsElements.text hkept' hkept .nil
      · obtain ⟨kept, blanks, elements', rfl, hblanks, hspells', htrim, hagain⟩ := ih hrest
        -- what follows a text is a placeable, which keeps its brace
        have hkept : kept ≠ [] := by
          rintro rfl
          cases blanks with
          | nil => exact hrest.ne_nil hlast rfl
          | cons ch blanks =>
            have hblank := hblanks ch (by simp)
            rw [hspells.next_eq ch rfl] at hblank
            exact absurd hblank (by decide)
        have hne' : elements' ≠ [] := mt hspells'.eq_nil hkept
        rw [List.head?_append_of_ne_nil _ hkept] at hspells
        refine ⟨raw ++ kept, blanks, _, by simp, hblanks, .text hne hspells hspells', ?_, ?_⟩
        · rw [List.reverse_cons, trimLast_append (by simpa using hlast), htrim, List.reverse_cons]
        · rw [List.reverse_cons, trimLast_append (by simpa using hne'), hagain]
    | @placeable _ inner expression rest _ hinner hrest =>
      obtain ⟨kept, blanks, elements', rfl, hblanks, hspells', htrim, hagain⟩ := ih hrest
      refine ⟨'{' :: (inner ++ '}' :: kept), blanks, _, by simp, hblanks,
        .placeable hinner hspells', ?_, ?_⟩
      · rw [List.reverse_cons, trimLast_append_placeable, htrim, List.reverse_cons]
      · rw [List.reverse_cons, trimLast_append_placeable, hagain]

/-! ### Spans -/

theorem SpellsElements.span_start {element : PatternElement} {elements : List PatternElement}
    (h : SpellsElements start text (element :: elements)) : element.span.start = start := by
  cases h with
  | text _ _ _ => rfl
  | placeable _ _ => rfl

/-- The elements of a pattern lie within its text, and the last one reaches its end. -/
theorem SpellsElements.span_stop {elements : List PatternElement}
    (h : SpellsElements start text elements) :
    (∀ element ∈ elements, start ≤ element.span.start ∧
        element.span.stop ≤ start + byteLength text) ∧
      ∀ last ∈ elements.getLast?, last.span.stop = start + byteLength text := by
  induction elements generalizing start text with
  | nil => simp
  | cons element elements ih =>
    obtain ⟨first, rest, rfl, hspan, hrest⟩ : ∃ first rest, text = first ++ rest ∧
        element.span = spanOf start first ∧
        SpellsElements (start + byteLength first) rest elements := by
      -- text or placeable, an element covers what spells it
      cases h with
      | text _ _ hrest => exact ⟨_, _, rfl, rfl, hrest⟩
      | @placeable _ inner _ rest _ _ hrest =>
        exact ⟨'{' :: (inner ++ ['}']), rest, by simp, rfl, hrest⟩
    obtain ⟨hwithin, hlast⟩ := ih hrest
    rw [Text.byteLength_append, ← Nat.add_assoc]
    constructor
    · intro other hother
      rcases List.mem_cons.1 hother with rfl | hother
      · rw [hspan]
        exact ⟨Nat.le_refl _, Nat.le_add_right _ _⟩
      · exact ⟨Nat.le_trans (Nat.le_add_right _ _) (hwithin other hother).1,
          (hwithin other hother).2⟩
    · intro last hmem
      cases elements with
      | nil =>
        obtain rfl : element = last := by simpa using hmem
        cases hrest
        rw [hspan]
        rfl
      | cons next elements =>
        rw [List.getLast?_cons_cons] at hmem
        exact hlast last hmem

/-- The span of a pattern whose last element reaches the end of the text is that text. -/
theorem SpellsElements.assemble_span {elements : List PatternElement}
    (h : SpellsElements start text elements) (hne : text ≠ []) :
    (assemble start elements.reverse).span = spanOf start text := by
  have hstop := h.span_stop
  cases elements with
  | nil => exact absurd (h.eq_nil rfl) hne
  | cons first elements =>
    have hstart := h.span_start
    cases hlast : (first :: elements).getLast? with
    | none => simp at hlast
    | some last =>
      have hfirst' := hstop.1 first (by simp)
      have hlast' := hstop.1 last (List.mem_of_getLast? hlast)
      have hend := hstop.2 last hlast
      unfold assemble
      rw [List.getLast?_reverse, List.head?_reverse, hlast]
      simp only [List.head?_cons, Span.merge, spanOf, Span.mk.injEq]
      omega

/-- The elements of a pattern are spelled by its text without the blanks at its end, and no more
blanks can be cut from them. -/
theorem SpellsPattern.exists_elements {pattern : Pattern} (h : SpellsPattern start text pattern)
    (hvisible : ∃ ch more, text = ch :: more ∧ isVisible ch) :
    ∃ kept blanks, Trimmed start text pattern.elements kept blanks pattern.elements ∧ kept ≠ [] ∧
      pattern = assemble start pattern.elements.reverse := by
  cases h with
  | mk helements =>
    obtain ⟨kept, blanks, elements', rfl, hblanks, hspells, htrim, hagain⟩ := helements.trim
    have hne : kept ≠ [] := by
      rintro rfl
      obtain ⟨ch, more, htext, hch⟩ := hvisible
      rw [List.nil_append] at htext
      have hblank := hblanks ch (by simp [htext])
      rw [Text.not_isInlineBlank_of_isVisible hch] at hblank
      cases hblank
    rw [htrim, assemble_elements, List.reverse_reverse]
    exact ⟨kept, blanks, ⟨rfl, hblanks, hspells, hagain, hagain⟩, hne, rfl⟩

/-- The text that the span of a pattern covers spells that pattern, and blanks follow it. -/
theorem SpellsPattern.trim {value : Pattern} (h : SpellsPattern start text value)
    (hvisible : ∃ ch more, text = ch :: more ∧ isVisible ch) :
    ∃ kept blanks, text = kept ++ blanks ∧ IsBlanks blanks ∧ kept ≠ [] ∧
      SpellsPattern start kept value ∧ value.span = spanOf start kept := by
  obtain ⟨kept, blanks, htrimmed, hne, hvalue⟩ := h.exists_elements hvisible
  have hpattern := SpellsPattern.mk htrimmed.spells
  rw [htrimmed.trimLast_kept, ← hvalue] at hpattern
  exact ⟨kept, blanks, htrimmed.text_eq, htrimmed.isBlanks, hne, hpattern,
    (congrArg Pattern.span hvalue).trans (htrimmed.spells.assemble_span hne)⟩

theorem IsLead.exists_visible {lead : List Char} (h : IsLead lead text) :
    ∃ ch more, text = ch :: more ∧ isVisible ch := by
  cases h with
  | inline _ hvisible => exact ⟨_, _, rfl, hvisible⟩
  | indent _ _ hvisible _ => exact ⟨_, _, rfl, hvisible⟩

theorem IsLead.trim {lead : List Char} (h : IsLead lead (kept ++ blanks)) (hne : kept ≠ []) :
    IsLead lead kept := by
  cases kept with
  | nil => exact absurd rfl hne
  | cons ch kept =>
    rw [List.cons_append] at h
    cases h with
    | inline hblanks hvisible => exact .inline hblanks hvisible
    | indent hblanks hgap hvisible hends => exact .indent hblanks hgap hvisible hends

/-! ### Messages -/

theorem SpellsAttribute.trim {named : Attribute} (h : SpellsAttribute start text named) :
    ∃ kept blanks, text = kept ++ blanks ∧ IsBlanks blanks ∧ SpellsAttribute start kept named ∧
      named.span = spanOf start kept := by
  cases h with
  | @mk name blanks lead text value hname hblanks hlead hspells =>
    obtain ⟨kept, spaces, rfl, hspaces, hne, hspells, hspan⟩ := hspells.trim hlead.exists_visible
    refine ⟨'.' :: (name ++ (blanks ++ '=' :: (lead ++ kept))), spaces, by simp, hspaces,
      .mk hname hblanks (hlead.trim hne) hspells, ?_⟩
    rw [hspan]
    simp only [spanOf, Span.mk.injEq, true_and, Text.byteLength_append, Text.byteLength_cons]
    omega

/-- Attributes without the blanks behind the last one, which reaches the end of their text. -/
theorem SpellsAttributes.trim {attributes : List Attribute}
    (h : SpellsAttributes start text attributes) (hne : attributes ≠ []) :
    ∃ kept blanks, text = kept ++ blanks ∧ IsBlanks blanks ∧
      SpellsAttributes start kept attributes ∧
      ∀ last ∈ attributes.getLast?, last.span.stop = start + byteLength kept := by
  induction attributes generalizing start text with
  | nil => exact absurd rfl hne
  | cons named attributes ih =>
    cases h with
    | @cons _ gap line _ rest _ hgap hspells hrest =>
      -- only the last attribute gives up blanks, and its span ends before them
      by_cases hlast : attributes = []
      · subst hlast
        cases hrest
        obtain ⟨kept, blanks, rfl, hblanks, hspells, hspan⟩ := hspells.trim
        refine ⟨gap ++ (kept ++ []), blanks, by simp, hblanks, .cons hgap hspells .nil, ?_⟩
        intro last hmem
        obtain rfl : named = last := by simpa using hmem
        rw [hspan]
        simp only [spanOf, Text.byteLength_append, Text.byteLength_nil]
        omega
      · obtain ⟨kept, blanks, rfl, hblanks, hrest, hstop⟩ := ih hrest hlast
        refine ⟨gap ++ (line ++ kept), blanks, by simp, hblanks, .cons hgap hspells hrest, ?_⟩
        intro last hmem
        cases attributes with
        | nil => exact absurd rfl hlast
        | cons next attributes =>
          rw [List.getLast?_cons_cons] at hmem
          rw [hstop last hmem]
          simp only [Text.byteLength_append]
          omega

/-- The text that the span of a message covers spells that message, and a gap follows it. -/
theorem SpellsMessage.trim {message : Message} (h : SpellsMessage start text message) :
    ∃ kept blanks, text = kept ++ blanks ∧ IsBlanks blanks ∧ SpellsMessage start kept message ∧
      message.span = spanOf start kept := by
  cases h with
  | @mk name blanks valueText value attributesText attributes hname hblanks hvalue hattributes hterm
      hmessage =>
    -- the blanks are those of the last attribute, or of the value when there is none
    by_cases hnil : attributes = []
    · subst hnil
      cases hattributes
      cases hvalue with
      | none _ => simp at hmessage
      | @some lead text value hlead hspells =>
        obtain ⟨kept, spaces, rfl, hspaces, hne, hspells, hspan⟩ :=
          hspells.trim hlead.exists_visible
        refine ⟨name ++ (blanks ++ '=' :: (lead ++ kept ++ [])), spaces, by simp, hspaces,
          .mk hname hblanks (.some (hlead.trim hne) hspells) .nil hterm hmessage, ?_⟩
        simp only [Parser.messageStop, List.getLast?_nil, hspan, spanOf, Span.mk.injEq, true_and,
          Text.byteLength_append, Text.byteLength_cons, Text.byteLength_nil]
        omega
    · obtain ⟨kept, spaces, rfl, hspaces, hattributes, hstop⟩ := hattributes.trim hnil
      refine ⟨name ++ (blanks ++ '=' :: (valueText ++ kept)), spaces, by simp, hspaces,
        .mk hname hblanks hvalue hattributes hterm hmessage, ?_⟩
      cases hlast : attributes.getLast? with
      | none => exact absurd (List.getLast?_eq_none_iff.1 hlast) hnil
      | some last =>
        simp only [Parser.messageStop, hlast, hstop last hlast, spanOf, Span.mk.injEq, true_and,
          Text.byteLength_append, Text.byteLength_cons]
        omega

end Localization
