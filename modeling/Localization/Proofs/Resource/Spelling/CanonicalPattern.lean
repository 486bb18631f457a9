import Localization.Proofs.Resource.Spelling.Canonical

/-!
# Canonical spellings of patterns

In the canonical spelling of a pattern every variant stands on an indented line of its own, and
every value on the line of what it belongs to. What a pattern starts with stays visible, so that
the value is found there.

## Main statements

* `SpellsPattern.canonical` — a canonical spelling spells its pattern, up to spans
* `SpellsPattern.isLead` — the canonical spelling of a value stands behind a single space
-/

namespace Localization

open Localization.Parser (assemble trimLast)
open Text (Ends IsBlanks IsIndent byteLength isVisible)

variable {start : Nat} {text : List Char} {elements : List PatternElement}

theorem isIndent_indentation : IsIndent indentation where
  isGap ch hch := by
    simp only [indentation, List.mem_cons, List.not_mem_nil, or_false] at hch
    rcases hch with rfl | rfl | rfl | rfl | rfl <;> decide
  startsBreak := Text.startsBreak_cons.2 rfl
  endsBlank := ⟨' ', rfl, rfl⟩

/-! ### How elements start -/

/-- A placeable stays a placeable, and the end of a pattern its end. -/
theorem SpellsElements.head?_spelling (h : SpellsElements start text elements)
    (hnext : ∀ ch ∈ text.head?, ch = '{') : (elementsSpelling elements).head? = text.head? := by
  cases h with
  | nil => rfl
  | @text _ raw _ rest _ hne hspells _ =>
    rw [List.head?_append_of_ne_nil _ hne] at hnext
    cases raw with
    | nil => exact absurd rfl hne
    | cons ch raw => exact absurd (congrArg some (hnext ch rfl)) hspells.head?_ne
  | placeable _ _ => rfl

theorem SpellsElements.exists_visible (h : SpellsElements start text elements)
    (hvisible : ∃ ch more, text = ch :: more ∧ isVisible ch) :
    ∃ ch more, elementsSpelling elements = ch :: more ∧ isVisible ch := by
  obtain ⟨ch, more, htext, hch⟩ := hvisible
  cases h with
  | nil => cases htext
  | @text _ raw value rest _ hne hspells _ =>
    cases raw with
    | nil => exact absurd rfl hne
    | cons first raw =>
      obtain rfl : first = ch := (List.cons.inj htext).1
      obtain ⟨first', more', hspelling, hvisible, -⟩ := hspells.exists_visible hch
      rw [elementsSpelling, PatternElement.spelling, String.toList_ofList, hspelling]
      exact ⟨first', _, rfl, hvisible⟩
  | placeable _ _ =>
    rw [elementsSpelling, PatternElement.spelling]
    exact ⟨'{', _, rfl, by decide⟩

/-- The canonical spelling of a value stands behind a single space. -/
theorem SpellsPattern.isLead {pattern : Pattern} {lead : List Char}
    (h : SpellsPattern start text pattern) (hlead : IsLead lead text) :
    IsLead [' '] pattern.spelling := by
  obtain ⟨ch, more, htext, hch⟩ := hlead.exists_visible
  obtain ⟨kept, blanks, htrimmed, hne, -⟩ := h.exists_elements ⟨ch, more, htext, hch⟩
  have hkept : ∃ ch more, kept = ch :: more ∧ isVisible ch := by
    cases kept with
    | nil => exact absurd rfl hne
    | cons first kept =>
      obtain rfl : first = ch := (List.cons.inj (htrimmed.text_eq.symm.trans htext)).1
      exact ⟨first, kept, rfl, hch⟩
  obtain ⟨first, more', hspelling, hfirst⟩ := htrimmed.spells.exists_visible hkept
  obtain ⟨elements, span⟩ := pattern
  rw [Pattern.spelling, hspelling]
  exact .inline Text.isBlanks_space hfirst

/-! ### Patterns -/

/-- A pattern is what its elements are, up to spans, if they end where the pattern does. -/
theorem mapOffsets_assemble {elements elements' : List PatternElement} (start : Nat)
    (span : Span) (htrim : trimLast elements.reverse = elements.reverse)
    (hsame : elements'.map (·.mapOffsets origin) = elements.map (·.mapOffsets origin)) :
    (assemble start (trimLast elements'.reverse)).mapOffsets origin =
      Pattern.mapOffsets origin ⟨elements, span⟩ := by
  have htrims : ∀ element : PatternElement, Trims origin element := by
    intro element
    cases element with
    | text value span => exact (Nat.zero_sub _).symm
    | placeable _ _ => exact trivial
  have hkept := @trimLast_map _ origin_monotone elements'.reverse fun element _ => htrims element
  rw [List.map_reverse, hsame, ← List.map_reverse,
    trimLast_map origin_monotone fun element _ => htrims element, htrim] at hkept
  rw [Pattern.mapOffsets_origin, Pattern.mapOffsets_origin, assemble_elements, List.map_reverse,
    ← hkept, List.map_reverse, List.reverse_reverse]

theorem SpellsSelector.opening_eq {next : Option Char} {expression : Expression}
    (h : SpellsSelector start text expression next) :
    expression.opening = [' '] ∧ expression.closing = [' '] := by
  cases h <;> exact ⟨rfl, rfl⟩

mutual

/-- Patterns are spelled by their canonical spellings. -/
theorem SpellsPattern.canonical : ∀ {start text} (pattern : Pattern),
    SpellsPattern start text pattern → (∃ ch more, text = ch :: more ∧ isVisible ch) →
    ∀ start' : Nat, ∃ pattern', SpellsPattern start' pattern.spelling pattern' ∧
      pattern'.mapOffsets origin = pattern.mapOffsets origin
  | _, _, ⟨elements, span⟩, h, hvisible, start' => by
    obtain ⟨kept, blanks, htrimmed, -, -⟩ := h.exists_elements hvisible
    obtain ⟨elements', hspells, hsame⟩ :=
      SpellsElements.canonical elements htrimmed.spells start'
    exact ⟨_, .mk hspells, mapOffsets_assemble start' span htrimmed.trimLast_kept hsame⟩

theorem SpellsElements.canonical : ∀ {start text} (elements : List PatternElement),
    SpellsElements start text elements → ∀ start' : Nat,
    ∃ elements', SpellsElements start' (elementsSpelling elements) elements' ∧
      elements'.map (·.mapOffsets origin) = elements.map (·.mapOffsets origin)
  | _, _, [], _, _ => ⟨[], .nil, rfl⟩
  | _, _, .text _ _ :: elements, h, start' => by
    cases h with
    | @text _ raw value rest _ hne hspells hrest =>
      obtain ⟨elements', hspells', hsame⟩ := SpellsElements.canonical elements hrest
        (start' + byteLength (value.flatMap textSpelling))
      have hvalue : value.flatMap textSpelling ≠ [] :=
        mt flatMap_textSpelling_eq_nil.1 (mt hspells.eq_nil hne)
      have hnext := hrest.head?_spelling hspells.next_eq
      rw [elementsSpelling, PatternElement.spelling, String.toList_ofList]
      refine ⟨_, .text hvalue (hnext ▸ hspells.canonical) hspells', ?_⟩
      rw [List.map_cons, List.map_cons, hsame]
      rfl
  | _, _, .placeable expression _ :: elements, h, start' => by
    cases h with
    | placeable hinner hrest =>
      obtain ⟨expression', hspells, hsame⟩ :=
        SpellsPlaceable.canonical expression hinner (start' + 1)
      obtain ⟨elements', hspells', hsame'⟩ := SpellsElements.canonical elements hrest
        (start' + byteLength ('{' ::
          (expression.opening ++ (expression.spelling ++ expression.closing) ++ ['}'])))
      rw [elementsSpelling, PatternElement.spelling, List.cons_append, List.append_assoc _ ['}']]
      refine ⟨_, .placeable hspells hspells', ?_⟩
      rw [List.map_cons, List.map_cons, hsame', PatternElement.mapOffsets,
        PatternElement.mapOffsets, hsame]
      rfl

theorem SpellsPlaceable.canonical : ∀ {start text} (expression : Expression),
    SpellsPlaceable start text expression → ∀ start' : Nat,
    ∃ expression', SpellsPlaceable start'
        (expression.opening ++ (expression.spelling ++ expression.closing)) expression' ∧
      expression'.mapOffsets origin = expression.mapOffsets origin
  | _, _, expression, h, start' => by
    cases h with
    | selector _ hspells _ hterm =>
      obtain ⟨hopening, hclosing⟩ := hspells.opening_eq
      obtain ⟨expression', hspells', hsame⟩ := hspells.canonical expression
        (start' + byteLength [' ']) (some ' ') (Text.ends_some.2 (by decide))
      -- whether the selector may stand here does not depend on its place
      have hterm' : Parser.isTermAttribute expression' = false := by
        rwa [← Parser.isTermAttribute_mapOffsets origin, hsame, Parser.isTermAttribute_mapOffsets]
      rw [hopening, hclosing]
      exact ⟨expression', .selector Text.isBlanks_space hspells' Text.isBlanks_space hterm', hsame⟩
    | @choice _ _ _ selector _ _ _ variants _ _ _ hspells _ herror _ hvariants _ _ =>
      obtain ⟨selector', hspells', hsame⟩ := hspells.canonical selector
        (start' + byteLength [' ']) (some ' ') (Text.ends_some.2 (by decide))
      have herror' : Parser.selectorError? selector' = none := by
        rwa [← Parser.selectorError?_mapOffsets origin, hsame, Parser.selectorError?_mapOffsets]
      obtain ⟨variants', hvariants', hsame'⟩ := SpellsVariants.canonical variants hvariants
        (start' + byteLength ([' '] ++ (selector.spelling ++ ([' '] ++ ['-', '>']))))
      have hchoice := SpellsPlaceable.choice Text.isBlanks_space hspells'
        Text.isBlanks_space herror'
        Text.isBlanks_nil hvariants' isIndent_indentation.isGap isIndent_indentation.startsBreak
      rw [Expression.spelling, selectorSpelling, List.append_assoc, List.append_assoc]
      refine ⟨_, hchoice, ?_⟩
      simp only [Expression.mapOffsets, selectorMapOffsets_eq_map, Option.map_some, hsame,
        variantsMapOffsets_eq_map, hsame']
      rfl
    | @bare _ _ _ variants _ _ _ hvariants _ _ =>
      obtain ⟨variants', hvariants', hsame⟩ := SpellsVariants.canonical variants hvariants start'
      rw [Expression.opening, Expression.spelling, selectorSpelling]
      refine ⟨_, .bare Text.isBlanks_nil hvariants' isIndent_indentation.isGap
        isIndent_indentation.startsBreak, ?_⟩
      simp only [Expression.mapOffsets, variantsMapOffsets_eq_map, hsame]
      rfl

theorem SpellsVariants.canonical : ∀ {start text count default? defaultIndex}
    (variants : List Variant), SpellsVariants start text count default? variants defaultIndex →
    ∀ start' : Nat,
    ∃ variants', SpellsVariants start' (variantsSpelling variants) count default? variants'
        defaultIndex ∧
      variants'.map (·.mapOffsets origin) = variants.map (·.mapOffsets origin)
  | _, _, _, _, _, [], h, _ => by cases h
  | _, _, count, default?, defaultIndex, variant :: variants, h, start' => by
    cases h with
    | last _ hvariant hdefault =>
      obtain ⟨variant', hspells, hsame⟩ := SpellsVariant.canonical variant hvariant
        (start' + byteLength indentation)
      rw [variantsSpelling, variantsSpelling, List.append_nil]
      refine ⟨_, .last isIndent_indentation hspells ?_, by
        rw [List.map_singleton, List.map_singleton, hsame]⟩
      rwa [← Variant.isDefault_mapOffsets origin, hsame, Variant.isDefault_mapOffsets]
    | more _ hvariant hvariants =>
      obtain ⟨variant', hspells, hsame⟩ := SpellsVariant.canonical variant hvariant
        (start' + byteLength indentation)
      obtain ⟨variants', hspells', hsame'⟩ := SpellsVariants.canonical variants hvariants
        (start' + byteLength (indentation ++ variant.spelling))
      -- the count of defaults goes on with the variant that was spelled
      rw [← Variant.isDefault_mapOffsets origin, ← hsame, Variant.isDefault_mapOffsets] at hspells'
      exact ⟨_, .more isIndent_indentation hspells hspells', by
        rw [List.map_cons, List.map_cons, hsame, hsame']⟩

theorem SpellsVariant.canonical : ∀ {start text hasDefault} (variant : Variant),
    SpellsVariant start text hasDefault variant → ∀ start' : Nat,
    ∃ variant', SpellsVariant start' variant.spelling hasDefault variant' ∧
      variant'.mapOffsets origin = variant.mapOffsets origin
  | _, _, _, ⟨key, value, isDefault, _⟩, h, start' => by
    cases h with
    | @mk _ _ _ star _ _ _ _ _ _ _ hdefault hstar _ hkey _ hlead hvalue =>
      obtain ⟨key', hkey', hsame⟩ := hkey.canonical (start' + byteLength (star ++ ['[']))
      obtain ⟨value', hvalue', hsame'⟩ := SpellsPattern.canonical value hvalue
        hlead.exists_visible
        (start' + byteLength (star ++ '[' :: (key.text.toList ++ ']' :: [' '])))
      rw [Variant.spelling, ← hstar]
      refine ⟨_, .mk hdefault hstar Text.isBlanks_nil hkey' Text.isBlanks_nil
        (hvalue.isLead hlead) hvalue', ?_⟩
      rw [Variant.mapOffsets, Variant.mapOffsets, hsame, hsame']
      rfl

end

end Localization
