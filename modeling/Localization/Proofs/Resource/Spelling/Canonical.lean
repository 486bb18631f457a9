import Localization.Proofs.Resource.Spelling.Trim

/-!
# Canonical spellings

Every tree has a canonical spelling, which depends on neither the spans of the tree nor the text
that it was read from. A tree that is spelled by some text is spelled by its canonical spelling as
well, up to spans.

## Main definitions

* `Pattern.spelling`, `Expression.spelling` — the canonical spelling of a tree
* `origin` — the map that forgets where a tree stands

## Main statements

* `Quotes.canonical`, `SpellsText.canonical` — quoted texts and texts are escaped faithfully
* `SpellsSelector.canonical`, `SpellsPattern.canonical` — a canonical spelling spells its tree
-/

namespace Localization

open Text (Ends IsBlanks IsEnding IsGap IsIndent StartsBreak byteLength isVisible)

/-! ### Characters -/

/-- The start of an indented line. -/
def indentation : List Char := ['\n', ' ', ' ', ' ', ' ']

/-- How a character of a text is spelled. -/
def textSpelling (ch : Char) : List Char :=
  if ch = '{' ∨ ch = '"' then ['\\', ch] else if ch = '\n' then indentation else [ch]

/-- How a character of a quoted text is spelled. -/
def quotedSpelling (ch : Char) : List Char :=
  if ch = '"' ∨ ch = '\\' then ['\\', ch]
  else if ch = '\n' then ['\\', 'u', '0', '0', '0', 'A']
  else if ch = '\r' then ['\\', 'u', '0', '0', '0', 'D']
  else [ch]

/-! ### Patterns and expressions -/

/-- What stands behind the opening brace of a placeable: the variants of a bare list start on a
line of their own. -/
def Expression.opening : Expression → List Char
  | .select none _ _ _ => []
  | _ => [' ']

/-- What stands in front of the closing brace of a placeable. -/
def Expression.closing : Expression → List Char
  | .select _ _ _ _ => indentation
  | _ => [' ']

mutual

/-- The canonical spelling of a pattern. -/
def Pattern.spelling : Pattern → List Char
  | ⟨elements, _⟩ => elementsSpelling elements

/-- The canonical spelling of pattern elements. -/
def elementsSpelling : List PatternElement → List Char
  | [] => []
  | element :: rest => element.spelling ++ elementsSpelling rest

/-- The canonical spelling of a pattern element. -/
def PatternElement.spelling : PatternElement → List Char
  | .text value _ => value.toList.flatMap textSpelling
  | .placeable expression _ =>
    '{' :: (expression.opening ++ (expression.spelling ++ expression.closing) ++ ['}'])

/-- The canonical spelling of an expression. -/
def Expression.spelling : Expression → List Char
  | .stringLiteral value _ => '"' :: (value.toList.flatMap quotedSpelling ++ ['"'])
  | .numberLiteral value _ => value.toList
  | .messageReference id => id.name.toList
  | .variableReference id _ => '$' :: id.name.toList
  | .select selector variants _ _ => selectorSpelling selector ++ variantsSpelling variants
  | .attribute id name _ => id.name.toList ++ '.' :: name.name.toList
  | .variant term key _ => term.name.toList ++ '[' :: (key.text.toList ++ [']'])
  | .call callee args _ => callee.name.toList ++ '(' :: (argumentsSpelling args ++ [')'])

/-- The canonical spelling of a selector with its arrow. -/
def selectorSpelling : Option Expression → List Char
  | none => []
  | some expression => expression.spelling ++ [' ', '-', '>']

/-- The canonical spelling of variants, each on a line of its own. -/
def variantsSpelling : List Variant → List Char
  | [] => []
  | variant :: rest => indentation ++ (variant.spelling ++ variantsSpelling rest)

/-- The canonical spelling of a variant. -/
def Variant.spelling : Variant → List Char
  | ⟨key, value, isDefault, _⟩ =>
    (if isDefault then ['*'] else []) ++ '[' :: (key.text.toList ++ ']' :: ' ' :: value.spelling)

/-- The canonical spelling of arguments. -/
def argumentsSpelling : List CallArgument → List Char
  | [] => []
  | [argument] => argument.spelling
  | argument :: rest => argument.spelling ++ ',' :: ' ' :: argumentsSpelling rest

/-- The canonical spelling of an argument. -/
def CallArgument.spelling : CallArgument → List Char
  | .positional value => value.spelling
  | .named name value _ => name.name.toList ++ ':' :: ' ' :: value.spelling

end

/-- The map that forgets where a tree stands. -/
def origin : Nat → Nat := fun _ => 0

theorem origin_monotone : Monotone origin := fun _ _ _ => Nat.le_refl 0

theorem Pattern.mapOffsets_origin (pattern : Pattern) :
    pattern.mapOffsets origin =
      ⟨pattern.elements.map (PatternElement.mapOffsets origin), ⟨0, 0⟩⟩ := by
  cases pattern
  rw [Pattern.mapOffsets, elementsMapOffsets_eq_map]
  rfl

variable {text raw value : List Char} {next next' : Option Char} {ch : Char}

/-! ### Quoted texts -/

/-- Quoted texts are escaped faithfully. -/
theorem Quotes.canonical (value : List Char) : Quotes (value.flatMap quotedSpelling) value := by
  induction value with
  | nil => exact .nil
  | cons ch value ih =>
    rw [List.flatMap_cons]
    unfold quotedSpelling
    split
    · next hpair => exact .pair hpair ih
    · next hpair =>
      obtain ⟨hquote, hslash⟩ := not_or.1 hpair
      split
      · next hfeed =>
        subst hfeed
        exact @Quotes.unicode ['0', '0', '0', 'A'] '\n' _ _ (by simp [isHexDigit]) (by decide) ih
      · next hfeed =>
        split
        · next hreturn =>
          subst hreturn
          exact @Quotes.unicode ['0', '0', '0', 'D'] '\r' _ _ (by simp [isHexDigit]) (by decide) ih
        · next hreturn =>
          exact .plain hquote hslash (by simp [isLineBreak, hfeed, hreturn]) ih

/-! ### Texts -/

theorem textSpelling_ne_nil (ch : Char) : textSpelling ch ≠ [] := by
  unfold textSpelling indentation
  split
  · simp
  · split <;> simp

/-- No text is spelled with an opening brace or a quote at its start. -/
theorem head?_flatMap_textSpelling (value : List Char) :
    ∀ ch ∈ (value.flatMap textSpelling).head?, ch ≠ '{' ∧ ch ≠ '"' := by
  cases value with
  | nil => simp
  | cons first value =>
    intro ch hch
    rw [List.flatMap_cons, List.head?_append_of_ne_nil _ (textSpelling_ne_nil first)] at hch
    unfold textSpelling at hch
    split at hch
    · obtain rfl : '\\' = ch := by simpa using hch
      decide
    · next hplain =>
      split at hch
      · obtain rfl : '\n' = ch := by simpa [indentation] using hch
        decide
      · obtain rfl : first = ch := by simpa using hch
        exact not_or.1 hplain

theorem flatMap_textSpelling_eq_nil : value.flatMap textSpelling = [] ↔ value = [] := by
  cases value with
  | nil => simp
  | cons ch value => simp [textSpelling_ne_nil]

/-- A text that starts with a visible character is spelled with one at its start, the same one
unless it is escaped. -/
theorem SpellsText.exists_visible (h : SpellsText (ch :: raw) value next) (hch : isVisible ch) :
    ∃ first more, value.flatMap textSpelling = first :: more ∧ isVisible first ∧
      (first = ch ∨ first = '\\') := by
  generalize htext : ch :: raw = text at h
  cases h with
  | stop _ => cases htext
  | @plain first raw value _ hbrace hslash hbreak _ =>
    cases htext
    rw [List.flatMap_cons]
    by_cases hquote : ch = '"'
    · subst hquote
      exact ⟨'\\', _, rfl, by decide, .inr rfl⟩
    · refine ⟨ch, value.flatMap textSpelling, ?_, hch, .inl rfl⟩
      have hfeed : ch ≠ '\n' := by
        rintro rfl
        cases hbreak
      simp [textSpelling, hbrace, hquote, hfeed]
  | @escape first raw value _ hfirst _ =>
    cases htext
    rw [List.flatMap_cons, textSpelling, if_pos hfirst]
    exact ⟨'\\', _, rfl, hch, .inl rfl⟩
  | slash _ _ =>
    cases htext
    exact ⟨'\\', _, rfl, hch, .inl rfl⟩
  | blankLine hending _ _ _ _ =>
    -- a line break is not visible
    have hstarts := Text.startsBreak_cons.1 (htext ▸ hending.startsBreak)
    rw [Text.not_isVisible_of_isLineBreak hstarts] at hch
    cases hch
  | indent hending _ _ _ _ =>
    have hstarts := Text.startsBreak_cons.1 (htext ▸ hending.startsBreak)
    rw [Text.not_isVisible_of_isLineBreak hstarts] at hch
    cases hch

/-- A text that starts with a line break is spelled with one at its start. -/
theorem SpellsText.startsBreak_spelling (h : SpellsText raw value next) (hbreak : StartsBreak raw) :
    StartsBreak (value.flatMap textSpelling) := by
  cases h with
  | stop _ => exact absurd hbreak (by simp [StartsBreak])
  | plain _ _ hplain _ =>
    rw [Text.startsBreak_cons, hplain] at hbreak
    cases hbreak
  | escape _ _ => exact absurd (Text.startsBreak_cons.1 hbreak) (by decide)
  | slash _ _ => exact absurd (Text.startsBreak_cons.1 hbreak) (by decide)
  | blankLine _ _ _ _ _ => exact Text.startsBreak_cons.2 rfl
  | indent _ _ _ _ _ => exact Text.startsBreak_cons.2 rfl

/-- Texts are escaped and indented faithfully. -/
theorem SpellsText.canonical (h : SpellsText raw value next) :
    SpellsText (value.flatMap textSpelling) value next := by
  -- an indent of four blanks is written behind every line feed
  have hblanks : IsBlanks [' ', ' ', ' ', ' '] := by simp [IsBlanks, isInlineBlank]
  have spelled_newline : textSpelling '\n' = ['\n'] ++ [' ', ' ', ' ', ' '] := rfl
  induction h with
  | stop hnext => exact .stop hnext
  | @plain ch raw value next hbrace hslash hbreak _ ih =>
    rw [List.flatMap_cons]
    by_cases hquote : ch = '"'
    · subst hquote
      exact .escape (.inr rfl) ih
    · have hfeed : ch ≠ '\n' := by
        rintro rfl
        cases hbreak
      have hspelling : textSpelling ch = [ch] := by simp [textSpelling, hbrace, hquote, hfeed]
      rw [hspelling]
      exact .plain hbrace hslash hbreak ih
  | escape hch _ ih =>
    rw [List.flatMap_cons, textSpelling, if_pos hch]
    exact .escape hch ih
  | @slash raw value next hhead hspells ih =>
    rw [List.flatMap_cons, show textSpelling '\\' = ['\\'] from rfl, List.singleton_append]
    refine .slash (fun ch hch => ?_) ih
    -- the backslash stands alone: what is spelled behind it starts as what was read there
    cases hvalue : value.flatMap textSpelling with
    | nil =>
      obtain rfl := hspells.eq_nil (flatMap_textSpelling_eq_nil.1 hvalue)
      rw [hvalue] at hch
      exact hhead ch hch
    | cons first more =>
      refine head?_flatMap_textSpelling value ch ?_
      rw [hvalue] at hch ⊢
      exact hch
  | @blankLine ending blanks raw value next _ _ _ hbreak hspells ih =>
    rw [List.flatMap_cons, spelled_newline, List.append_assoc]
    exact .blankLine (.inl rfl) (by simp) hblanks (hspells.startsBreak_spelling hbreak) ih
  | @indent ending blanks raw value next _ _ _ hgoes hspells ih =>
    rw [List.flatMap_cons, spelled_newline, List.append_assoc]
    refine .indent (.inl rfl) hblanks (by simp) ?_ ih
    -- the line goes on with content; its first character is kept or hidden behind a backslash
    obtain ⟨ch, hch, hvisible, hends⟩ := hgoes
    cases raw with
    | nil =>
      rw [hspells.value_eq_nil rfl]
      exact ⟨ch, hch, hvisible, hends⟩
    | cons first more =>
      obtain rfl : first = ch := by simpa using hch
      obtain ⟨first', more', hspelling, hvisible', hsame⟩ := hspells.exists_visible hvisible
      refine ⟨first', by rw [hspelling]; rfl, hvisible', ?_⟩
      rcases hsame with rfl | rfl
      · exact hends
      · decide

/-! ### Selectors -/

@[simp] theorem name_identifierAt (start : Nat) (name : List Char) :
    (identifierAt start name).name.toList = name := String.toList_ofList

/-- A number in front of a character that goes on with no reference. -/
theorem SpellsNumber.of_ends {digits : List Char} (h : SpellsNumber digits next)
    (hnext : Ends isReferenceChar next') : SpellsNumber digits next' := by
  have hdigit : ∀ ch ∈ next', ch.isDigit = false ∧ ch ≠ '.' := by
    intro ch hch
    have hends := hnext ch hch
    simp only [isReferenceChar, isIdentifierChar, Char.isAlphanum, Bool.or_eq_false_iff,
      decide_eq_false_iff_not] at hends
    exact ⟨hends.1.1.1.1.1.2, hends.1.1.2⟩
  cases h with
  | whole hsign hdigits _ =>
    refine .whole hsign hdigits fun ch hch => ?_
    simp [hdigit ch hch]
  | fraction hsign hdigits hplaces _ =>
    exact .fraction hsign hdigits hplaces fun ch hch => (hdigit ch hch).1

theorem ends_isIdentifierChar (h : Ends isReferenceChar next) : Ends isIdentifierChar next := by
  intro ch hch
  have hends := h ch hch
  simp only [isReferenceChar, Bool.or_eq_false_iff] at hends
  exact hends.1.1.1

/-- Keys are spelled by their own text, in front of the closing bracket. -/
theorem SpellsKey.canonical {start : Nat} {key : VariantKey} (h : SpellsKey start text key next)
    (start' : Nat) :
    ∃ key', SpellsKey start' key.text.toList key' (some ']') ∧
      key'.mapOffsets origin = key.mapOffsets origin := by
  cases h with
  | number hdigits =>
    rw [VariantKey.text, String.toList_ofList]
    exact ⟨_, .number (hdigits.of_ends (Text.ends_some.2 (by decide))), rfl⟩
  | @name first more _ _ hfirst hmore hlast _ _ =>
    have hname := @SpellsKey.name start' first more [] (some ']') hfirst hmore hlast (by simp)
      (Text.ends_some.2 (by decide))
    rw [List.append_nil] at hname
    rw [VariantKey.text, String.toList_ofList]
    exact ⟨_, hname, rfl⟩

theorem isLiteral_mapOffsets (f : Nat → Nat) (expression : Expression) :
    isLiteral (expression.mapOffsets f) = isLiteral expression := by
  cases expression <;> rfl

/-- The first argument of a call, and those behind it. -/
theorem SpellsArguments.uncons {start : Nat} {before args : List CallArgument}
    {argument : CallArgument} (h : SpellsArguments start before text (argument :: args)) :
    (∃ first next, SpellsArgument start first argument next) ∧
      Parser.argumentError? before argument = none ∧
      (args = [] ∨ ∃ behind rest, SpellsArguments behind (argument :: before) rest args) := by
  cases h with
  | last hargument _ hnone => exact ⟨⟨_, _, hargument⟩, hnone, .inl rfl⟩
  | more hargument _ hnone _ hargs => exact ⟨⟨_, _, hargument⟩, hnone, .inr ⟨_, _, hargs⟩⟩

/-- Arguments that differ in where they stand break the same rules. -/
theorem argumentError?_eq_none {before before' : List CallArgument}
    {argument argument' : CallArgument}
    (hbefore : before'.map (·.mapOffsets origin) = before.map (·.mapOffsets origin))
    (hsame : argument'.mapOffsets origin = argument.mapOffsets origin)
    (h : Parser.argumentError? before argument = none) :
    Parser.argumentError? before' argument' = none := by
  rw [← Parser.argumentError?_mapOffsets origin] at h ⊢
  rwa [hbefore, hsame]

mutual

/-- Selectors are spelled by their canonical spellings. -/
theorem SpellsSelector.canonical : ∀ {start text next} (expression : Expression),
    SpellsSelector start text expression next → ∀ (start' : Nat) (next' : Option Char),
      Ends isReferenceChar next' →
      ∃ expression', SpellsSelector start' expression.spelling expression' next' ∧
        expression'.mapOffsets origin = expression.mapOffsets origin
  | _, _, _, .stringLiteral _ _, h, start', _, _ => by
    cases h with
    | @string _ _ value _ _ =>
      rw [Expression.spelling, String.toList_ofList]
      exact ⟨_, .string (Quotes.canonical value), rfl⟩
  | _, _, _, .numberLiteral _ _, h, start', _, hnext => by
    cases h with
    | number hdigits =>
      rw [Expression.spelling, String.toList_ofList]
      exact ⟨_, .number (hdigits.of_ends hnext), rfl⟩
  | _, _, _, .variableReference _ _, h, start', _, hnext => by
    cases h with
    | var hname _ =>
      rw [Expression.spelling, name_identifierAt]
      exact ⟨_, .var hname (ends_isIdentifierChar hnext), rfl⟩
  | _, _, _, .messageReference _, h, start', _, hnext => by
    cases h with
    | reference hname _ =>
      rw [Expression.spelling, name_identifierAt]
      exact ⟨_, .reference hname hnext, rfl⟩
  | _, _, _, .attribute _ _ _, h, start', _, hnext => by
    cases h with
    | field hname hfield _ =>
      rw [Expression.spelling, name_identifierAt, name_identifierAt]
      exact ⟨_, .field hname hfield (ends_isIdentifierChar hnext), rfl⟩
  | _, _, _, .variant _ _ _, h, start', _, _ => by
    cases h with
    | @variant _ name _ _ _ _ _ hname _ hkey _ =>
      rw [Expression.spelling, name_identifierAt]
      -- without the blanks in front of it the key stands at another offset, which `origin` forgets
      obtain ⟨key', hspells, hsame⟩ := hkey.canonical (start' + byteLength ('-' :: (name ++ ['['])))
      refine ⟨_, .variant hname Text.isBlanks_nil hspells Text.isBlanks_nil, ?_⟩
      rw [Expression.mapOffsets, Expression.mapOffsets, hsame]
      rfl
  | _, _, _, .call _ args _, h, start', _, _ => by
    cases h with
    | @call _ name _ _ _ _ hname hcallee _ hargs =>
      rw [Expression.spelling, name_identifierAt]
      obtain ⟨args', hspells, hsame⟩ := SpellsArguments.canonical args hargs
        (start' + byteLength (name ++ ['('])) [] rfl
      refine ⟨_, .call hname hcallee Text.isBlanks_nil hspells, ?_⟩
      simp only [Expression.mapOffsets, argumentsMapOffsets_eq_map, hsame]
      rfl
  | _, _, _, .select _ _ _ _, h, _, _, _ => by cases h

theorem SpellsArguments.canonical : ∀ {start before text} (args : List CallArgument),
    SpellsArguments start before text args → ∀ (start' : Nat) (before' : List CallArgument),
      before'.map (·.mapOffsets origin) = before.map (·.mapOffsets origin) →
      ∃ args', SpellsArguments start' before' (argumentsSpelling args) args' ∧
        args'.map (·.mapOffsets origin) = args.map (·.mapOffsets origin)
  | _, _, _, [], _, _, _, _ => ⟨[], .nil, rfl⟩
  | _, _, _, [argument], h, start', before', hbefore => by
    obtain ⟨⟨_, _, hargument⟩, hnone, -⟩ := h.uncons
    obtain ⟨argument', hspells, hsame⟩ := SpellsArgument.canonical argument hargument start'
      (some ')') (Text.ends_some.2 (by decide))
    have hlast := SpellsArguments.last hspells Text.isBlanks_nil
      (argumentError?_eq_none hbefore hsame hnone)
    rw [List.append_nil] at hlast
    exact ⟨_, hlast, by rw [List.map_singleton, List.map_singleton, hsame]⟩
  | _, before, _, argument :: second :: args, h, start', before', hbefore => by
    obtain ⟨⟨_, _, hargument⟩, hnone, hmore⟩ := h.uncons
    obtain ⟨_, _, hargs⟩ := hmore.resolve_left (List.cons_ne_nil _ _)
    obtain ⟨argument', hspells, hsame⟩ := SpellsArgument.canonical argument hargument start'
      (some ',') (Text.ends_some.2 (by decide))
    -- the argument is compared with those in front of it by what they are, not where
    have hbefore' : (argument' :: before').map (·.mapOffsets origin) =
        (argument :: before).map (·.mapOffsets origin) := by
      rw [List.map_cons, List.map_cons, hbefore, hsame]
    obtain ⟨args', hspells', hsame'⟩ := SpellsArguments.canonical (second :: args) hargs
      (start' + byteLength (argument.spelling ++ [',', ' '])) (argument' :: before') hbefore'
    refine ⟨argument' :: args', ?_, by rw [List.map_cons, List.map_cons, hsame, hsame']⟩
    exact .more hspells Text.isBlanks_nil (argumentError?_eq_none hbefore hsame hnone)
      Text.isBlanks_space hspells'

theorem SpellsArgument.canonical : ∀ {start text next} (argument : CallArgument),
    SpellsArgument start text argument next → ∀ (start' : Nat) (next' : Option Char),
      Ends isReferenceChar next' →
      ∃ argument', SpellsArgument start' argument.spelling argument' next' ∧
        argument'.mapOffsets origin = argument.mapOffsets origin
  | _, _, _, .positional value, h, start', next', hnext => by
    cases h with
    | positional hvalue =>
      obtain ⟨value', hspells, hsame⟩ := SpellsSelector.canonical value hvalue start' next' hnext
      exact ⟨.positional value', .positional hspells, by
        rw [CallArgument.mapOffsets, CallArgument.mapOffsets, hsame]⟩
  | _, _, _, .named _ value _, h, start', next', hnext => by
    cases h with
    | @named _ name _ _ _ _ _ hname _ _ hliteral hvalue =>
      obtain ⟨value', hspells, hsame⟩ := SpellsSelector.canonical value hvalue
        (start' + byteLength (name ++ [':', ' '])) next' hnext
      have hliteral' : isLiteral value' := by
        rwa [← isLiteral_mapOffsets origin, hsame, isLiteral_mapOffsets]
      rw [CallArgument.spelling, name_identifierAt]
      refine ⟨_, .named hname Text.isBlanks_nil Text.isBlanks_space hliteral' hspells, ?_⟩
      rw [CallArgument.mapOffsets, CallArgument.mapOffsets, hsame]
      rfl

end

end Localization
