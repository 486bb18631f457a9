import Localization.Proofs.Resource.Subtrees

/-!
# Patterns are faithful to their source

The elements of a pattern tile its span, and nothing but blanks follows them on their line. The
value of a text and its span are read apart and cut apart; that they belong together is said here
without the grammar: the value of a text is what its span covers, decoded.

## Main definitions

* `Text.decode` — the value that a text stands for
* `Pattern.Faithful` — a pattern whose elements tile it and say what the source says

## Main statements

* `SpellsText.decode_eq` — a text is spelled by what decodes to it
* `Resource.parse_faithful` — every pattern that is read is faithful
-/

namespace Localization

open Text (Ahead Ends IsBlanks IsEnding isVisible)

/-! ### Decoding -/

namespace Text

/-- What a text stands for, from left to right: every line break is a line feed, and the blanks
directly behind it are dropped; a brace or a quote behind a backslash is that character alone; all
else is kept. Blanks at the start count as `behind` a line break or not. -/
def decodeFrom : (behind : Bool) → List Char → List Char
  | _, [] => []
  | _, '\r' :: '\n' :: rest => '\n' :: decodeFrom true rest
  | _, '\\' :: '{' :: rest => '{' :: decodeFrom false rest
  | _, '\\' :: '"' :: rest => '"' :: decodeFrom false rest
  | behind, ch :: rest =>
    if isLineBreak ch then '\n' :: decodeFrom true rest
    else if behind && isInlineBlank ch then decodeFrom true rest
    else ch :: decodeFrom false rest

/-- What a text stands for. -/
def decode (text : List Char) : List Char := decodeFrom false text

variable {behind : Bool} {ch : Char} {text rest blanks ending : List Char}

theorem decodeFrom_slash (h : ∀ ch ∈ rest.head?, ch ≠ '{' ∧ ch ≠ '"') :
    decodeFrom behind ('\\' :: rest) = '\\' :: decode rest := by
  rw [decodeFrom]
  · simp [isLineBreak, isInlineBlank, decode]
  · simp
  · rintro rest - rfl
    exact (h '{' rfl).1 rfl
  · rintro rest - rfl
    exact (h '"' rfl).2 rfl

theorem decodeFrom_plain (hslash : ch ≠ '\\') (hbreak : isLineBreak ch = false)
    (hblank : (behind && isInlineBlank ch) = false) :
    decodeFrom behind (ch :: rest) = ch :: decode rest := by
  rw [decodeFrom]
  · simp [hbreak, hblank, decode]
  · rintro rest rfl
    cases hbreak
  · simp [hslash]
  · simp [hslash]

/-- A line break that takes in all it can. -/
theorem decodeFrom_ending (h : IsEnding ending)
    (hjoin : ending = ['\r'] → rest.head? ≠ some '\n') :
    decodeFrom behind (ending ++ rest) = '\n' :: decodeFrom true rest := by
  rcases h with rfl | rfl | rfl
  · rw [List.singleton_append, decodeFrom] <;> simp [isLineBreak]
  · rw [List.singleton_append, decodeFrom]
    · simp [isLineBreak]
    · rintro more - rfl
      exact hjoin rfl rfl
    · simp
    · simp
  · rfl

theorem decodeFrom_blank (h : isInlineBlank ch) :
    decodeFrom true (ch :: rest) = decodeFrom true rest := by
  rcases isInlineBlank_iff.1 h with rfl | rfl <;> simp [decodeFrom, isLineBreak, isInlineBlank]

/-- What stands in front of a text matters to the blanks at its start only. -/
theorem decodeFrom_eq_decode (h : Ends isInlineBlank text.head?) :
    decodeFrom behind text = decode text := by
  unfold decode
  fun_cases decodeFrom behind text <;> simp_all [decodeFrom, ends_some]

/-- Blanks behind a line break are dropped. -/
theorem IsBlanks.decodeFrom_append (h : IsBlanks blanks) (hrest : Ends isInlineBlank rest.head?) :
    decodeFrom true (blanks ++ rest) = decode rest := by
  induction blanks with
  | nil => exact decodeFrom_eq_decode hrest
  | cons ch blanks ih =>
    obtain ⟨hch, hblanks⟩ := isBlanks_cons.1 h
    rw [List.cons_append, decodeFrom_blank hch, ih hblanks]

/-- A line break with the blanks behind it is a line feed. -/
theorem IsEnding.decode_append (h : IsEnding ending) (hblanks : IsBlanks blanks)
    (hjoin : ending = ['\r'] → (blanks ++ rest).head? ≠ some '\n')
    (hrest : Ends isInlineBlank rest.head?) :
    decode (ending ++ (blanks ++ rest)) = '\n' :: decode rest := by
  rw [decode, decodeFrom_ending h hjoin, hblanks.decodeFrom_append hrest]

end Text

/-- A text is spelled by what decodes to it. -/
theorem SpellsText.decode_eq {raw value : List Char} {next : Option Char}
    (h : SpellsText raw value next) : Text.decode raw = value := by
  induction h with
  | stop _ => rfl
  | plain _ hslash hbreak _ ih =>
    rw [Text.decode, Text.decodeFrom_plain hslash hbreak (Bool.false_and _), ih]
  | escape hch _ ih => rcases hch with rfl | rfl <;> exact congrArg (List.cons _) ih
  | slash hnext _ ih =>
    rw [Text.decode, Text.decodeFrom_slash fun ch hch => ?_, ih]
    exact hnext ch (by rw [Option.mem_def.1 hch]; rfl)
  -- blanks on the line are left out, and the next line break is decoded on its own
  | blankLine hending hjoin hblanks hbreak _ ih =>
    obtain ⟨ch, hch, hbreak⟩ := hbreak
    rw [hending.decode_append hblanks hjoin fun other hother => ?_, ih]
    rw [Option.mem_unique hother hch]
    exact Text.not_isInlineBlank_of_isLineBreak hbreak
  | @indent _ blanks raw _ _ hending hblanks hne hgoes _ ih =>
    obtain ⟨ch, hch, hvisible, -⟩ := hgoes
    rw [hending.decode_append hblanks (fun _ hhead => ?_) fun other hother => ?_, ih]
    · -- a blank stands behind the line break, so it takes in no line feed
      cases blanks with
      | nil => exact hne rfl
      | cons blank blanks =>
        obtain rfl := Option.some.inj hhead
        cases (Text.isBlanks_cons.1 hblanks).1
    · rw [Option.mem_def.1 hother, Option.some_or] at hch
      obtain rfl := Option.mem_some_iff.1 hch
      exact Text.not_isInlineBlank_of_isVisible hvisible

/-! ### Tiling -/

/-- A pattern whose elements tile its span, behind which nothing but blanks stands on its line, and
whose texts are what the source has at their spans, decoded. -/
structure Pattern.Faithful (source : List Char) (pattern : Pattern) : Prop where
  contiguous : pattern.elements.IsChain fun element next => element.span.stop = next.span.start
  span_eq : ∃ first ∈ pattern.elements.head?, ∃ last ∈ pattern.elements.getLast?,
    pattern.span = ⟨first.span.start, last.span.stop⟩
  closes : ∃ after, Ahead source pattern.span.stop after ∧ Closes after
  texts : ∀ value span, .text value span ∈ pattern.elements →
    ∃ raw, Text.slice? source span.start span.stop = some raw ∧
      value = String.ofList (Text.decode raw)

/-- The spans of the elements of a pattern; an expression has none. -/
def Subtree.elementSpans : Subtree → List Span
  | .pattern content => content.elements.map PatternElement.span
  | .expression _ => []

variable {start : Nat} {source text after : List Char} {elements : List PatternElement}

theorem SpellsElements.contiguous (h : SpellsElements start text elements) :
    elements.IsChain fun element next => element.span.stop = next.span.start := by
  induction elements generalizing start text with
  | nil => exact .nil
  | cons element elements ih =>
    cases elements with
    | nil => exact .singleton _
    | cons next elements =>
      cases h with
      | text _ _ hrest => exact .cons_cons hrest.span_start.symm (ih hrest)
      | placeable _ hrest => exact .cons_cons hrest.span_start.symm (ih hrest)

theorem SpellsElements.text_eq_decode (h : SpellsElements start text elements)
    (hahead : Ahead source start (text ++ after)) {value : String} {span : Span}
    (hmem : .text value span ∈ elements) :
    ∃ raw, Text.slice? source span.start span.stop = some raw ∧
      value = String.ofList (Text.decode raw) := by
  -- along the elements: each starts where what lies ahead of it starts
  induction elements generalizing start text with
  | nil => cases hmem
  | cons element elements ih =>
    cases h with
    | @text _ raw _ _ _ _ hspells hrest =>
      rw [List.append_assoc] at hahead
      rcases List.mem_cons.1 hmem with heq | hmem
      · obtain ⟨rfl, rfl⟩ := PatternElement.text.inj heq
        exact ⟨raw, hahead.slice?, by rw [hspells.decode_eq]⟩
      · exact ih hrest hahead.behind hmem
    | @placeable _ inner _ rest _ _ hrest =>
      have hbehind : Ahead source start (('{' :: (inner ++ ['}'])) ++ (rest ++ after)) := by
        simpa using hahead
      exact ih hrest hbehind.behind (List.mem_of_ne_of_mem (by simp) hmem)

/-- What is spelled by a text of the source whose line closes is faithful. -/
theorem SpellsPattern.faithful {pattern : Pattern} (h : SpellsPattern start text pattern)
    (hvisible : ∃ ch more, text = ch :: more ∧ isVisible ch)
    (hahead : Ahead source start (text ++ after)) (hcloses : Closes after) :
    pattern.Faithful source := by
  obtain ⟨kept, blanks, htrimmed, hne, hpattern⟩ := h.exists_elements hvisible
  have hspan : pattern.span = spanOf start kept :=
    (congrArg Pattern.span hpattern).trans (htrimmed.spells.assemble_span hne)
  -- the last element ends in front of the blanks, which belong to the line only
  have hkept : Ahead source start (kept ++ (blanks ++ after)) := by
    rwa [htrimmed.text_eq, List.append_assoc] at hahead
  refine ⟨htrimmed.spells.contiguous, ?_, ⟨blanks ++ after, ?_, hcloses.blanks_append
    htrimmed.isBlanks⟩, fun _ _ hmem => htrimmed.spells.text_eq_decode hkept hmem⟩
  · have helements : pattern.elements ≠ [] := mt htrimmed.spells.eq_nil hne
    obtain ⟨first, elements, hcons⟩ := List.exists_cons_of_ne_nil helements
    have hlast := List.getLast?_eq_some_getLast helements
    have hspells := htrimmed.spells
    rw [hcons] at hspells
    refine ⟨first, by rw [hcons]; rfl, _, hlast, ?_⟩
    rw [htrimmed.spells.span_stop.2 _ hlast, hspells.span_start]
    exact hspan
  · rw [hspan]
    exact hkept.behind

namespace Resource

/-- Every pattern that is read, at any depth, is faithful to what is held of its source. -/
theorem parse_faithful {source : String} {pattern : Pattern}
    (h : .pattern pattern ∈ (parse source).subtrees) :
    pattern.Faithful (Cursor.held source.toList) := by
  obtain ⟨_, _, _, hahead, hcloses, hspells, hvisible⟩ := spelledIn_of_mem_subtrees h
  exact hspells.faithful hvisible hahead hcloses

/-- The pattern of a variant, over three lines and with a tab behind its last brace. -/
theorem parse_faithful_variant :
    let source := "k = \x7b\n *[x] a\r\n\t\r\n  \\\x7b \x7b $x \x7d\t\n \x7d"
    ∃ pattern, .pattern pattern ∈ (parse source).subtrees ∧
      pattern.elements.map PatternElement.span = [⟨12, 23⟩, ⟨23, 29⟩] ∧
      pattern.Faithful (Cursor.held source.toList) := by
  intro source
  have hany : (parse source).subtrees.any (·.elementSpans = [⟨12, 23⟩, ⟨23, 29⟩]) := by
    decide +kernel
  obtain ⟨subtree, hmem, hspans⟩ := List.any_eq_true.1 hany
  cases subtree with
  | pattern pattern => exact ⟨pattern, hmem, of_decide_eq_true hspans, parse_faithful hmem⟩
  | expression content => cases hspans

end Resource

end Localization
