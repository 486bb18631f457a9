import Localization.Proofs.Resource.Tiling

/-!
# Patterns and expressions at any depth

A message holds patterns and expressions at any depth: a pattern holds expressions in its
placeables, and an expression holds a selector, the patterns of variants, and arguments. In a
resource that was read, each of them is spelled by some text of the source, and a pattern goes on to
the end of its line. So what the grammar asks of a single pattern or expression holds of all that a
resource holds.

## Main definitions

* `Subtree` — a pattern or an expression, wherever it stands
* `Resource.subtrees` — all patterns and expressions of a resource
* `Subtree.Spelled` — some text spells the pattern or the expression
* `Subtree.SpelledIn` — the source has such a text, behind which the line of a pattern closes

## Main statements

* `Resource.spelledIn_of_mem_subtrees`, `Resource.spelled_of_mem_subtrees` — the patterns and
  expressions that are read are spelled
* `Resource.exists_spellsMessage` — so are the messages and terms, up to their comments
-/

namespace Localization

open Text (Ahead EndsLine IsBlanks IsGap StartsBreak byteLength isVisible)

/-- A pattern or an expression that stands somewhere in a tree. -/
inductive Subtree
  | pattern (content : Pattern)
  | expression (content : Expression)

/-! ### The subtrees of a tree -/

mutual

/-- The patterns and expressions in a pattern, itself first. -/
def Pattern.subtrees : Pattern → List Subtree
  | ⟨elements, span⟩ => .pattern ⟨elements, span⟩ :: elementsSubtrees elements

/-- The patterns and expressions in the elements of a pattern, in their order. -/
def elementsSubtrees : List PatternElement → List Subtree
  | [] => []
  | element :: rest => element.subtrees ++ elementsSubtrees rest

/-- The patterns and expressions in an element; a text holds none. -/
def PatternElement.subtrees : PatternElement → List Subtree
  | .text _ _ => []
  | .placeable expression _ => expression.subtrees

/-- The patterns and expressions in an expression, itself first. -/
def Expression.subtrees : Expression → List Subtree
  | .stringLiteral value span => [.expression (.stringLiteral value span)]
  | .numberLiteral value span => [.expression (.numberLiteral value span)]
  | .messageReference id => [.expression (.messageReference id)]
  | .variableReference id span => [.expression (.variableReference id span)]
  | .select selector variants defaultIndex span =>
    .expression (.select selector variants defaultIndex span) ::
      (selectorSubtrees selector ++ variantsSubtrees variants)
  | .attribute id name span => [.expression (.attribute id name span)]
  | .variant term key span => [.expression (.variant term key span)]
  | .call callee args span => .expression (.call callee args span) :: argumentsSubtrees args

/-- The patterns and expressions in the selector, if there is one. -/
def selectorSubtrees : Option Expression → List Subtree
  | none => []
  | some expression => expression.subtrees

/-- The patterns and expressions in the variants of a choice, in their order. -/
def variantsSubtrees : List Variant → List Subtree
  | [] => []
  | variant :: rest => variant.subtrees ++ variantsSubtrees rest

/-- The patterns and expressions in the value of a variant; its key is neither. -/
def Variant.subtrees : Variant → List Subtree
  | ⟨_, value, _, _⟩ => value.subtrees

/-- The patterns and expressions in the arguments of a call, in their order. -/
def argumentsSubtrees : List CallArgument → List Subtree
  | [] => []
  | argument :: rest => argument.subtrees ++ argumentsSubtrees rest

/-- The patterns and expressions in the value of an argument. -/
def CallArgument.subtrees : CallArgument → List Subtree
  | .positional value => value.subtrees
  | .named _ value _ => value.subtrees

end

/-- The patterns and expressions in the value and the attributes of a message or a term. -/
def Message.subtrees (message : Message) : List Subtree :=
  (message.value.map Pattern.subtrees).getD [] ++
    message.attributes.flatMap (·.value.subtrees)

/-- The patterns and expressions in an entry; comments and junk hold none. -/
def Entry.subtrees : Entry → List Subtree
  | .message m => m.subtrees
  | .term m => m.subtrees
  | .comment _ _ => []
  | .junk _ => []

/-- All patterns and expressions of a resource. -/
def Resource.subtrees (resource : Resource) : List Subtree :=
  resource.body.flatMap Entry.subtrees

/-! ### Subtrees of what is spelled -/

/-- Some text spells the pattern or the expression. -/
def Subtree.Spelled : Subtree → Prop
  | .pattern content => ∃ start text, SpellsPattern start text content ∧
      ∃ ch more, text = ch :: more ∧ isVisible ch
  | .expression content => (∃ start text next, SpellsSelector start text content next) ∨
      ∃ start text, SpellsPlaceable start text content

/-- Only blanks stand in front of the next line break, or of the end of the text. -/
def Closes (text : List Char) : Prop :=
  ∃ blanks rest, text = blanks ++ rest ∧ IsBlanks blanks ∧ LineEnds rest

/-- Some text of the source spells the pattern or the expression, and behind a pattern its line
closes. -/
def Subtree.SpelledIn (source : List Char) : Subtree → Prop
  | .pattern content => ∃ start text after, Ahead source start (text ++ after) ∧ Closes after ∧
      SpellsPattern start text content ∧ ∃ ch more, text = ch :: more ∧ isVisible ch
  | .expression content => (∃ start text next, SpellsSelector start text content next) ∨
      ∃ start text, SpellsPlaceable start text content

variable {start : Nat} {source text rest after : List Char}

theorem Subtree.SpelledIn.spelled {subtree : Subtree} (h : subtree.SpelledIn source) :
    subtree.Spelled := by
  cases subtree with
  | pattern content =>
    obtain ⟨start, text, _, -, -, hspells, hvisible⟩ := h
    exact ⟨start, text, hspells, hvisible⟩
  | expression content => exact h

theorem closes_of_startsBreak (h : StartsBreak text) : Closes text :=
  ⟨[], text, rfl, Text.isBlanks_nil, lineEnds_iff.2 (.inr h)⟩

theorem Closes.blanks_append {blanks : List Char} (h : Closes text) (hblanks : IsBlanks blanks) :
    Closes (blanks ++ text) := by
  obtain ⟨more, rest, rfl, hmore, hends⟩ := h
  exact ⟨blanks ++ more, rest, (List.append_assoc ..).symm, Text.isBlanks_append.2 ⟨hblanks, hmore⟩,
    hends⟩

mutual

/-- Whatever stands in a selector that is spelled is spelled. -/
theorem SpellsSelector.spelledIn : ∀ {start text next} (expression : Expression),
    SpellsSelector start text expression next →
    ∀ subtree ∈ expression.subtrees, subtree.SpelledIn source
  | _, _, _, .stringLiteral _ _, h => List.forall_mem_singleton.2 (.inl ⟨_, _, _, h⟩)
  | _, _, _, .numberLiteral _ _, h => List.forall_mem_singleton.2 (.inl ⟨_, _, _, h⟩)
  | _, _, _, .messageReference _, h => List.forall_mem_singleton.2 (.inl ⟨_, _, _, h⟩)
  | _, _, _, .variableReference _ _, h => List.forall_mem_singleton.2 (.inl ⟨_, _, _, h⟩)
  | _, _, _, .attribute _ _ _, h => List.forall_mem_singleton.2 (.inl ⟨_, _, _, h⟩)
  | _, _, _, .variant _ _ _, h => List.forall_mem_singleton.2 (.inl ⟨_, _, _, h⟩)
  | _, _, _, .call _ args _, h => by
    have harguments : ∀ subtree ∈ argumentsSubtrees args, subtree.SpelledIn source := by
      cases h with
      | call _ _ _ hargs => exact SpellsArguments.spelledIn args hargs
    exact List.forall_mem_cons.2 ⟨.inl ⟨_, _, _, h⟩, harguments⟩

theorem SpellsArguments.spelledIn : ∀ {start before text} (args : List CallArgument),
    SpellsArguments start before text args →
    ∀ subtree ∈ argumentsSubtrees args, subtree.SpelledIn source
  | _, _, _, [], _ => fun subtree hsubtree => by cases hsubtree
  | _, _, _, argument :: args, h => by
    cases h with
    | last hspells _ _ =>
      exact List.forall_mem_append.2 ⟨SpellsArgument.spelledIn argument hspells,
        fun subtree hsubtree => by cases hsubtree⟩
    | more hspells _ _ _ hmore =>
      exact List.forall_mem_append.2 ⟨SpellsArgument.spelledIn argument hspells,
        SpellsArguments.spelledIn args hmore⟩

theorem SpellsArgument.spelledIn : ∀ {start text next} (argument : CallArgument),
    SpellsArgument start text argument next →
    ∀ subtree ∈ argument.subtrees, subtree.SpelledIn source
  | _, _, _, .positional value, h => by
    cases h with
    | positional hspells => exact SpellsSelector.spelledIn value hspells
  | _, _, _, .named _ value _, h => by
    cases h with
    | named _ _ _ _ hspells => exact SpellsSelector.spelledIn value hspells

end

theorem SpellsVariants.startsBreak {count defaultIndex : Nat} {default? : Option Nat}
    {variants : List Variant} (h : SpellsVariants start text count default? variants defaultIndex) :
    StartsBreak text := by
  cases h with
  | last hgap _ _ => exact hgap.startsBreak.append
  | more hgap _ _ => exact hgap.startsBreak.append

mutual

/-- Whatever stands in a pattern that is spelled is spelled. -/
theorem SpellsPattern.spelledIn : ∀ {start text after} (pattern : Pattern),
    SpellsPattern start text pattern → (∃ ch more, text = ch :: more ∧ isVisible ch) →
    Ahead source start (text ++ after) → Closes after →
    ∀ subtree ∈ pattern.subtrees, subtree.SpelledIn source
  | _, _, _, ⟨elements, _⟩, h, hvisible, hahead, hcloses => by
    obtain ⟨kept, blanks, htrimmed, -, -⟩ := h.exists_elements hvisible
    have hkept := hahead
    rw [htrimmed.text_eq, List.append_assoc] at hkept
    exact List.forall_mem_cons.2 ⟨⟨_, _, _, hahead, hcloses, h, hvisible⟩,
      SpellsElements.spelledIn elements htrimmed.spells hkept⟩

theorem SpellsElements.spelledIn : ∀ {start text after} (elements : List PatternElement),
    SpellsElements start text elements → Ahead source start (text ++ after) →
    ∀ subtree ∈ elementsSubtrees elements, subtree.SpelledIn source
  | _, _, _, [], _, _ => fun subtree hsubtree => by cases hsubtree
  | _, _, _, .text _ _ :: elements, h, hahead => by
    cases h with
    | text _ _ hrest =>
      rw [List.append_assoc] at hahead
      exact SpellsElements.spelledIn elements hrest hahead.behind
  | start, _, after, .placeable expression _ :: elements, h, hahead => by
    cases h with
    | @placeable _ inner _ rest _ hinner hrest =>
      have hbrace : Ahead source start (['{'] ++ (inner ++ '}' :: (rest ++ after))) := by
        simpa using hahead
      have hbehind : Ahead source start (('{' :: (inner ++ ['}'])) ++ (rest ++ after)) := by
        simpa using hahead
      exact List.forall_mem_append.2 ⟨SpellsPlaceable.spelledIn expression hinner hbrace.behind,
        SpellsElements.spelledIn elements hrest hbehind.behind⟩

theorem SpellsPlaceable.spelledIn : ∀ {start text after} (expression : Expression),
    SpellsPlaceable start text expression → Ahead source start (text ++ after) →
    ∀ subtree ∈ expression.subtrees, subtree.SpelledIn source
  | start, _, after, expression, h, hahead => by
    have hself : (Subtree.expression expression).SpelledIn source := .inr ⟨_, _, h⟩
    cases h with
    | selector _ hspells _ _ => exact SpellsSelector.spelledIn _ hspells
    | @choice _ blanks text _ blanks' blanks'' variantsText variants _ gap _ hspells _ _ _
        hvariants _ hbreak =>
      -- the gap in front of the closing brace closes the line of the last variant
      have hbehind : Ahead source start
          ((blanks ++ (text ++ (blanks' ++ '-' :: '>' :: blanks''))) ++
            (variantsText ++ (gap ++ after))) := by
        simpa using hahead
      exact List.forall_mem_cons.2 ⟨hself, List.forall_mem_append.2
        ⟨SpellsSelector.spelledIn _ hspells, SpellsVariants.spelledIn variants hvariants
          hbehind.behind (closes_of_startsBreak hbreak.append)⟩⟩
    | @bare _ blanks variantsText variants _ gap _ hvariants _ hbreak =>
      have hbehind : Ahead source start (blanks ++ (variantsText ++ (gap ++ after))) := by
        simpa using hahead
      exact List.forall_mem_cons.2 ⟨hself, SpellsVariants.spelledIn variants hvariants
        hbehind.behind (closes_of_startsBreak hbreak.append)⟩

theorem SpellsVariants.spelledIn : ∀ {start text after count default? defaultIndex}
    (variants : List Variant), SpellsVariants start text count default? variants defaultIndex →
    Ahead source start (text ++ after) → Closes after →
    ∀ subtree ∈ variantsSubtrees variants, subtree.SpelledIn source
  | _, _, _, _, _, _, [], _, _, _ => fun subtree hsubtree => by cases hsubtree
  | start, _, after, _, _, _, variant :: variants, h, hahead, hcloses => by
    cases h with
    | last _ hspells _ =>
      rw [List.append_assoc] at hahead
      exact List.forall_mem_append.2
        ⟨SpellsVariant.spelledIn variant hspells hahead.behind hcloses,
          fun subtree hsubtree => by cases hsubtree⟩
    | @more _ gap text rest _ _ _ _ _ hgap hspells hmore =>
      -- the line of a variant closes in front of the next one
      have hfirst : Ahead source start (gap ++ (text ++ (rest ++ after))) := by
        simpa using hahead
      have hrest : Ahead source start ((gap ++ text) ++ (rest ++ after)) := by
        simpa using hahead
      exact List.forall_mem_append.2
        ⟨SpellsVariant.spelledIn variant hspells hfirst.behind
          (closes_of_startsBreak hmore.startsBreak.append),
          SpellsVariants.spelledIn variants hmore hrest.behind hcloses⟩

theorem SpellsVariant.spelledIn : ∀ {start text after hasDefault} (variant : Variant),
    SpellsVariant start text hasDefault variant → Ahead source start (text ++ after) →
    Closes after → ∀ subtree ∈ variant.subtrees, subtree.SpelledIn source
  | start, _, after, _, ⟨_, value, _, _⟩, h, hahead, hcloses => by
    cases h with
    | @mk _ _ _ star blanks _ keyText blanks' lead text _ _ _ _ _ _ hlead hspells =>
      have hbehind : Ahead source start
          ((star ++ '[' :: (blanks ++ (keyText ++ (blanks' ++ ']' :: lead)))) ++
            (text ++ after)) := by
        simpa using hahead
      exact SpellsPattern.spelledIn value hspells hlead.exists_visible hbehind.behind hcloses

end

/-! ### Messages and terms -/

/-- Every attribute has a text of its own, whose line closes behind it. -/
theorem SpellsAttributes.exists_attribute {attributes : List Attribute}
    (h : SpellsAttributes start text attributes) {named : Attribute} (hnamed : named ∈ attributes) :
    ∃ before own behind, text = before ++ (own ++ behind) ∧ (behind = [] ∨ StartsBreak behind) ∧
      SpellsAttribute (start + byteLength before) own named := by
  induction h with
  | nil => cases hnamed
  | @cons start gap own first rest attributes _ hspells hrest ih =>
    rcases List.mem_cons.1 hnamed with rfl | hmem
    · refine ⟨gap, own, rest, rfl, ?_, hspells⟩
      cases hrest with
      | nil => exact .inl rfl
      | cons hgap _ _ => exact .inr hgap.startsBreak.append
    · obtain ⟨before, own', behind, rfl, hbehind, hspells'⟩ := ih hmem
      refine ⟨gap ++ own ++ before, own', behind, by simp, hbehind, ?_⟩
      rwa [Text.byteLength_append, ← Nat.add_assoc]

theorem SpellsAttributes.closes_append {attributes : List Attribute}
    (h : SpellsAttributes start text attributes) (hcloses : Closes after) :
    Closes (text ++ after) := by
  cases h with
  | nil => exact hcloses
  | cons hgap _ _ => exact closes_of_startsBreak hgap.startsBreak.append.append

theorem SpellsAttribute.spelledIn {named : Attribute} (h : SpellsAttribute start text named)
    (hahead : Ahead source start (text ++ after)) (hcloses : Closes after) :
    ∀ subtree ∈ named.value.subtrees, subtree.SpelledIn source := by
  cases h with
  | @mk name blanks lead text _ _ _ hlead hspells =>
    have hvalue : Ahead source start (('.' :: (name ++ (blanks ++ '=' :: lead))) ++
        (text ++ after)) := by
      simpa using hahead
    exact SpellsPattern.spelledIn _ hspells hlead.exists_visible hvalue.behind hcloses

theorem SpellsMessage.spelledIn {message : Message} (h : SpellsMessage start text message)
    (hahead : Ahead source start (text ++ after)) (hcloses : Closes after) :
    ∀ subtree ∈ message.subtrees, subtree.SpelledIn source := by
  cases h with
  | @mk name blanks valueText _ attributesText _ _ _ hvalue hattributes _ _ =>
    refine List.forall_mem_append.2 ⟨?_, fun subtree hsubtree => ?_⟩
    · cases hvalue with
      | none _ => exact fun subtree hsubtree => by cases hsubtree
      | @some lead text _ hlead hspells =>
        have hbehind : Ahead source start
            ((name ++ (blanks ++ ['='])) ++ (lead ++ (text ++ (attributesText ++ after)))) := by
          simpa using hahead
        exact SpellsPattern.spelledIn _ hspells hlead.exists_visible hbehind.behind.behind
          (hattributes.closes_append hcloses)
    · obtain ⟨named, hnamed, hsubtree⟩ := List.mem_flatMap.1 hsubtree
      obtain ⟨before, own, behind, rfl, hbehind, hspells⟩ := hattributes.exists_attribute hnamed
      have hown : Ahead source start ((name ++ (blanks ++ '=' :: valueText)) ++
          (before ++ (own ++ (behind ++ after)))) := by
        simpa using hahead
      have hcloses : Closes (behind ++ after) := by
        rcases hbehind with rfl | hbreak
        · exact hcloses
        · exact closes_of_startsBreak hbreak.append
      exact hspells.spelledIn hown.behind.behind hcloses subtree hsubtree

/-- A message or a term with its own comment and span. -/
def Message.entry (message : Message) (comment : Option Comment) (span : Span) : Entry :=
  let whole := { message with comment, span }
  if message.isTerm then .term whole else .message whole

/-- A message or a term that an entry covers is spelled at the end of its text, whatever comment is
attached to it. -/
theorem Covers.exists_message {entry : Entry} (h : Covers start text entry)
    (hmessage : entry.IsMessage) :
    ∃ before own message comment span, text = before ++ own ∧
      SpellsMessage (start + byteLength before) own message ∧ ¬EndsLine text ∧
      entry = message.entry comment span := by
  cases h with
  | read hspells _ =>
    obtain ⟨message, hspelled, rfl⟩ := hspells.exists_message hmessage
    exact ⟨[], text, message, message.comment, message.span, rfl, hspelled, hspells.not_endsLine,
      rfl⟩
  | @attached before ending own comment _ _ _ hspells hinner _ =>
    obtain ⟨message, hspelled, rfl⟩ := hspells.exists_message hinner
    have hends : ¬EndsLine (before ++ (ending ++ own)) := by
      rw [← List.append_assoc, Text.endsLine_append hspells.hasContent.ne_nil]
      exact hspells.not_endsLine
    refine ⟨before ++ ending, own, message, some comment, ⟨comment.span.start, message.span.stop⟩,
      (List.append_assoc ..).symm, hspelled, hends, ?_⟩
    unfold Message.entry
    split <;> rfl
  | junk _ _ _ => obtain ⟨message, heq | heq⟩ := hmessage <;> cases heq

/-- Behind a text that does not end a line, a gap to the end of a line closes the line. -/
theorem Text.IsGap.closes {gap : List Char} (h : IsGap gap) (htext : ¬EndsLine text)
    (hline : rest = [] ∨ EndsLine (text ++ gap)) : Closes (gap ++ rest) := by
  have hsplit := List.takeWhile_append_dropWhile (p := isInlineBlank) (l := gap)
  cases hbehind : gap.dropWhile isInlineBlank with
  | nil =>
    -- blanks alone end no line, so nothing follows them
    have hblanks : IsBlanks gap := fun ch hch => List.dropWhile_eq_nil_iff.1 hbehind ch hch
    obtain rfl := hline.resolve_right (Text.not_endsLine_append htext hblanks.not_endsLine)
    exact ⟨gap, [], rfl, hblanks, lineEnds_nil⟩
  | cons ch more =>
    rw [hbehind] at hsplit
    have hends : isInlineBlank ch = false :=
      Text.ends_dropWhile isInlineBlank gap ch (by simp [hbehind])
    have hmem : ch ∈ gap := by
      rw [← hsplit]
      simp
    have hbreak : isLineBreak ch :=
      (Text.isVisible_eq_false_iff.1 (h ch hmem)).resolve_left (by simp [hends])
    refine ⟨gap.takeWhile isInlineBlank, ch :: more ++ rest, ?_, Text.isBlanks_takeWhile,
      lineEnds_iff.2 (.inr (Text.startsBreak_cons.2 hbreak))⟩
    rw [← List.append_assoc, hsplit]

namespace Resource

variable {source : String}

/-- Every message or term that is read is spelled by a text that is held of the source, up to the
comment in front of it, and its line closes behind it. -/
theorem exists_message_ahead {entry : Entry} (hentry : entry ∈ (parse source).body)
    (hmessage : entry.IsMessage) :
    ∃ start text after message comment span,
      Ahead (Cursor.held source.toList) start (text ++ after) ∧ Closes after ∧
        SpellsMessage start text message ∧ entry = message.entry comment span := by
  obtain ⟨before, covered, gap, rest, hsource, -, hgap, hline, -, hcovers⟩ := exists_tile hentry
  obtain ⟨front, own, message, comment, span, rfl, hspells, hends, rfl⟩ :=
    hcovers.exists_message hmessage
  -- an attached comment is covered as well, so the message is the end of what is covered
  refine ⟨_, own, gap ++ rest, message, comment, span, ?_, hgap.closes hends hline, hspells, rfl⟩
  have hahead : Ahead (Cursor.held source.toList) (byteLength before)
      (front ++ (own ++ (gap ++ rest))) :=
    ⟨before, by rw [hsource, List.append_assoc], rfl⟩
  exact hahead.behind

/-- Every message or term that is read is spelled, up to the comment in front of it. -/
theorem exists_spellsMessage {entry : Entry} (hentry : entry ∈ (parse source).body)
    (hmessage : entry.IsMessage) :
    ∃ start text message comment span, SpellsMessage start text message ∧
      entry = message.entry comment span := by
  obtain ⟨start, text, _, message, comment, span, -, -, hspells, heq⟩ :=
    exists_message_ahead hentry hmessage
  exact ⟨start, text, message, comment, span, hspells, heq⟩

/-- Every pattern and every expression that is read is spelled by a text that is held of the
source. -/
theorem spelledIn_of_mem_subtrees {subtree : Subtree} (h : subtree ∈ (parse source).subtrees) :
    subtree.SpelledIn (Cursor.held source.toList) := by
  obtain ⟨entry, hentry, hsubtree⟩ := List.mem_flatMap.1 h
  have hmessage : entry.IsMessage := by
    cases entry with
    | message m => exact ⟨m, .inl rfl⟩
    | term m => exact ⟨m, .inr rfl⟩
    | comment level c => cases hsubtree
    | junk j => cases hsubtree
  obtain ⟨_, _, _, message, comment, span, hahead, hcloses, hspells, rfl⟩ :=
    exists_message_ahead hentry hmessage
  refine hspells.spelledIn hahead hcloses subtree ?_
  -- neither the comment nor the span holds a pattern
  unfold Message.entry at hsubtree
  split at hsubtree <;> exact hsubtree

/-- Every pattern and every expression that is read is spelled. -/
theorem spelled_of_mem_subtrees {subtree : Subtree} (h : subtree ∈ (parse source).subtrees) :
    subtree.Spelled :=
  (spelledIn_of_mem_subtrees h).spelled

end Resource

end Localization
