import Localization.Resource.Grammar.Expression
import Mathlib.Order.MinMax

/-!
# Trees moved in their source

A map of offsets is applied to both bounds of every span of a tree, and to nothing else. Two trees
that a map takes to the same tree differ only in where they stand.

## Main definitions

* `Span.mapOffsets`, `Pattern.mapOffsets`, `Entry.mapOffsets` and their like — a tree with its
  offsets mapped

## Main statements

* `Entry.mapOffsets_mapOffsets` — two maps, one after the other
* `Entry.mapOffsets_id` — the map that moves nothing
* `Span.mapOffsets_merge` — a monotone map goes through the span of two spans
-/

namespace Localization

variable (f : Nat → Nat)

/-! ### Spans and leaves -/

/-- The span between the images of the bounds. -/
def Span.mapOffsets (span : Span) : Span := ⟨f span.start, f span.stop⟩

/-- The identifier with its offsets mapped. -/
def Identifier.mapOffsets (id : Identifier) : Identifier := ⟨id.name, id.span.mapOffsets f⟩

/-- The comment with its offsets mapped. -/
def Comment.mapOffsets (comment : Comment) : Comment :=
  ⟨comment.content, comment.span.mapOffsets f⟩

/-- The key with its offsets mapped. -/
def VariantKey.mapOffsets : VariantKey → VariantKey
  | .name words span => .name words (span.mapOffsets f)
  | .number digits span => .number digits (span.mapOffsets f)

/-! ### Patterns and expressions -/

mutual

/-- The pattern with its offsets mapped. -/
def Pattern.mapOffsets : Pattern → Pattern
  | ⟨elements, span⟩ => ⟨elementsMapOffsets elements, span.mapOffsets f⟩

/-- Pattern elements with their offsets mapped. -/
def elementsMapOffsets : List PatternElement → List PatternElement
  | [] => []
  | element :: rest => element.mapOffsets :: elementsMapOffsets rest

/-- The pattern element with its offsets mapped. -/
def PatternElement.mapOffsets : PatternElement → PatternElement
  | .text value span => .text value (span.mapOffsets f)
  | .placeable expression span => .placeable expression.mapOffsets (span.mapOffsets f)

/-- The expression with its offsets mapped. -/
def Expression.mapOffsets : Expression → Expression
  | .stringLiteral value span => .stringLiteral value (span.mapOffsets f)
  | .numberLiteral value span => .numberLiteral value (span.mapOffsets f)
  | .messageReference id => .messageReference (id.mapOffsets f)
  | .variableReference id span => .variableReference (id.mapOffsets f) (span.mapOffsets f)
  | .select selector variants defaultIndex span =>
    .select (selectorMapOffsets selector) (variantsMapOffsets variants) defaultIndex
      (span.mapOffsets f)
  | .attribute id name span =>
    .attribute (id.mapOffsets f) (name.mapOffsets f) (span.mapOffsets f)
  | .variant term key span =>
    .variant (term.mapOffsets f) (key.mapOffsets f) (span.mapOffsets f)
  | .call callee args span =>
    .call (callee.mapOffsets f) (argumentsMapOffsets args) (span.mapOffsets f)

/-- A selector with its offsets mapped. -/
def selectorMapOffsets : Option Expression → Option Expression
  | none => none
  | some expression => some expression.mapOffsets

/-- Variants with their offsets mapped. -/
def variantsMapOffsets : List Variant → List Variant
  | [] => []
  | variant :: rest => variant.mapOffsets :: variantsMapOffsets rest

/-- The variant with its offsets mapped. -/
def Variant.mapOffsets : Variant → Variant
  | ⟨key, value, isDefault, span⟩ =>
    ⟨key.mapOffsets f, value.mapOffsets, isDefault, span.mapOffsets f⟩

/-- Call arguments with their offsets mapped. -/
def argumentsMapOffsets : List CallArgument → List CallArgument
  | [] => []
  | argument :: rest => argument.mapOffsets :: argumentsMapOffsets rest

/-- The call argument with its offsets mapped. -/
def CallArgument.mapOffsets : CallArgument → CallArgument
  | .positional value => .positional value.mapOffsets
  | .named name value span => .named (name.mapOffsets f) value.mapOffsets (span.mapOffsets f)

end

/-! ### Entries -/

/-- The attribute with its offsets mapped. -/
def Attribute.mapOffsets (named : Attribute) : Attribute :=
  ⟨named.id.mapOffsets f, named.value.mapOffsets f, named.span.mapOffsets f⟩

/-- The message with its offsets mapped. -/
def Message.mapOffsets (message : Message) : Message :=
  ⟨message.id.mapOffsets f, message.value.map (·.mapOffsets f),
    message.attributes.map (·.mapOffsets f), message.comment.map (·.mapOffsets f),
    message.span.mapOffsets f⟩

/-- The diagnostic with its offsets mapped. -/
def Diagnostic.mapOffsets (diagnostic : Diagnostic) : Diagnostic :=
  { diagnostic with span := diagnostic.span.mapOffsets f }

/-- The junk with its offsets mapped. -/
def Junk.mapOffsets (junk : Junk) : Junk :=
  ⟨junk.content, junk.diagnostics.map (·.mapOffsets f), junk.span.mapOffsets f⟩

/-- The entry with its offsets mapped. -/
def Entry.mapOffsets : Entry → Entry
  | .message m => .message (m.mapOffsets f)
  | .term m => .term (m.mapOffsets f)
  | .comment level c => .comment level (c.mapOffsets f)
  | .junk j => .junk (j.mapOffsets f)

/-- The resource with its offsets mapped. -/
def Resource.mapOffsets (resource : Resource) : Resource :=
  ⟨resource.body.map (·.mapOffsets f), resource.span.mapOffsets f⟩

/-- The syntax error with its offset mapped. -/
def SyntaxError.mapOffsets (error : SyntaxError) : SyntaxError :=
  { error with offset := f error.offset }

/-! ### Lists of nodes -/

@[simp] theorem elementsMapOffsets_eq_map (elements : List PatternElement) :
    elementsMapOffsets f elements = elements.map (·.mapOffsets f) := by
  induction elements with
  | nil => rfl
  | cons element rest ih => rw [elementsMapOffsets, ih, List.map_cons]

@[simp] theorem variantsMapOffsets_eq_map (variants : List Variant) :
    variantsMapOffsets f variants = variants.map (·.mapOffsets f) := by
  induction variants with
  | nil => rfl
  | cons variant rest ih => rw [variantsMapOffsets, ih, List.map_cons]

@[simp] theorem argumentsMapOffsets_eq_map (args : List CallArgument) :
    argumentsMapOffsets f args = args.map (·.mapOffsets f) := by
  induction args with
  | nil => rfl
  | cons argument rest ih => rw [argumentsMapOffsets, ih, List.map_cons]

@[simp] theorem selectorMapOffsets_eq_map (selector : Option Expression) :
    selectorMapOffsets f selector = selector.map (·.mapOffsets f) := by
  cases selector <;> rfl

/-! ### What a map leaves alone -/

@[simp] theorem Identifier.isTerm_mapOffsets (id : Identifier) :
    (id.mapOffsets f).isTerm = id.isTerm := rfl

@[simp] theorem Identifier.span_mapOffsets (id : Identifier) :
    (id.mapOffsets f).span = id.span.mapOffsets f := rfl

@[simp] theorem Pattern.span_mapOffsets (pattern : Pattern) :
    (pattern.mapOffsets f).span = pattern.span.mapOffsets f := by
  cases pattern
  rfl

@[simp] theorem PatternElement.span_mapOffsets (element : PatternElement) :
    (element.mapOffsets f).span = element.span.mapOffsets f := by
  cases element <;> rfl

@[simp] theorem Expression.span_mapOffsets (expression : Expression) :
    (expression.mapOffsets f).span = expression.span.mapOffsets f := by
  cases expression <;> rfl

@[simp] theorem Variant.isDefault_mapOffsets (variant : Variant) :
    (variant.mapOffsets f).isDefault = variant.isDefault := by
  cases variant
  rfl

/-- Moving a message or a term does not change which of the two it is. -/
theorem mapOffsets_ofMessage (message : Message) :
    (if message.isTerm then Entry.term message else .message message).mapOffsets f =
      if (message.mapOffsets f).isTerm then .term (message.mapOffsets f)
      else .message (message.mapOffsets f) := by
  change _ = if message.isTerm then _ else _
  split <;> rfl

namespace Parser

/-- The name of an argument does not depend on where the argument stands. -/
theorem argumentName?_mapOffsets (argument : CallArgument) :
    argumentName? (argument.mapOffsets f) = argumentName? argument := by
  cases argument <;> rfl

/-- Whether an argument is refused does not depend on where the arguments stand. -/
theorem argumentError?_mapOffsets (before : List CallArgument) (argument : CallArgument) :
    argumentError? (before.map (·.mapOffsets f)) (argument.mapOffsets f) =
      argumentError? before argument := by
  unfold argumentError?
  rw [List.filterMap_map, argumentName?_mapOffsets,
    show argumentName? ∘ (CallArgument.mapOffsets f) = argumentName? from
      funext (argumentName?_mapOffsets f)]

/-- Whether a selector is refused does not depend on where it stands. -/
theorem selectorError?_mapOffsets (expression : Expression) :
    selectorError? (expression.mapOffsets f) = selectorError? expression := by
  cases expression <;> rfl

/-- Whether an attribute of a term is meant does not depend on where it stands. -/
theorem isTermAttribute_mapOffsets (expression : Expression) :
    isTermAttribute (expression.mapOffsets f) = isTermAttribute expression := by
  cases expression <;> rfl

end Parser

/-- A monotone map goes through the span of two spans. -/
theorem Span.mapOffsets_merge (hf : Monotone f) (s t : Span) :
    (s.merge t).mapOffsets f = (s.mapOffsets f).merge (t.mapOffsets f) := by
  simp only [Span.mapOffsets, Span.merge, Span.mk.injEq]
  exact ⟨hf.map_min, hf.map_max⟩

/-! ### Two maps -/

variable (g : Nat → Nat)

theorem VariantKey.mapOffsets_mapOffsets (key : VariantKey) :
    (key.mapOffsets f).mapOffsets g = key.mapOffsets (g ∘ f) := by
  cases key <;> rfl

mutual

/-- Moving a pattern twice is moving it once by both maps. -/
theorem Pattern.mapOffsets_mapOffsets :
    ∀ pattern : Pattern, (pattern.mapOffsets f).mapOffsets g = pattern.mapOffsets (g ∘ f)
  | ⟨elements, span⟩ => by
    simp only [Pattern.mapOffsets, elementsMapOffsets_mapOffsets elements]
    rfl

theorem elementsMapOffsets_mapOffsets : ∀ elements : List PatternElement,
    elementsMapOffsets g (elementsMapOffsets f elements) = elementsMapOffsets (g ∘ f) elements
  | [] => rfl
  | element :: rest => by
    simp only [elementsMapOffsets, element.mapOffsets_mapOffsets,
      elementsMapOffsets_mapOffsets rest]

theorem PatternElement.mapOffsets_mapOffsets : ∀ element : PatternElement,
    (element.mapOffsets f).mapOffsets g = element.mapOffsets (g ∘ f)
  | .text _ _ => rfl
  | .placeable expression span => by
    simp only [PatternElement.mapOffsets, expression.mapOffsets_mapOffsets]
    rfl

/-- Moving an expression twice is moving it once by both maps. -/
theorem Expression.mapOffsets_mapOffsets : ∀ expression : Expression,
    (expression.mapOffsets f).mapOffsets g = expression.mapOffsets (g ∘ f)
  | .stringLiteral _ _ => rfl
  | .numberLiteral _ _ => rfl
  | .messageReference _ => rfl
  | .variableReference _ _ => rfl
  | .select selector variants _ _ => by
    simp only [Expression.mapOffsets, selectorMapOffsets_mapOffsets selector,
      variantsMapOffsets_mapOffsets variants]
    rfl
  | .attribute _ _ _ => rfl
  | .variant _ key _ => by
    simp only [Expression.mapOffsets, key.mapOffsets_mapOffsets]
    rfl
  | .call _ args _ => by
    simp only [Expression.mapOffsets, argumentsMapOffsets_mapOffsets args]
    rfl

theorem selectorMapOffsets_mapOffsets : ∀ selector : Option Expression,
    selectorMapOffsets g (selectorMapOffsets f selector) = selectorMapOffsets (g ∘ f) selector
  | none => rfl
  | some expression => by
    simp only [selectorMapOffsets, expression.mapOffsets_mapOffsets]

theorem variantsMapOffsets_mapOffsets : ∀ variants : List Variant,
    variantsMapOffsets g (variantsMapOffsets f variants) = variantsMapOffsets (g ∘ f) variants
  | [] => rfl
  | variant :: rest => by
    simp only [variantsMapOffsets, variant.mapOffsets_mapOffsets,
      variantsMapOffsets_mapOffsets rest]

theorem Variant.mapOffsets_mapOffsets : ∀ variant : Variant,
    (variant.mapOffsets f).mapOffsets g = variant.mapOffsets (g ∘ f)
  | ⟨key, value, _, _⟩ => by
    simp only [Variant.mapOffsets, key.mapOffsets_mapOffsets, value.mapOffsets_mapOffsets]
    rfl

theorem argumentsMapOffsets_mapOffsets : ∀ args : List CallArgument,
    argumentsMapOffsets g (argumentsMapOffsets f args) = argumentsMapOffsets (g ∘ f) args
  | [] => rfl
  | argument :: rest => by
    simp only [argumentsMapOffsets, argument.mapOffsets_mapOffsets,
      argumentsMapOffsets_mapOffsets rest]

theorem CallArgument.mapOffsets_mapOffsets : ∀ argument : CallArgument,
    (argument.mapOffsets f).mapOffsets g = argument.mapOffsets (g ∘ f)
  | .positional value => by
    simp only [CallArgument.mapOffsets, value.mapOffsets_mapOffsets]
  | .named _ value _ => by
    simp only [CallArgument.mapOffsets, value.mapOffsets_mapOffsets]
    rfl

end

/-- Moving a message twice is moving it once by both maps. -/
theorem Message.mapOffsets_mapOffsets (message : Message) :
    (message.mapOffsets f).mapOffsets g = message.mapOffsets (g ∘ f) := by
  simp only [Message.mapOffsets, Option.map_map, List.map_map]
  congr 1
  · exact congrArg (Option.map · _) (funext fun value => value.mapOffsets_mapOffsets f g)
  · exact congrArg (List.map · _) (funext fun named => by
      simp only [Function.comp, Attribute.mapOffsets, Pattern.mapOffsets_mapOffsets]
      rfl)

/-- Moving an entry twice is moving it once by both maps. -/
theorem Entry.mapOffsets_mapOffsets (entry : Entry) :
    (entry.mapOffsets f).mapOffsets g = entry.mapOffsets (g ∘ f) := by
  cases entry with
  | message m => exact congrArg Entry.message (m.mapOffsets_mapOffsets f g)
  | term m => exact congrArg Entry.term (m.mapOffsets_mapOffsets f g)
  | comment => rfl
  | junk j =>
    simp only [Entry.mapOffsets, Junk.mapOffsets, List.map_map]
    rfl

/-! ### The identity -/

theorem VariantKey.mapOffsets_id (key : VariantKey) : key.mapOffsets id = key := by
  cases key <;> rfl

mutual

/-- Moving by the identity leaves a pattern as it is. -/
theorem Pattern.mapOffsets_id : ∀ pattern : Pattern, pattern.mapOffsets id = pattern
  | ⟨elements, _⟩ => by
    simp only [Pattern.mapOffsets, elementsMapOffsets_id elements]
    rfl

theorem elementsMapOffsets_id : ∀ elements : List PatternElement,
    elementsMapOffsets id elements = elements
  | [] => rfl
  | element :: rest => by
    simp only [elementsMapOffsets, element.mapOffsets_id, elementsMapOffsets_id rest]

theorem PatternElement.mapOffsets_id : ∀ element : PatternElement, element.mapOffsets id = element
  | .text _ _ => rfl
  | .placeable expression span => by
    simp only [PatternElement.mapOffsets, expression.mapOffsets_id]
    rfl

/-- Moving by the identity leaves an expression as it is. -/
theorem Expression.mapOffsets_id : ∀ expression : Expression, expression.mapOffsets id = expression
  | .stringLiteral _ _ => rfl
  | .numberLiteral _ _ => rfl
  | .messageReference _ => rfl
  | .variableReference _ _ => rfl
  | .select selector variants _ _ => by
    simp only [Expression.mapOffsets, selectorMapOffsets_id selector,
      variantsMapOffsets_id variants]
    rfl
  | .attribute _ _ _ => rfl
  | .variant _ key _ => by
    simp only [Expression.mapOffsets, key.mapOffsets_id]
    rfl
  | .call _ args _ => by
    simp only [Expression.mapOffsets, argumentsMapOffsets_id args]
    rfl

theorem selectorMapOffsets_id : ∀ selector : Option Expression,
    selectorMapOffsets id selector = selector
  | none => rfl
  | some expression => by simp only [selectorMapOffsets, expression.mapOffsets_id]

theorem variantsMapOffsets_id : ∀ variants : List Variant, variantsMapOffsets id variants = variants
  | [] => rfl
  | variant :: rest => by
    simp only [variantsMapOffsets, variant.mapOffsets_id, variantsMapOffsets_id rest]

theorem Variant.mapOffsets_id : ∀ variant : Variant, variant.mapOffsets id = variant
  | ⟨key, value, _, _⟩ => by
    simp only [Variant.mapOffsets, key.mapOffsets_id, value.mapOffsets_id]
    rfl

theorem argumentsMapOffsets_id : ∀ args : List CallArgument, argumentsMapOffsets id args = args
  | [] => rfl
  | argument :: rest => by
    simp only [argumentsMapOffsets, argument.mapOffsets_id, argumentsMapOffsets_id rest]

theorem CallArgument.mapOffsets_id : ∀ argument : CallArgument, argument.mapOffsets id = argument
  | .positional value => by simp only [CallArgument.mapOffsets, value.mapOffsets_id]
  | .named _ value _ => by
    simp only [CallArgument.mapOffsets, value.mapOffsets_id]
    rfl

end

theorem attribute_mapOffsets_id (named : Attribute) : named.mapOffsets id = named := by
  rw [Attribute.mapOffsets, named.value.mapOffsets_id]
  rfl

theorem message_mapOffsets_id (message : Message) : message.mapOffsets id = message := by
  obtain ⟨name, value, attributes, comment, span⟩ := message
  have hvalue : value.map (Pattern.mapOffsets id) = value := by
    rw [funext Pattern.mapOffsets_id]
    exact Option.map_id'
  have hattributes : attributes.map (Attribute.mapOffsets id) = attributes := by
    rw [funext attribute_mapOffsets_id]
    exact List.map_id' _
  rw [Message.mapOffsets, hvalue, hattributes]
  cases comment <;> rfl

/-- Moving by the identity leaves an entry as it is. -/
theorem Entry.mapOffsets_id (entry : Entry) : entry.mapOffsets id = entry := by
  cases entry with
  | message m => exact congrArg Entry.message (message_mapOffsets_id m)
  | term m => exact congrArg Entry.term (message_mapOffsets_id m)
  | comment => rfl
  | junk j =>
    have hdiagnostics : j.diagnostics.map (Diagnostic.mapOffsets id) = j.diagnostics :=
      List.map_id _
    simp only [Entry.mapOffsets, Junk.mapOffsets, hdiagnostics]
    rfl

/-- What is moved to the right and back to the left stands where it stood. -/
theorem Entry.mapOffsets_add_sub (entry : Entry) (n : Nat) :
    (entry.mapOffsets (· + n)).mapOffsets (· - n) = entry := by
  rw [Entry.mapOffsets_mapOffsets,
    show ((· - n) ∘ (· + n) : Nat → Nat) = id from funext fun offset => Nat.add_sub_cancel offset n,
    Entry.mapOffsets_id]

end Localization
