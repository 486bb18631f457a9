import Localization.Text.Span

/-!
# Resource trees

A resource is a list of entries: messages, terms, comments, and the junk that could not be read.
A message holds patterns, a pattern mixes text with placeables, and a placeable holds an
expression. Every node knows its span in the source.

Terms share the shape of messages; their identifier starts with `-`. A reference to a term is a
message reference whose identifier starts with `-`.

## Main definitions

* `Pattern`, `PatternElement`, `Expression`, `Variant`, `CallArgument` — what a message says
* `Message`, `Attribute`, `Comment`, `Junk`, `Entry`, `Resource` — what a resource is made of
* `Message.attribute?`, `Pattern.simpleText?`, `Resource.junk` — ways to look into a tree
-/

namespace Localization

/-- A name as it is written; the identifier of a term keeps its leading `-`. -/
structure Identifier where
  name : String
  span : Span
  deriving DecidableEq, Inhabited

/-- Whether the identifier names a term. -/
def Identifier.isTerm (id : Identifier) : Bool := id.name.toList.head? == some '-'

/-- The text of a comment without its markers, lines joined by line feeds. -/
structure Comment where
  content : String
  span : Span
  deriving DecidableEq, Inhabited

/-- What a comment is about: its surroundings, a group of entries, or the whole resource. -/
inductive CommentLevel
  | plain
  | group
  | resource
  deriving DecidableEq, Inhabited

/-- What selects a variant: a name, whose words may be separated by spaces, or a number as it is
written. -/
inductive VariantKey
  | name (words : String) (span : Span)
  | number (digits : String) (span : Span)
  deriving DecidableEq, Inhabited

/-- The key as it is written. -/
def VariantKey.text : VariantKey → String
  | .name words _ => words
  | .number digits _ => digits

/-- Where the key stands. -/
def VariantKey.span : VariantKey → Span
  | .name _ span => span
  | .number _ span => span

/-! ### Patterns and expressions -/

mutual

/-- A sequence of text and placeables. -/
structure Pattern where
  elements : List PatternElement
  span : Span

/-- A part of a pattern: text with its escapes applied, or an expression in braces. -/
inductive PatternElement
  | text (value : String) (span : Span)
  | placeable (expression : Expression) (span : Span)

/-- What can stand in a placeable. -/
inductive Expression
  /-- A quoted text with its escapes applied. -/
  | stringLiteral (value : String) (span : Span)
  /-- A number as it is written; trailing zeros count. -/
  | numberLiteral (value : String) (span : Span)
  /-- A message or a term. -/
  | messageReference (id : Identifier)
  /-- A variable that the caller supplies, named without its `$`. -/
  | variableReference (id : Identifier) (span : Span)
  /-- A choice between variants; without a selector it is a bare list of variants. -/
  | select (selector : Option Expression) (variants : List Variant) (defaultIndex : Nat)
      (span : Span)
  /-- An attribute of a message or a term. -/
  | attribute (id name : Identifier) (span : Span)
  /-- A variant of a term. -/
  | variant (term : Identifier) (key : VariantKey) (span : Span)
  /-- A function call. -/
  | call (callee : Identifier) (args : List CallArgument) (span : Span)

/-- A pattern under a key. -/
structure Variant where
  key : VariantKey
  value : Pattern
  isDefault : Bool
  span : Span

/-- An argument of a call, with or without a name. -/
inductive CallArgument
  | positional (value : Expression)
  | named (name : Identifier) (value : Expression) (span : Span)

end

/-- Where the element stands, with its braces if it is a placeable. -/
def PatternElement.span : PatternElement → Span
  | .text _ span => span
  | .placeable _ span => span

/-- Where the expression stands; a bare reference stands where its name does. -/
def Expression.span : Expression → Span
  | .stringLiteral _ span => span
  | .numberLiteral _ span => span
  | .messageReference id => id.span
  | .variableReference _ span => span
  | .select _ _ _ span => span
  | .attribute _ _ span => span
  | .variant _ _ span => span
  | .call _ _ span => span

/-- The text of a pattern that is a single piece of text. -/
def Pattern.simpleText? (pattern : Pattern) : Option String :=
  match pattern.elements with
  | [.text value _] => some value
  | _ => none

/-- The default variant of a choice, if its index is in range. -/
def Expression.defaultVariant? : Expression → Option Variant
  | .select _ variants defaultIndex _ => variants[defaultIndex]?
  | _ => none

/-! ### Entries -/

/-- A pattern under a name, below a message or a term. -/
structure Attribute where
  id : Identifier
  value : Pattern
  span : Span

/-- A message or a term. -/
structure Message where
  id : Identifier
  value : Option Pattern
  attributes : List Attribute
  comment : Option Comment
  span : Span

namespace Message

variable (message : Message)

/-- Whether the identifier is that of a term. -/
def isTerm : Bool := message.id.isTerm

/-- Where the first attribute of a name stands. -/
def attributeIndex? (name : String) : Option Nat :=
  message.attributes.findIdx? (·.id.name == name)

/-- The first attribute of a name. -/
def attribute? (name : String) : Option Attribute :=
  message.attributes.find? (·.id.name == name)

/-- The message with a comment in front of it. -/
def withComment (comment : Comment) : Message :=
  { message with comment := some comment, span := ⟨comment.span.start, message.span.stop⟩ }

end Message

/-- A complaint about a source: what it is, in code and in words, and where. -/
structure Diagnostic where
  code : String
  args : List String
  message : String
  span : Span
  deriving DecidableEq

/-- The raw text of an entry that could not be read. -/
structure Junk where
  content : String
  diagnostics : List Diagnostic
  span : Span
  deriving DecidableEq

/-- An entry of a resource. -/
inductive Entry
  | message (message : Message)
  | term (message : Message)
  | comment (level : CommentLevel) (comment : Comment)
  | junk (junk : Junk)

/-- The span of an entry, the comment attached to it included. -/
def Entry.span : Entry → Span
  | .message m => m.span
  | .term m => m.span
  | .comment _ c => c.span
  | .junk j => j.span

/-- Everything that a source holds. -/
structure Resource where
  body : List Entry
  span : Span

namespace Resource

variable (resource : Resource)

/-- The entries that could not be read. -/
def junk : List Junk :=
  resource.body.filterMap fun
    | .junk j => some j
    | _ => none

/-- Whether an entry could not be read. -/
def hasJunk : Bool := !resource.junk.isEmpty

/-- The complaints about the source, in its order. -/
def diagnostics : List Diagnostic := resource.junk.flatMap (·.diagnostics)

end Resource

end Localization
