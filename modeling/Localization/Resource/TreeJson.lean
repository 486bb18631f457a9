import Localization.Json
import Localization.Resource.Tree

/-!
# Trees in JSON

A node is an object whose members are its parts, the span among them. Where a node has several
forms, the member `type` names the form; the two forms of a call argument are told apart by the
only member of the object instead. A part that is absent is written as `null`.

## Main definitions

* `Resource.toJson`, `Message.toJson`, `Pattern.toJson` and their like — a tree as JSON
* `Resource.ofJson?`, `Message.ofJson?`, `Pattern.ofJson?` and their like — the tree of a JSON
  value
-/

namespace Localization

/-! ### Writing -/

/-- A value that may be absent. -/
def Json.ofOption {α : Type} (write : α → Json) : Option α → Json
  | none => .null
  | some value => write value

/-- A span as JSON. -/
def Span.toJson (span : Span) : Json :=
  .object [("start", .number span.start), ("end", .number span.stop)]

/-- An identifier as JSON. -/
def Identifier.toJson (id : Identifier) : Json :=
  .object [("name", .string id.name), ("span", id.span.toJson)]

/-- A comment as JSON. -/
def Comment.toJson (comment : Comment) : Json :=
  .object [("content", .string comment.content), ("span", comment.span.toJson)]

/-- A variant key as JSON. -/
def VariantKey.toJson : VariantKey → Json
  | .name words span =>
    .object [("type", .string "Name"), ("name", .string words), ("span", span.toJson)]
  | .number digits span =>
    .object [("type", .string "Number"), ("value", .string digits), ("span", span.toJson)]

mutual

/-- A pattern as JSON. -/
def Pattern.toJson : Pattern → Json
  | ⟨elements, span⟩ =>
    .object [("elements", .array (elementsToJson elements)), ("span", span.toJson)]

/-- Pattern elements as JSON. -/
def elementsToJson : List PatternElement → List Json
  | [] => []
  | element :: rest => element.toJson :: elementsToJson rest

/-- A pattern element as JSON. -/
def PatternElement.toJson : PatternElement → Json
  | .text value span =>
    .object [("type", .string "Text"), ("value", .string value), ("span", span.toJson)]
  | .placeable expression span =>
    .object [("type", .string "Placeable"), ("expression", expression.toJson),
      ("span", span.toJson)]

/-- An expression as JSON. -/
def Expression.toJson : Expression → Json
  | .stringLiteral value span =>
    .object [("type", .string "StringLiteral"), ("value", .string value), ("span", span.toJson)]
  | .numberLiteral value span =>
    .object [("type", .string "NumberLiteral"), ("value", .string value), ("span", span.toJson)]
  | .messageReference id =>
    .object [("type", .string "MessageReference"), ("name", .string id.name),
      ("span", id.span.toJson)]
  | .variableReference id span =>
    .object [("type", .string "VariableReference"), ("id", id.toJson), ("span", span.toJson)]
  | .select selector variants defaultIndex span =>
    .object [("type", .string "Select"), ("selector", selectorToJson selector),
      ("variants", .array (variantsToJson variants)), ("default_index", .number defaultIndex),
      ("span", span.toJson)]
  | .attribute id name span =>
    .object [("type", .string "Attribute"), ("id", id.toJson), ("name", name.toJson),
      ("span", span.toJson)]
  | .variant term key span =>
    .object [("type", .string "Variant"), ("reference", term.toJson), ("key", key.toJson),
      ("span", span.toJson)]
  | .call callee args span =>
    .object [("type", .string "Call"), ("callee", callee.toJson),
      ("args", .array (argumentsToJson args)), ("span", span.toJson)]

/-- A selector as JSON. -/
def selectorToJson : Option Expression → Json
  | none => .null
  | some expression => expression.toJson

/-- Variants as JSON. -/
def variantsToJson : List Variant → List Json
  | [] => []
  | variant :: rest => variant.toJson :: variantsToJson rest

/-- A variant as JSON. -/
def Variant.toJson : Variant → Json
  | ⟨key, value, isDefault, span⟩ =>
    .object [("key", key.toJson), ("value", value.toJson), ("is_default", .bool isDefault),
      ("span", span.toJson)]

/-- Call arguments as JSON. -/
def argumentsToJson : List CallArgument → List Json
  | [] => []
  | argument :: rest => argument.toJson :: argumentsToJson rest

/-- A call argument as JSON. -/
def CallArgument.toJson : CallArgument → Json
  | .positional value => .object [("Positional", value.toJson)]
  | .named name value span =>
    .object [("Named", .object [("name", name.toJson), ("value", value.toJson),
      ("span", span.toJson)])]

end

/-- An attribute as JSON. -/
def Attribute.toJson (named : Attribute) : Json :=
  .object [("id", named.id.toJson), ("value", named.value.toJson), ("span", named.span.toJson)]

/-- The parts of a message. -/
def Message.members (message : Message) : List (String × Json) :=
  [("id", message.id.toJson), ("value", .ofOption Pattern.toJson message.value),
    ("attributes", .array (message.attributes.map Attribute.toJson)),
    ("comment", .ofOption Comment.toJson message.comment), ("span", message.span.toJson)]

/-- A message on its own as JSON. -/
def Message.toJson (message : Message) : Json := .object message.members

/-- A diagnostic as JSON. -/
def Diagnostic.toJson (diagnostic : Diagnostic) : Json :=
  .object [("code", .string diagnostic.code), ("args", .array (diagnostic.args.map .string)),
    ("message", .string diagnostic.message), ("span", diagnostic.span.toJson)]

/-- How the form of a comment entry is named. -/
def CommentLevel.typeName : CommentLevel → String
  | plain => "Comment"
  | group => "GroupComment"
  | resource => "ResourceComment"

/-- An entry as JSON. -/
def Entry.toJson : Entry → Json
  | .message m => .object (("type", .string "Message") :: m.members)
  | .term m => .object (("type", .string "Term") :: m.members)
  | .comment level c =>
    .object [("type", .string level.typeName), ("content", .string c.content),
      ("span", c.span.toJson)]
  | .junk j =>
    .object [("type", .string "Junk"), ("content", .string j.content),
      ("annotations", .array (j.diagnostics.map Diagnostic.toJson)), ("span", j.span.toJson)]

/-- A resource as JSON. -/
def Resource.toJson (resource : Resource) : Json :=
  .object [("body", .array (resource.body.map Entry.toJson)), ("span", resource.span.toJson)]

/-! ### Reading -/

/-- The span of a JSON value. -/
def Span.ofJson? (json : Json) : Option Span :=
  return ⟨← json.memberNumber? "start", ← json.memberNumber? "end"⟩

/-- The span that is a member of a node. -/
def Json.memberSpan? (json : Json) : Option Span := do
  Span.ofJson? (← json.member? "span").1

/-- The identifier of a JSON value. -/
def Identifier.ofJson? (json : Json) : Option Identifier :=
  return ⟨← json.memberString? "name", ← json.memberSpan?⟩

/-- The identifier that is the member of a name. -/
def Json.memberIdentifier? (name : String) (json : Json) : Option Identifier := do
  Identifier.ofJson? (← json.member? name).1

/-- The comment of a JSON value. -/
def Comment.ofJson? (json : Json) : Option Comment :=
  return ⟨← json.memberString? "content", ← json.memberSpan?⟩

/-- The variant key of a JSON value. -/
def VariantKey.ofJson? (json : Json) : Option VariantKey := do
  match ← json.memberString? "type" with
  | "Name" => return .name (← json.memberString? "name") (← json.memberSpan?)
  | "Number" => return .number (← json.memberString? "value") (← json.memberSpan?)
  | _ => none

/-- The variant key that is a member of a node. -/
def Json.memberKey? (json : Json) : Option VariantKey := do
  VariantKey.ofJson? (← json.member? "key").1

mutual

/-- The pattern of a JSON value. -/
def Pattern.ofJson? (json : Json) : Option Pattern := do
  let items ← json.memberItems? "elements"
  let elements ← items.mapM fun ⟨item, _⟩ => PatternElement.ofJson? item
  return ⟨elements, ← json.memberSpan?⟩
termination_by sizeOf json
decreasing_by assumption

/-- The pattern element of a JSON value. -/
def PatternElement.ofJson? (json : Json) : Option PatternElement := do
  match ← json.memberString? "type" with
  | "Text" => return .text (← json.memberString? "value") (← json.memberSpan?)
  | "Placeable" =>
    let ⟨part, _⟩ ← json.member? "expression"
    return .placeable (← Expression.ofJson? part) (← json.memberSpan?)
  | _ => none
termination_by sizeOf json
decreasing_by assumption

/-- The expression of a JSON value. -/
def Expression.ofJson? (json : Json) : Option Expression := do
  match ← json.memberString? "type" with
  | "StringLiteral" => return .stringLiteral (← json.memberString? "value") (← json.memberSpan?)
  | "NumberLiteral" => return .numberLiteral (← json.memberString? "value") (← json.memberSpan?)
  | "MessageReference" => return .messageReference (← Identifier.ofJson? json)
  | "VariableReference" =>
    return .variableReference (← json.memberIdentifier? "id") (← json.memberSpan?)
  | "Select" =>
    let selector ← match json.presentMember? "selector" with
      | none => pure none
      | some ⟨part, _⟩ => some <$> Expression.ofJson? part
    let items ← json.memberItems? "variants"
    let variants ← items.mapM fun ⟨item, _⟩ => Variant.ofJson? item
    return .select selector variants (← json.memberNumber? "default_index") (← json.memberSpan?)
  | "Attribute" =>
    return .attribute (← json.memberIdentifier? "id") (← json.memberIdentifier? "name")
      (← json.memberSpan?)
  | "Variant" =>
    return .variant (← json.memberIdentifier? "reference") (← json.memberKey?)
      (← json.memberSpan?)
  | "Call" =>
    let items ← json.memberItems? "args"
    let args ← items.mapM fun ⟨item, _⟩ => CallArgument.ofJson? item
    return .call (← json.memberIdentifier? "callee") args (← json.memberSpan?)
  | _ => none
termination_by sizeOf json
decreasing_by all_goals assumption

/-- The variant of a JSON value. -/
def Variant.ofJson? (json : Json) : Option Variant := do
  let ⟨part, _⟩ ← json.member? "value"
  return ⟨← json.memberKey?, ← Pattern.ofJson? part, ← json.memberBool? "is_default",
    ← json.memberSpan?⟩
termination_by sizeOf json
decreasing_by assumption

/-- The call argument of a JSON value. -/
def CallArgument.ofJson? (json : Json) : Option CallArgument := do
  match json.member? "Positional" with
  | some ⟨part, _⟩ => return .positional (← Expression.ofJson? part)
  | none =>
    let ⟨body, _hb⟩ ← json.member? "Named"
    let ⟨part, _hp⟩ ← body.member? "value"
    return .named (← body.memberIdentifier? "name") (← Expression.ofJson? part)
      (← body.memberSpan?)
termination_by sizeOf json
decreasing_by
  · assumption
  · exact Nat.lt_trans _hp _hb

end

/-- The attribute of a JSON value. -/
def Attribute.ofJson? (json : Json) : Option Attribute :=
  return ⟨← json.memberIdentifier? "id", ← Pattern.ofJson? (← json.member? "value").1,
    ← json.memberSpan?⟩

/-- A part that may be missing or `null`. -/
def Json.memberOption? {α : Type} (name : String) (read : Json → Option α) (json : Json) :
    Option (Option α) :=
  match json.presentMember? name with
  | none => some none
  | some part => some <$> read part.1

/-- The message of a JSON value. -/
def Message.ofJson? (json : Json) : Option Message :=
  return ⟨← json.memberIdentifier? "id", ← json.memberOption? "value" Pattern.ofJson?,
    ← (← json.memberItems? "attributes").mapM (Attribute.ofJson? ·.1),
    ← json.memberOption? "comment" Comment.ofJson?, ← json.memberSpan?⟩

/-- The diagnostic of a JSON value. -/
def Diagnostic.ofJson? (json : Json) : Option Diagnostic :=
  return ⟨← json.memberString? "code", ← (← json.memberItems? "args").mapM (·.1.string?),
    ← json.memberString? "message", ← json.memberSpan?⟩

/-- The junk of a JSON value. -/
def Junk.ofJson? (json : Json) : Option Junk :=
  return ⟨← json.memberString? "content",
    ← (← json.memberItems? "annotations").mapM (Diagnostic.ofJson? ·.1), ← json.memberSpan?⟩

/-- The entry of a JSON value. -/
def Entry.ofJson? (json : Json) : Option Entry := do
  match ← json.memberString? "type" with
  | "Message" => return .message (← Message.ofJson? json)
  | "Term" => return .term (← Message.ofJson? json)
  | "Comment" => return .comment .plain (← Comment.ofJson? json)
  | "GroupComment" => return .comment .group (← Comment.ofJson? json)
  | "ResourceComment" => return .comment .resource (← Comment.ofJson? json)
  | "Junk" => return .junk (← Junk.ofJson? json)
  | _ => none

/-- The resource of a JSON value. -/
def Resource.ofJson? (json : Json) : Option Resource :=
  return ⟨← (← json.memberItems? "body").mapM (Entry.ofJson? ·.1), ← json.memberSpan?⟩

end Localization
