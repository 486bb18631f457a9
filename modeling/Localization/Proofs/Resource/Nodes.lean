import Localization.Proofs.Text.Slices
import Localization.Proofs.Resource.Moves
import Localization.Resource.Tree

/-!
# Nodes and where they stand

Each node of a tree has a span, the spans of the nodes right below it, and for names, numbers and
junk the raw text that it stands for. A node is well placed in a source if its span can be cut out
of the source, if the spans below it lie within it one after the other, and if the raw text is what
is cut out.

## Main definitions

* `Node`, `Node.WellPlaced` — the nodes of a tree, and what is asked of their spans
* `Resource.nodes` — the nodes of a resource
* `Piece` — a text that stands at an offset of a source and can be cut out of it
-/

namespace Localization

open Text (IsCut Joins byteLength)

variable {source text rest first second third : List Char} {start : Nat}

/-! ### Nodes -/

/-- Spans that lie one after the other between two offsets. -/
def InOrder (start : Nat) : List Span → Nat → Prop
  | [], stop => start ≤ stop
  | span :: rest, stop => start ≤ span.start ∧ span.start ≤ span.stop ∧ InOrder span.stop rest stop

/-- A node: its span, the spans of the nodes right below it, and the raw text that it stands for, if
any. -/
structure Node where
  span : Span
  children : List Span
  raw : Option String

/-- The span of a node can be cut out of the source, the nodes below it follow one another within
it, and its raw text is what is cut out. -/
structure Node.WellPlaced (source : List Char) (node : Node) : Prop where
  start : IsCut source node.span.start
  stop : IsCut source node.span.stop
  children : InOrder node.span.start node.children node.span.stop
  raw : ∀ text ∈ node.raw,
    Text.slice? source node.span.start node.span.stop = some text.toList

/-- The node of a name, which stands for the name itself. -/
def Identifier.node (id : Identifier) : Node := ⟨id.span, [], some id.name⟩

/-- The node of a key, which stands for the key as it is written. -/
def VariantKey.node (key : VariantKey) : Node := ⟨key.span, [], some key.text⟩

/-- The node of a comment; its content leaves out the markers, so it has no raw text. -/
def Comment.node (comment : Comment) : Node := ⟨comment.span, [], none⟩

/-- The node of an annotation of junk. -/
def Diagnostic.node (diagnostic : Diagnostic) : Node := ⟨diagnostic.span, [], none⟩

/-- The span of an argument, with its name if it has one. -/
def CallArgument.span : CallArgument → Span
  | .positional value => value.span
  | .named _ _ span => span

mutual

/-- The nodes of a pattern. -/
def Pattern.nodes : Pattern → List Node
  | ⟨elements, span⟩ => ⟨span, elements.map PatternElement.span, none⟩ :: elementsNodes elements

/-- The nodes of the elements of a pattern, in their order. -/
def elementsNodes : List PatternElement → List Node
  | [] => []
  | element :: rest => element.nodes ++ elementsNodes rest

/-- The nodes of an element; a text has no raw text, since escapes are applied to it. -/
def PatternElement.nodes : PatternElement → List Node
  | .text _ span => [⟨span, [], none⟩]
  | .placeable expression span => ⟨span, [expression.span], none⟩ :: expression.nodes

/-- The nodes of an expression. -/
def Expression.nodes : Expression → List Node
  | .stringLiteral _ span => [⟨span, [], none⟩]
  | .numberLiteral value span => [⟨span, [], some value⟩]
  | .messageReference id => [id.node]
  | .variableReference id span => [⟨span, [id.span], none⟩, id.node]
  | .select selector variants _ span =>
    ⟨span, (selector.map Expression.span).toList ++ variants.map Variant.span, none⟩ ::
      (selectorNodes selector ++ variantsNodes variants)
  | .attribute id name span => [⟨span, [id.span, name.span], none⟩, id.node, name.node]
  | .variant term key span => [⟨span, [term.span, key.span], none⟩, term.node, key.node]
  | .call callee args span =>
    ⟨span, callee.span :: args.map CallArgument.span, none⟩ :: callee.node :: argumentsNodes args

/-- The nodes of the selector, if there is one. -/
def selectorNodes : Option Expression → List Node
  | none => []
  | some expression => expression.nodes

/-- The nodes of the variants of a choice, in their order. -/
def variantsNodes : List Variant → List Node
  | [] => []
  | variant :: rest => variant.nodes ++ variantsNodes rest

/-- The nodes of a variant. -/
def Variant.nodes : Variant → List Node
  | ⟨key, value, _, span⟩ => ⟨span, [key.span, value.span], none⟩ :: key.node :: value.nodes

/-- The nodes of the arguments of a call, in their order. -/
def argumentsNodes : List CallArgument → List Node
  | [] => []
  | argument :: rest => argument.nodes ++ argumentsNodes rest

/-- The nodes of an argument of a call; a positional one is the expression itself. -/
def CallArgument.nodes : CallArgument → List Node
  | .positional value => value.nodes
  | .named name value span => ⟨span, [name.span, value.span], none⟩ :: name.node :: value.nodes

end

/-- The nodes of an attribute. -/
def Attribute.nodes (named : Attribute) : List Node :=
  ⟨named.span, [named.id.span, named.value.span], none⟩ :: named.id.node :: named.value.nodes

/-- The nodes of a message or a term with the comment attached to it. -/
def Message.nodes (message : Message) : List Node :=
  ⟨message.span,
      (message.comment.map Comment.span).toList ++ message.id.span ::
        ((message.value.map Pattern.span).toList ++ message.attributes.map Attribute.span),
      none⟩ ::
    ((message.comment.map Comment.node).toList ++ message.id.node ::
      ((message.value.map Pattern.nodes).getD [] ++ message.attributes.flatMap Attribute.nodes))

/-- The nodes of junk. -/
def Junk.nodes (junk : Junk) : List Node :=
  ⟨junk.span, junk.diagnostics.map Diagnostic.span, some junk.content⟩ ::
    junk.diagnostics.map Diagnostic.node

/-- The nodes of an entry. -/
def Entry.nodes : Entry → List Node
  | .message m => m.nodes
  | .term m => m.nodes
  | .comment _ c => [c.node]
  | .junk j => j.nodes

/-- The nodes of a resource. -/
def Resource.nodes (resource : Resource) : List Node :=
  ⟨resource.span, resource.body.map Entry.span, none⟩ :: resource.body.flatMap Entry.nodes

/-- All nodes of a resource are well placed in its source. -/
def Resource.WellPlaced (resource : Resource) (source : List Char) : Prop :=
  ∀ node ∈ resource.nodes, node.WellPlaced source

/-! ### Spans in order -/

namespace InOrder

variable {stop : Nat} {spans spans' : List Span}

theorem le (h : InOrder start spans stop) : start ≤ stop := by
  induction spans generalizing start with
  | nil => exact h
  | cons span rest ih => exact h.1.trans (h.2.1.trans (ih h.2.2))

theorem mono_left {start' : Nat} (h : InOrder start spans stop) (hle : start' ≤ start) :
    InOrder start' spans stop := by
  cases spans with
  | nil => exact Nat.le_trans hle h
  | cons span rest => exact ⟨Nat.le_trans hle h.1, h.2⟩

theorem mono_right {stop' : Nat} (h : InOrder start spans stop) (hle : stop ≤ stop') :
    InOrder start spans stop' := by
  induction spans generalizing start with
  | nil => exact Nat.le_trans h hle
  | cons span rest ih => exact ⟨h.1, h.2.1, ih h.2.2⟩

theorem append {between : Nat} (h : InOrder start spans between)
    (h' : InOrder between spans' stop) : InOrder start (spans ++ spans') stop := by
  induction spans generalizing start with
  | nil => exact h'.mono_left h
  | cons span rest ih => exact ⟨h.1, h.2.1, ih h.2.2⟩

/-- A span in front of others. -/
theorem cons {span : Span} (hstart : start ≤ span.start) (hspan : span.start ≤ span.stop)
    (h : InOrder span.stop spans stop) : InOrder start (span :: spans) stop := ⟨hstart, hspan, h⟩

/-- The span of a text in front of others. -/
theorem cons_spanOf {offset : Nat} (hstart : start ≤ offset)
    (h : InOrder (offset + byteLength text) spans stop) :
    InOrder start (spanOf offset text :: spans) stop := ⟨hstart, Nat.le_add_right _ _, h⟩

end InOrder

/-- The span of a node lies within the source. -/
theorem Node.WellPlaced.le {node : Node} (h : node.WellPlaced source) :
    node.span.start ≤ node.span.stop ∧ node.span.stop ≤ byteLength source :=
  ⟨h.children.le, h.stop.le⟩

/-! ### Pieces of a source -/

/-- A text that stands at an offset of a source and can be cut out of it. -/
structure Piece (source : List Char) (start : Nat) (text : List Char) : Prop where
  stands : ∃ before after, source = before ++ (text ++ after) ∧ byteLength before = start
  left : IsCut source start
  right : IsCut source (start + byteLength text)

namespace Piece

theorem slice? (h : Piece source start text) :
    Text.slice? source start (start + byteLength text) = some text := by
  obtain ⟨before, after, rfl, rfl⟩ := h.stands
  exact Text.slice?_append before text after

/-- A piece is cut where no line break is torn apart. -/
theorem isCut (h : Piece source start (first ++ second)) (hjoins : ¬Joins first second) :
    IsCut source (start + byteLength first) := by
  by_cases hfirst : first = []
  · rw [hfirst]
    exact h.left
  by_cases hsecond : second = []
  · have hright := h.right
    rwa [hsecond, List.append_nil] at hright
  obtain ⟨before, after, rfl, rfl⟩ := h.stands
  refine ⟨before ++ first, second ++ after, by simp, Text.byteLength_append _ _, ?_⟩
  rwa [Joins, List.getLast?_append_of_ne_nil _ hfirst, List.head?_append_of_ne_nil _ hsecond]

theorem fst (h : Piece source start (first ++ second)) (hjoins : ¬Joins first second) :
    Piece source start first := by
  obtain ⟨before, after, hsource, hbefore⟩ := h.stands
  exact ⟨⟨before, second ++ after, by rw [hsource, List.append_assoc], hbefore⟩, h.left,
    h.isCut hjoins⟩

theorem snd (h : Piece source start (first ++ second)) (hjoins : ¬Joins first second) :
    Piece source (start + byteLength first) second := by
  obtain ⟨before, after, hsource, hbefore⟩ := h.stands
  refine ⟨⟨before ++ first, after, by rw [hsource]; simp, ?_⟩, h.isCut hjoins, ?_⟩
  · rw [Text.byteLength_append, hbefore]
  · have hright := h.right
    rwa [Text.byteLength_append, ← Nat.add_assoc] at hright

theorem mid (h : Piece source start (first ++ (second ++ third)))
    (hjoins : ¬Joins first (second ++ third)) (hjoins' : ¬Joins second third) :
    Piece source (start + byteLength first) second := (h.snd hjoins).fst hjoins'

/-- A node without nodes below it that stands for a piece. -/
theorem leaf (h : Piece source start text) : Node.WellPlaced source ⟨spanOf start text, [], none⟩ :=
  ⟨h.left, h.right, Nat.le_add_right _ _, fun _ hraw => by cases hraw⟩

/-- A node that stands for the raw text of a piece. -/
theorem rawLeaf (h : Piece source start text) :
    Node.WellPlaced source ⟨spanOf start text, [], some (String.ofList text)⟩ := by
  refine ⟨h.left, h.right, Nat.le_add_right _ _, fun raw hraw => ?_⟩
  cases hraw
  rw [String.toList_ofList]
  exact h.slice?

/-- A node for a piece, above others. -/
theorem inner (h : Piece source start text) {spans : List Span}
    (hspans : InOrder start spans (start + byteLength text)) :
    Node.WellPlaced source ⟨spanOf start text, spans, none⟩ :=
  ⟨h.left, h.right, hspans, fun _ hraw => by cases hraw⟩

end Piece

end Localization
