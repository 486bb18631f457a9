import Localization.Format.Builtin
import Localization.Resource.Tree
import Localization.Value.Argument

/-!
# Stores

What a pattern can refer to: messages, terms and functions by name. Messages and terms have
namespaces of their own; the identifier of a term keeps its leading `-`.

A pattern in a store is known by its site: the message or term that holds it, and the way from
there to the pattern. So two patterns of the same text stay apart.

## Main definitions

* `Store` — messages, terms and functions by name
* `Root`, `Site` — where a pattern stands
* `Store.patternCount` — how many patterns a store holds
* `FormatOptions`, `Environment` — what formatting depends on
-/

namespace Localization

/-- Messages, terms and functions by name. -/
structure Store where
  messages : Bindings Message
  terms : Bindings Message
  functions : Bindings CallFunction

namespace Store

/-- The store that holds nothing. -/
def empty : Store := ⟨.empty, .empty, .empty⟩

instance : Inhabited Store := ⟨empty⟩

end Store

/-! ### Sites -/

/-- What holds a pattern: a message or term of the store, or something outside of it. -/
inductive Root
  | message (id : String)
  | term (id : String)
  | loose
  deriving DecidableEq

/-- Where a pattern or an expression stands: what holds it, and which part to take at each step on
the way to it, the last step first. -/
structure Site where
  root : Root
  path : List Nat
  deriving DecidableEq

namespace Site

/-- The value of a message. -/
def value (root : Root) : Site := ⟨root, [0]⟩

/-- The attribute at an index. -/
def attributeAt (root : Root) (index : Nat) : Site := ⟨root, [index + 1]⟩

variable (site : Site)

/-- The part at an index: an element of a pattern, or an argument of a call. -/
def part (index : Nat) : Site := ⟨site.root, index :: site.path⟩

/-- The selector of a choice. -/
def selector : Site := ⟨site.root, 0 :: site.path⟩

/-- The variant at an index of a choice. -/
def variant (index : Nat) : Site := ⟨site.root, (index + 1) :: site.path⟩

end Site

/-! ### Counting patterns -/

mutual

/-- The number of patterns in a pattern, itself included. -/
def Pattern.patternCount : Pattern → Nat
  | ⟨elements, _⟩ => elementsCount elements + 1

/-- The number of patterns in pattern elements. -/
def elementsCount : List PatternElement → Nat
  | [] => 0
  | element :: rest => element.patternCount + elementsCount rest

/-- The number of patterns in a pattern element. -/
def PatternElement.patternCount : PatternElement → Nat
  | .text _ _ => 0
  | .placeable expression _ => expression.patternCount

/-- The number of patterns in an expression. -/
def Expression.patternCount : Expression → Nat
  | .stringLiteral _ _ => 0
  | .numberLiteral _ _ => 0
  | .messageReference _ => 0
  | .variableReference _ _ => 0
  | .select selector variants _ _ => selectorCount selector + variantsCount variants
  | .attribute _ _ _ => 0
  | .variant _ _ _ => 0
  | .call _ args _ => argumentsCount args

/-- The number of patterns in a selector. -/
def selectorCount : Option Expression → Nat
  | none => 0
  | some expression => expression.patternCount

/-- The number of patterns in variants. -/
def variantsCount : List Variant → Nat
  | [] => 0
  | variant :: rest => variant.patternCount + variantsCount rest

/-- The number of patterns in a variant. -/
def Variant.patternCount : Variant → Nat
  | ⟨_, value, _, _⟩ => value.patternCount

/-- The number of patterns in call arguments. -/
def argumentsCount : List CallArgument → Nat
  | [] => 0
  | argument :: rest => argument.patternCount + argumentsCount rest

/-- The number of patterns in a call argument. -/
def CallArgument.patternCount : CallArgument → Nat
  | .positional value => value.patternCount
  | .named _ value _ => value.patternCount

end

/-- The number of patterns in a message. -/
def Message.patternCount (message : Message) : Nat :=
  (message.value.map Pattern.patternCount).getD 0 +
    message.attributes.foldr (fun named count => named.value.patternCount + count) 0

/-- The number of patterns in a store. -/
def Store.patternCount (store : Store) : Nat :=
  let count (messages : Bindings Message) : Nat :=
    messages.entries.foldr (fun entry count => entry.2.patternCount + count) 0
  count store.messages + count store.terms

/-! ### What formatting depends on -/

/-- How placeables are shown. -/
structure FormatOptions where
  /-- Whether placeables next to other elements are wrapped in isolation marks. -/
  isolating : Bool
  /-- The most characters of a placeable that are shown. -/
  maxLength : Nat
  deriving DecidableEq

instance : Inhabited FormatOptions := ⟨⟨true, 2500⟩⟩

/-- What formatting depends on. -/
structure Environment where
  store : Store
  args : Option Arguments
  locale : Locale
  options : FormatOptions

/-- The function of a name; one of the store goes before a built-in one. -/
def Environment.function? (env : Environment) (name : String) : Option CallFunction :=
  (env.store.functions.get? name).or (Builtin.ofName? name)

end Localization
