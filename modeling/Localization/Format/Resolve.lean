import Localization.Format.Store

/-!
# Resolving patterns

Formatting a pattern resolves its placeables to values and joins what they show. Whatever goes
wrong is recorded, and a value without content takes the place of what is missing, so there is
always a text.

While a pattern is being resolved its site counts as visited. A pattern that is met again on the
way is cyclic and has no value. Patterns of a single text refer to nothing and are not tracked.

Every pattern that is entered adds a site to those visited, so patterns never nest deeper than
there are patterns. That number is the room that formatting starts with; without room left every
pattern has been visited, and a further one is cyclic.

## Main definitions

* `Scope`, `Resolver` — the sites visited and the errors so far, and computations over them
* `Resolver.expression`, `Resolver.pattern` — the values of expressions and patterns
* `Environment.formatPattern`, `Environment.formatMessage` — the texts they are shown as
-/

namespace Localization

/-- The sites of the patterns that are being resolved, the innermost first, and the errors so
far. -/
structure Scope where
  visiting : List Site
  errors : List ResolveError

/-- The scope that formatting starts with. -/
def Scope.empty : Scope := ⟨[], []⟩

/-- A computation that records errors. -/
abbrev Resolver := StateM Scope

namespace Resolver

/-- Records an error. -/
def report (error : ResolveError) : Resolver Unit :=
  modify fun scope => { scope with errors := scope.errors ++ [error] }

/-- How the pattern at a site is resolved. -/
abbrev Enter := Pattern → Site → Resolver Value

variable (env : Environment) (enter : Enter)

/-! ### References -/

/-- The message or term of an identifier. -/
def lookup (id : Identifier) : Resolver (Option (Message × Root)) := do
  let (found, root, missing) :=
    if id.isTerm then
      (env.store.terms.get? id.name, Root.term id.name, ResolveError.unknownTerm id.name)
    else
      (env.store.messages.get? id.name, Root.message id.name, ResolveError.unknownMessage id.name)
  match found with
  | some message => return some (message, root)
  | none =>
    report missing
    return none

/-- The value of a message. -/
def messageValue (message : Message) (root : Root) : Resolver Value := do
  match message.value with
  | some pattern => enter pattern (.value root)
  | none =>
    report (.noValue message.id.name)
    return .none message.id.name

/-- The value of a message or term by its identifier. -/
def messageReference (id : Identifier) : Resolver Value := do
  match ← lookup env id with
  | some (message, root) => messageValue enter message root
  | none => return .none id.name

/-- The value of an attribute; the value of its message if there is none of that name. -/
def attributeReference (id name : Identifier) : Resolver Value := do
  match ← lookup env id with
  | none => return .none id.name
  | some (message, root) =>
    match message.attributeIndex? name.name, message.attribute? name.name with
    | some index, some found => enter found.value (.attributeAt root index)
    | _, _ =>
      report (.unknownAttribute name.name)
      messageValue enter message root

/-- A variant key as a value: a number, or a symbol. -/
def keyValue : VariantKey → Value
  | .name words _ => .symbol words
  | .number digits _ => .ofNumberText digits

/-- The first variant whose key selects a value, with its index. -/
def selectVariant? (variants : List Variant) (value : Value) : Option (Variant × Nat) :=
  variants.zipIdx.find? fun (variant, _) => (keyValue variant.key).selects env.locale value

/-- The variants of a message whose value is a bare list of variants. -/
def variantList? (message : Message) : Option (List Variant) :=
  match message.value with
  | some ⟨[.placeable (.select none variants _ _) _], _⟩ => some variants
  | _ => none

/-- The value of a variant of a term; the value of the term if no variant has the key. -/
def variantReference (term : Identifier) (key : VariantKey) : Resolver Value := do
  match ← lookup env term with
  | none => return .none term.name
  | some (message, root) =>
    match (variantList? message).bind (selectVariant? env · (keyValue key)) with
    | some (variant, index) => enter variant.value (((Site.value root).part 0).variant index)
    | none =>
      report (.unknownVariant key.text)
      messageValue enter message root

/-- The value that the caller binds to a variable. -/
def variableReference (name : String) : Resolver Value := do
  match env.args.bind (·.get? name) with
  | none =>
    report (.unknownVariable name)
    return .none name
  | some argument =>
    match argument.toValue? with
    | some value => return value
    | none =>
      report (.unsupportedVariable name argument.typeName)
      return .none name

/-! ### Choices and calls -/

/-- The default variant of a choice. -/
def defaultVariant (variants : List Variant) (defaultIndex : Nat) (site : Site) :
    Resolver Value := do
  match variants[defaultIndex]? with
  | some variant => enter variant.value (site.variant defaultIndex)
  | none =>
    report .missingDefault
    return .none none

/-- The variant that a selector selects. Without a selector, or if it has no value or selects
nothing, it is the default one. -/
def choose (selector : Option Value) (variants : List Variant) (defaultIndex : Nat)
    (site : Site) : Resolver Value :=
  match selector.filter (!·.isNone) |>.bind (selectVariant? env variants) with
  | some (variant, index) => enter variant.value (site.variant index)
  | none => defaultVariant enter variants defaultIndex site

/-- What is shown in place of a call that fails. -/
def callFallback (name : String) : Value := .none (name ++ "()")

/-- The value of a function at arguments. -/
def apply (name : String) (function : CallFunction) (positional : List Value)
    (named : Bindings Value) : Resolver Value := do
  match function positional named with
  | .ok value => return value
  | .error error =>
    report error
    return callFallback name

mutual

/-- The value of an expression at a site. -/
def expression : Expression → Site → Resolver Value
  | .stringLiteral text _, _ => return .string text
  | .numberLiteral text _, _ => return .ofNumberText text
  | .messageReference id, _ => messageReference env enter id
  | .variableReference id _, _ => variableReference env id.name
  | .select selector variants defaultIndex _, site => do
    let selected ← selectorValue selector site.selector
    choose env enter selected variants defaultIndex site
  | .attribute id name _, _ => attributeReference env enter id name
  | .variant term key _, _ => variantReference env enter term key
  | .call callee args _, site => do
    match env.function? callee.name with
    | none =>
      report (.unknownFunction callee.name)
      return callFallback callee.name
    | some function =>
      let (positional, named) ← arguments args site 0 ([], .empty)
      apply callee.name function positional named

/-- The value of a selector. -/
def selectorValue : Option Expression → Site → Resolver (Option Value)
  | none, _ => return none
  | some selector, site => return some (← expression selector site)

/-- The values of call arguments from an index on, behind those of the arguments before. -/
def arguments : List CallArgument → Site → Nat → List Value × Bindings Value →
    Resolver (List Value × Bindings Value)
  | [], _, _, before => return before
  | argument :: rest, site, index, before => do
    arguments rest site (index + 1) (← argumentValue argument (site.part index) before)

/-- The value of a call argument behind those of the arguments before. -/
def argumentValue : CallArgument → Site → List Value × Bindings Value →
    Resolver (List Value × Bindings Value)
  | .positional value, site, (positional, named) => do
    return (positional ++ [← expression value site], named)
  | .named name value _, site, (positional, named) => do
    return (positional, named.set name.name (← expression value site))

end

/-! ### Patterns -/

/-- The mark in front of an isolated placeable. -/
def isolateStart : Char := '\u2068'

/-- The mark behind an isolated placeable. -/
def isolateEnd : Char := '\u2069'

/-- A text, cut to the most characters that are shown. -/
def cut (text : List Char) : Resolver (List Char) := do
  let limit := env.options.maxLength
  if limit < text.length then report (.tooLong text.length limit)
  return text.take limit

/-- A text between isolation marks, if it is isolated. -/
def isolate (isolated : Bool) (text : List Char) : List Char :=
  if isolated then isolateStart :: text ++ [isolateEnd] else text

/-- The texts of the elements of a pattern, from an index on. -/
def elements (isolated : Bool) (site : Site) : List PatternElement → Nat → Resolver (List Char)
  | [], _ => return []
  | .text text _ :: rest, index => do
    return text.toList ++ (← elements isolated site rest (index + 1))
  | .placeable content _ :: rest, index => do
    let value ← expression env enter content (site.part index)
    let shown ← cut env value.format.toList
    return isolate isolated shown ++ (← elements isolated site rest (index + 1))

/-- The value of a pattern that counts as visited while its elements are resolved. -/
def visit (pattern : Pattern) (site : Site) : Resolver Value := do
  modify fun scope => { scope with visiting := site :: scope.visiting }
  let isolated := env.options.isolating && decide (1 < pattern.elements.length)
  let text ← elements env enter isolated site pattern.elements 0
  modify fun scope => { scope with visiting := scope.visiting.erase site }
  return .string (String.ofList text)

/-- The value of a pattern that is being resolved already. -/
def cyclic : Resolver Value := do
  report .cyclic
  return .none none

/-- The value of the pattern at a site, with room for a number of nested patterns. -/
def pattern (room : Nat) (content : Pattern) (site : Site) : Resolver Value :=
  match content.simpleText? with
  | some text => return .string text
  | none => do
    if site ∈ (← get).visiting then cyclic
    else
      match room with
      | 0 => cyclic
      | room + 1 => visit env (pattern room) content site

/-- A computation from the empty scope, with the errors that it records. -/
def run {α : Type} (computation : Resolver α) : α × List ResolveError :=
  let (result, scope) := StateT.run computation Scope.empty
  (result, scope.errors)

end Resolver

namespace Environment

variable (env : Environment)

/-- The text of the pattern at a site. -/
def formatPattern (pattern : Pattern) (site : Site) : Resolver String := do
  let room := env.store.patternCount + pattern.patternCount
  return (← Resolver.pattern env room pattern site).format

/-- The text of the value of a message; empty if there is none. -/
def formatMessage (message : Message) (root : Root) : Resolver String := do
  match message.value with
  | some pattern => env.formatPattern pattern (.value root)
  | none =>
    Resolver.report (.noValue message.id.name)
    return ""

end Environment

end Localization
