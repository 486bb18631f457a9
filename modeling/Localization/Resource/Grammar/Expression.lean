import Localization.Resource.Grammar.Literal

/-!
# Expressions

What can stand in a placeable: a literal, a reference, a call, or a choice between variants. A
choice holds patterns, which hold placeables in turn, so its parser is given the one for patterns; a
call is given the one for its arguments.

```
selector  = literal / reference ("." identifier)? / "-" identifier "[" variantKey "]"
          / callee "(" (argument ("," argument)*)? ")"
argument  = selector / identifier ":" (quoted / number)
placeable = selector / (selector "->")? variant+
variant   = line break, indentation, "*"? "[" variantKey "]" pattern
```

## Main definitions

* `Parser.selectorExpression` — an expression without variants
* `Parser.variants` — the variants of a choice and the index of the default
* `Parser.placeableExpression` — what stands between the braces of a placeable
-/

namespace Localization.Parser

/-! ### Selectors -/

/-- A quoted text as an expression. -/
def stringLiteral : Parser Expression := do
  let (value, span) ← quoted
  return .stringLiteral value span

/-- A number as an expression. -/
def numberLiteral : Parser Expression := do
  let (value, span) ← number
  return .numberLiteral value span

/-- A variable behind its `$`. -/
def variableReference : Parser Expression := do
  let start ← offset
  modify Cursor.next
  let id ← identifier
  return .variableReference id ⟨start, id.span.stop⟩

/-- A quoted text, a number, a variable, or the identifier of a message or term. -/
def literal [Lookahead] : Parser Expression := do
  match ← current with
  | some '$' => variableReference
  | some '"' => stringLiteral
  | none => fail .missingLiteral []
  | some ch =>
    if ← ask Cursor.isNumberStart then numberLiteral
    else if ch = '-' || isIdentifierStart ch then return .messageReference (← entryIdentifier)
    else fail .missingLiteral []

/-- The value of a named argument. -/
def argumentValue [Lookahead] : Parser Expression := do
  match ← current with
  | some '"' => stringLiteral
  | none => fail .missingValue []
  | some _ => if ← ask Cursor.isNumberStart then numberLiteral else fail .missingValue []

/-- A named argument, from the `:` behind its name. -/
def namedArgument [Lookahead] (name : Identifier) : Parser CallArgument := do
  modify Cursor.next
  skipInlineBlanks
  let value ← argumentValue
  return .named name value (name.span.merge value.span)

/-- An argument of a call. -/
def callArgument [Lookahead] (selector : Parser Expression) : Parser CallArgument := do
  let expression ← selector
  skipInlineBlanks
  if (← current) = some ':' then
    match expression with
    | .messageReference id =>
      if id.isTerm then fail .forbiddenArgumentName [] else namedArgument id
    | _ => fail .forbiddenArgumentName []
  else return .positional expression

/-- The name of a named argument. -/
def argumentName? : CallArgument → Option String
  | .positional _ => none
  | .named name _ _ => some name.name

/-- What an argument must not do behind the given ones: repeat a name, or be positional behind a
named one. -/
def argumentError? (before : List CallArgument) (argument : CallArgument) : Option ErrorCode :=
  let names := before.filterMap argumentName?
  match argumentName? argument with
  | some name => if name ∈ names then some .duplicateArgument else none
  | none => if names.isEmpty then none else some .positionalAfterNamed

/-- Reads an argument and the comma behind it, or the end of the arguments. -/
def callArgumentRound (argument : Parser CallArgument) (before : List CallArgument) :
    Parser (Round (List CallArgument) (List CallArgument)) := do
  if (← current) = some ')' then return .done before.reverse
  let argument ← argument
  if let some code := argumentError? before argument then fail code []
  skipInlineBlanks
  if (← current) = some ',' then
    modify Cursor.next
    skipInlineBlanks
    return .again (argument :: before)
  else return .done (argument :: before).reverse

/-- The arguments of a call up to its closing parenthesis. -/
def callArguments (argument : Parser CallArgument) : Parser (List CallArgument) := do
  skipInlineBlanks
  rounds (callArgumentRound argument) []

/-- What follows the identifier of a message or term: an attribute, a variant, the arguments of a
call, or nothing. -/
def referenceTail (argument : Parser CallArgument) (id : Identifier) : Parser Expression := do
  match ← current with
  | some '.' =>
    modify Cursor.next
    let name ← identifier
    return .attribute id name (id.span.merge name.span)
  | some '[' =>
    if !id.isTerm then fail .messageVariant []
    modify Cursor.next
    skipInlineBlanks
    let key ← variantKey
    skipInlineBlanks
    expectChar ']'
    return .variant id key (← spanFrom id.span.start)
  | some '(' =>
    if !isCalleeName id.name then fail .forbiddenCallee []
    modify Cursor.next
    let args ← callArguments argument
    expectChar ')'
    return .call id args (← spanFrom id.span.start)
  | _ => return .messageReference id

/-- A selector whose arguments are read by the given parser. -/
def selectorBody [Lookahead] (argument : Parser CallArgument) : Parser Expression := do
  match ← literal with
  | .messageReference id => referenceTail argument id
  | expression => return expression

/-- An expression without variants. -/
def selectorExpression [Lookahead] : Parser Expression :=
  nested fun selector => selectorBody (callArgument selector)

/-! ### Choices -/

/-- A variant, from its key on. -/
def variant [Lookahead] (pattern : Parser Pattern) (hasDefault : Bool) : Parser Variant := do
  let start ← offset
  let isDefault := (← current) = some '*'
  if isDefault then
    if hasDefault then fail .secondDefault []
    modify Cursor.next
  expectChar '['
  skipInlineBlanks
  let key ← variantKey
  skipInlineBlanks
  expectChar ']'
  if !(← ask Cursor.isValueStart) then fail .missingValue []
  skipIndent
  let value ← pattern
  return ⟨key, value, isDefault, ⟨start, value.span.stop⟩⟩

/-- Reads a variant on a line of its own; done when no other follows. The state holds the variants
so far, the last one first, and the index of the default. -/
def variantRound [Lookahead] (pattern : Parser Pattern) (state : List Variant × Option Nat) :
    Parser (Round (List Variant × Option Nat) (List Variant × Nat)) := do
  let (before, default?) := state
  expectIndent
  let next ← variant pattern default?.isSome
  let default? := if next.isDefault then some before.length else default?
  if ← ask Cursor.isNextLineVariant then return .again (next :: before, default?)
  match default? with
  | some index => return .done ((next :: before).reverse, index)
  | none => fail .missingDefault []

/-- One or more variants and the index of the default. -/
def variants [Lookahead] (pattern : Parser Pattern) : Parser (List Variant × Nat) :=
  rounds (variantRound pattern) ([], none)

/-- A choice whose span starts at the given offset. -/
def choice [Lookahead] (pattern : Parser Pattern) (selector : Option Expression) (start : Nat) :
    Parser Expression := do
  let (variants, defaultIndex) ← variants pattern
  skipIndent
  return .select selector variants defaultIndex (← spanFrom start)

/-- Why an expression cannot select a variant. -/
def selectorError? : Expression → Option ErrorCode
  | .messageReference id => if id.isTerm then none else some .messageSelector
  | .variant _ _ _ => some .variantSelector
  | .attribute id _ _ => if id.isTerm then none else some .attributeSelector
  | _ => none

/-- Whether an expression is an attribute of a term, which cannot stand in a placeable. -/
def isTermAttribute : Expression → Bool
  | .attribute id _ _ => id.isTerm
  | _ => false

/-- What stands between the braces of a placeable. -/
def placeableExpression [Lookahead] (pattern : Parser Pattern) : Parser Expression := do
  let start ← offset
  if ← ask Cursor.isNextLineVariant then return ← choice pattern none start
  skipInlineBlanks
  let selector ← selectorExpression
  skipInlineBlanks
  if ← ask Cursor.isArrow then
    if let some code := selectorError? selector then fail code []
    modify (·.next.next)
    skipInlineBlanks
    if !(← ask Cursor.isNextLineVariant) then fail .missingVariants []
    choice pattern (some selector) selector.span.start
  else
    modify Cursor.resetPeek
    if isTermAttribute selector then fail .termAttributePlaced []
    return selector

end Localization.Parser
