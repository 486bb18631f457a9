import Localization.Bindings
import Localization.Format.Error
import Localization.Value.Basic

/-!
# Functions

A function gets its arguments as values, the named ones in a table, and returns a value or fails.
Two functions are built in: `NUMBER` sets bounds for the fraction digits of a number, and
`DATETIME` passes a date on.

## Main definitions

* `CallFunction` — functions that a message can call
* `Builtin.number`, `Builtin.dateTime` — the built-in ones
* `Builtin.ofName?` — the built-in function of a name
-/

namespace Localization

/-- A function that a message can call. -/
abbrev CallFunction := List Value → Bindings Value → Except ResolveError Value

namespace Builtin

/-- The only argument of a function. -/
def onlyArgument (function : String) : List Value → Except ResolveError Value
  | [argument] => .ok argument
  | arguments =>
    .error (.invalidArgument function
      ("expected 1 argument, found " ++ toString arguments.length))

/-- A bound for the fraction digits: an integer up to the limit. -/
def digitsBound (named : Bindings Value) (name : String) : Except ResolveError (Option Nat) :=
  let invalid : Except ResolveError (Option Nat) :=
    .error (.invalidArgument "NUMBER"
      (name ++ " must be an integer from 0 to " ++ toString FractionDigits.limit))
  match named.get? name with
  | none => .ok none
  | some (.number n) =>
    let digits := n.raw.toList
    if Number.isDigits digits && Number.digitsValue digits ≤ FractionDigits.limit then
      .ok (some (Number.digitsValue digits))
    else invalid
  | some _ => invalid

/-- The number with the bounds that the named arguments set, if they set any. -/
def bounded (n : Number) (named : Bindings Value) : Except ResolveError Value := do
  let minimum ← digitsBound named "minimumFractionDigits"
  let maximum ← digitsBound named "maximumFractionDigits"
  if minimum.isNone && maximum.isNone then return .number n
  return .number (n.withBounds ⟨minimum, maximum⟩)

/-- A number, or a text that reads as one, with bounds for its fraction digits. -/
def number : CallFunction := fun positional named => do
  match ← onlyArgument "NUMBER" positional with
  | .none name => return .none name
  | .number n => bounded n named
  | .string text =>
    match Number.parse? text with
    | some n => bounded n named
    | none => throw (.invalidArgument "NUMBER" ("\"" ++ text ++ "\" is not a number"))
  | other => throw (.invalidArgument "NUMBER" ("expected a number, found " ++ other.typeName))

/-- A date as it is. -/
def dateTime : CallFunction := fun positional _ => do
  match ← onlyArgument "DATETIME" positional with
  | .dateTime t => return .dateTime t
  | .none name => return .none name
  | other => throw (.invalidArgument "DATETIME" ("expected a datetime, found " ++ other.typeName))

/-- The built-in function of a name. -/
def ofName? (name : String) : Option CallFunction :=
  if name = "NUMBER" then some number
  else if name = "DATETIME" then some dateTime
  else none

end Builtin

end Localization
