import Localization.Resource.Tree

/-!
# Errors

Formatting never fails: an error is recorded, and something is shown in place of what is missing.
Errors that arise while a pattern is resolved fall into three classes.

## Main definitions

* `ResolveError` — what can go wrong while a pattern is resolved
* `ErrorClass` — the three classes
* `BundleError` — what a bundle reports
-/

namespace Localization

/-- The class of an error that arises while a pattern is resolved. -/
inductive ErrorClass
  /-- A name is unknown. -/
  | reference
  /-- A value has a shape that cannot be used. -/
  | type
  /-- A bound is hit. -/
  | range
  deriving DecidableEq

/-- What can go wrong while a pattern is resolved. -/
inductive ResolveError
  | unknownMessage (id : String)
  | unknownTerm (id : String)
  | unknownAttribute (name : String)
  | unknownVariant (key : String)
  | unknownVariable (name : String)
  | unknownFunction (name : String)
  /-- A variable is bound to an argument that stands for no value. -/
  | unsupportedVariable (name typeName : String)
  /-- A function cannot use its arguments. -/
  | invalidArgument (function reason : String)
  /-- A message has no value. -/
  | noValue (id : String)
  /-- A choice has no default variant. -/
  | missingDefault
  /-- A pattern refers to itself. -/
  | cyclic
  /-- A placeable is longer than it may be. -/
  | tooLong (length limit : Nat)
  deriving DecidableEq

namespace ResolveError

/-- The class of the error. -/
def errorClass : ResolveError → ErrorClass
  | unknownMessage _ => .reference
  | unknownTerm _ => .reference
  | unknownAttribute _ => .reference
  | unknownVariant _ => .reference
  | unknownVariable _ => .reference
  | unknownFunction _ => .reference
  | unsupportedVariable _ _ => .type
  | invalidArgument _ _ => .type
  | noValue _ => .range
  | missingDefault => .range
  | cyclic => .range
  | tooLong _ _ => .range

/-- The sentence that reports the error. -/
def message : ResolveError → String
  | unknownMessage id => "Unknown message: " ++ id
  | unknownTerm id => "Unknown term: " ++ id
  | unknownAttribute name => "Unknown attribute: " ++ name
  | unknownVariant key => "Unknown variant: " ++ key
  | unknownVariable name => "Unknown variable: $" ++ name
  | unknownFunction name => "Unknown function: " ++ name ++ "()"
  | unsupportedVariable name typeName =>
    "Unsupported variable type: " ++ name ++ ", " ++ typeName
  | invalidArgument function reason =>
    "Invalid argument to " ++ function ++ "(): " ++ reason
  | noValue id => "No value: " ++ id
  | missingDefault => "No default"
  | cyclic => "Cyclic reference"
  | tooLong length limit =>
    "Too many characters in placeable (" ++ toString length ++ ", max allowed is " ++
      toString limit ++ ")"

end ResolveError

/-- What a name in a bundle stands for. -/
inductive EntryKind
  | message
  | term
  | function
  deriving DecidableEq

/-- The kind in words. -/
def EntryKind.name : EntryKind → String
  | message => "message"
  | term => "term"
  | function => "function"

/-- What a bundle reports. -/
inductive BundleError
  /-- A name is taken; what came first is kept. -/
  | overriding (kind : EntryKind) (id : String)
  /-- A function cannot have this name. -/
  | invalidFunctionName (name : String)
  /-- An entry of a source could not be read. -/
  | syntaxError (diagnostic : Diagnostic)
  /-- Something went wrong while a pattern was resolved. -/
  | resolve (error : ResolveError)
  deriving DecidableEq

namespace BundleError

/-- The class of the error, if it arose while a pattern was resolved. -/
def errorClass? : BundleError → Option ErrorClass
  | resolve error => some error.errorClass
  | _ => none

/-- The sentence that reports the error. -/
def message : BundleError → String
  | overriding kind id => "attempted to override an existing " ++ kind.name ++ ": " ++ id
  | invalidFunctionName name => "invalid function name: " ++ name
  | syntaxError diagnostic => diagnostic.code ++ ": " ++ diagnostic.message
  | resolve error => error.message

end BundleError

end Localization
