import Localization.Resource.Tree

/-!
# Syntax errors

Every way in which an entry can break the grammar has a code such as `E0003`. The codes are
stable, so that editors and tests can tell errors apart without reading their messages; gaps in
the numbering are codes that are no longer in use.

## Main definitions

* `ErrorCode` — what went wrong, with its `code` text and its `message`
* `ErrorCode.ofText?` — the error code of a code text
* `SyntaxError` — an error code with its arguments at an offset
-/

namespace Localization

/-- What can be wrong with an entry. -/
inductive ErrorCode
  /-- A line starts no comment, section, message or term. -/
  | expectedEntry
  /-- Another character was expected; the argument says which. -/
  | expectedToken
  /-- A character of a range was expected; the argument names the range. -/
  | expectedRange
  /-- A message has neither a value nor attributes. -/
  | emptyMessage
  /-- A term has no value. -/
  | emptyTerm
  /-- What is called is no upper-case identifier. -/
  | forbiddenCallee
  /-- The name of an argument is no simple identifier. -/
  | forbiddenArgumentName
  /-- No variant is marked as the default. -/
  | missingDefault
  /-- A selector has no variants. -/
  | missingVariants
  /-- A value is missing behind `=`, `:` or a variant key. -/
  | missingValue
  /-- A variant has no key. -/
  | missingKey
  /-- An expression has no literal to start with. -/
  | missingLiteral
  /-- A second variant is marked as the default. -/
  | secondDefault
  /-- A message selects. -/
  | messageSelector
  /-- A variant of a term selects. -/
  | variantSelector
  /-- An attribute of a message selects. -/
  | attributeSelector
  /-- An attribute of a term is placed in a pattern. -/
  | termAttributePlaced
  /-- A quoted text does not end on its line. -/
  | unclosedString
  /-- A positional argument follows a named one. -/
  | positionalAfterNamed
  /-- Two named arguments have the same name. -/
  | duplicateArgument
  /-- A variant of a message is asked for. -/
  | messageVariant
  /-- A Unicode escape is malformed; the argument is the escape as written. -/
  | invalidEscape
  deriving DecidableEq

namespace ErrorCode

/-- All error codes, in the order of their numbers. -/
def all : List ErrorCode :=
  [expectedEntry, expectedToken, expectedRange, emptyMessage, emptyTerm, forbiddenCallee,
    forbiddenArgumentName, missingDefault, missingVariants, missingValue, missingKey,
    missingLiteral, secondDefault, messageSelector, variantSelector, attributeSelector,
    termAttributePlaced, unclosedString, positionalAfterNamed, duplicateArgument, messageVariant,
    invalidEscape]

/-- The stable text of the code. -/
def text : ErrorCode → String
  | expectedEntry => "E0002"
  | expectedToken => "E0003"
  | expectedRange => "E0004"
  | emptyMessage => "E0005"
  | emptyTerm => "E0006"
  | forbiddenCallee => "E0008"
  | forbiddenArgumentName => "E0009"
  | missingDefault => "E0010"
  | missingVariants => "E0011"
  | missingValue => "E0012"
  | missingKey => "E0013"
  | missingLiteral => "E0014"
  | secondDefault => "E0015"
  | messageSelector => "E0016"
  | variantSelector => "E0017"
  | attributeSelector => "E0018"
  | termAttributePlaced => "E0019"
  | unclosedString => "E0020"
  | positionalAfterNamed => "E0021"
  | duplicateArgument => "E0022"
  | messageVariant => "E0024"
  | invalidEscape => "E0026"

/-- The error code with a code text. -/
def ofText? (text : String) : Option ErrorCode := all.find? (·.text == text)

/-- The sentence about a text that is no code. -/
def unknownMessage (text : String) : String := "unknown error code `" ++ text ++ "`"

/-- The sentence that reports the error. An argument that is missing counts as empty. -/
def message (code : ErrorCode) (args : List String) : String :=
  let arg := args.headD ""
  match code with
  | expectedEntry => "Expected an entry start"
  | expectedToken => "Expected token: \"" ++ arg ++ "\""
  | expectedRange => "Expected a character from range: \"" ++ arg ++ "\""
  | emptyMessage => "Expected message \"" ++ arg ++ "\" to have a value or attributes"
  | emptyTerm => "Expected term \"" ++ arg ++ "\" to have a value"
  | forbiddenCallee => "The callee has to be a simple, upper-case identifier"
  | forbiddenArgumentName => "The key has to be a simple identifier"
  | missingDefault => "Expected one of the variants to be marked as default (*)"
  | missingVariants => "Expected at least one variant after \"->\""
  | missingValue => "Expected value"
  | missingKey => "Expected variant key"
  | missingLiteral => "Expected literal"
  | secondDefault => "Only one variant can be marked as default (*)"
  | messageSelector => "Message references cannot be used as selectors"
  | variantSelector => "Variants cannot be used as selectors"
  | attributeSelector => "Attributes of messages cannot be used as selectors"
  | termAttributePlaced => "Attributes of terms cannot be used as placeables"
  | unclosedString => "Unterminated string expression"
  | positionalAfterNamed => "Positional arguments must not follow named arguments"
  | duplicateArgument => "Named arguments must be unique"
  | messageVariant => "Cannot access variants of a message."
  | invalidEscape => "Invalid Unicode escape sequence: " ++ arg ++ "."

/-- The diagnostic that reports the error at a span. -/
def diagnostic (code : ErrorCode) (args : List String) (span : Span) : Diagnostic :=
  ⟨code.text, args, code.message args, span⟩

end ErrorCode

/-- An error code with its arguments, at the offset where reading stopped. -/
structure SyntaxError where
  code : ErrorCode
  args : List String
  offset : Nat
  deriving DecidableEq

namespace SyntaxError

variable (error : SyntaxError)

/-- The error as `CODE: message`. -/
def text : String := error.code.text ++ ": " ++ error.code.message error.args

/-- The diagnostic that reports the error, moved to an offset. -/
def diagnosticAt (offset : Nat) : Diagnostic := error.code.diagnostic error.args (.point offset)

end SyntaxError

end Localization
