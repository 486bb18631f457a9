import Localization.Format.Resolve
import Localization.Resource.Parse

/-!
# Bundles

A bundle holds the messages, terms and functions for a chain of locales. Resources are added to
it, and its messages are formatted. What is added first under a name is kept; later entries of
that name are reported and left out.

## Main definitions

* `Bundle` — locales, plural rules, a store, and options
* `Bundle.addResource`, `Bundle.addMessages`, `Bundle.addFunction` — filling a bundle
* `Bundle.formatMessage`, `Bundle.formatAttribute`, `Bundle.formatPattern`, `Bundle.resolve` —
  formatting
-/

namespace Localization

/-- Messages, terms and functions for a chain of locales. -/
structure Bundle where
  locales : List String
  pluralRules : PluralRules
  store : Store
  options : FormatOptions

namespace Bundle

/-- The empty bundle for a chain of locales, with default plural rules and options. -/
def empty (locales : List String) : Bundle := ⟨locales, .default, .empty, default⟩

/-! ### Filling a bundle -/

/-- Adds an entry; a message or term whose identifier is taken is reported instead. -/
def addEntry (b : Bundle) : Entry → Bundle × Option BundleError
  | .message m =>
    if b.store.messages.contains m.id.name then (b, some (.overriding .message m.id.name))
    else ({ b with store.messages := b.store.messages.set m.id.name m }, none)
  | .term m =>
    if b.store.terms.contains m.id.name then (b, some (.overriding .term m.id.name))
    else ({ b with store.terms := b.store.terms.set m.id.name m }, none)
  | .comment _ _ => (b, none)
  | .junk _ => (b, none)

/-- Adds entries in order, with what is to report about them. -/
def addEntries (b : Bundle) : List Entry → Bundle × List BundleError
  | [] => (b, [])
  | entry :: rest =>
    let (b, error) := b.addEntry entry
    let (b, errors) := b.addEntries rest
    (b, error.toList ++ errors)

/-- Adds the messages and terms of a resource. -/
def addResource (b : Bundle) (resource : Resource) : Bundle × List BundleError :=
  b.addEntries resource.body

/-- Adds the messages and terms of a source. What could not be read is reported first. -/
def addMessages (b : Bundle) (source : String) : Bundle × List BundleError :=
  let resource := Resource.parse source
  let (b, errors) := b.addResource resource
  (b, resource.diagnostics.map .syntaxError ++ errors)

/-- Adds a function, unless its name is not allowed or taken. -/
def addFunction (b : Bundle) (name : String) (function : CallFunction) :
    Bundle × Option BundleError :=
  if !isCalleeName name then (b, some (.invalidFunctionName name))
  else if b.store.functions.contains name then (b, some (.overriding .function name))
  else ({ b with store.functions := b.store.functions.set name function }, none)

variable (b : Bundle)

/-! ### Asking a bundle -/

/-- The message of an identifier. -/
def message? (id : String) : Option Message := b.store.messages.get? id

/-- The term of an identifier with its leading `-`. -/
def term? (id : String) : Option Message := b.store.terms.get? id

/-- Whether there is a message of an identifier. -/
def hasMessage (id : String) : Bool := b.store.messages.contains id

/-- Number of messages; terms do not count. -/
def size : Nat := b.store.messages.size

/-- Whether there is no message. -/
def isEmpty : Bool := b.store.messages.isEmpty

/-- The bundle for inspection. -/
def inspect : String :=
  "Bundle \x7b locales: " ++ Text.quoteList b.locales ++
    ", messages: " ++ toString b.store.messages.size ++
    ", terms: " ++ toString b.store.terms.size ++
    ", functions: " ++ toString b.store.functions.size ++
    ", options: FormatOptions \x7b use_isolating: " ++ toString b.options.isolating ++
    ", max_placeable_length: " ++ toString b.options.maxLength ++ " \x7d, .. \x7d"

/-! ### Formatting -/

/-- What formatting with arguments depends on. -/
def environment (args : Option Arguments) : Environment :=
  ⟨b.store, args, ⟨b.locales, b.pluralRules⟩, b.options⟩

/-- The text of a message that has a value, with the errors. -/
def formatMessage (id : String) (args : Option Arguments) :
    Option (String × List ResolveError) := do
  let message ← b.message? id
  let pattern ← message.value
  return Resolver.run ((b.environment args).formatPattern pattern (.value (.message id)))

/-- The text of an attribute of a message, with the errors. -/
def formatAttribute (id name : String) (args : Option Arguments) :
    Option (String × List ResolveError) := do
  let message ← b.message? id
  let index ← message.attributeIndex? name
  let found ← message.attribute? name
  return Resolver.run
    ((b.environment args).formatPattern found.value (.attributeAt (.message id) index))

/-- The text of a pattern that stands where the site says, with the errors. -/
def formatPattern (pattern : Pattern) (site : Site) (args : Option Arguments) :
    String × List ResolveError :=
  Resolver.run ((b.environment args).formatPattern pattern site)

/-- The text of the value of a message that stands where the root says, with the errors. -/
def resolve (message : Message) (root : Root) (args : Option Arguments) :
    String × List ResolveError :=
  Resolver.run ((b.environment args).formatMessage message root)

end Bundle

end Localization
