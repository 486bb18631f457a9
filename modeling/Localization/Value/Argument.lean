import Localization.Bindings
import Localization.Value.Basic

/-!
# Arguments

The values that the caller of a message binds to its variables. Truth values and lists occur in
hosts but have no place in a message.

## Main definitions

* `Argument` — a value of the host
* `Argument.toValue?` — the value it stands for, if it has one
* `Arguments` — arguments by name, in the order in which they were first bound
-/

namespace Localization

/-- A value that the host binds to a variable. -/
inductive Argument
  | value (v : Value)
  | string (text : String)
  | number (n : Number)
  | dateTime (t : DateTime)
  | bool (b : Bool)
  | list (items : List Argument)

namespace Argument

instance : Inhabited Argument := ⟨.bool false⟩

/-- What kind of argument it is, as errors name it. -/
def typeName : Argument → String
  | value v => v.typeName
  | string _ => "string"
  | number _ => "number"
  | dateTime _ => "datetime"
  | bool _ => "bool"
  | list _ => "list"

/-- The value that the argument stands for; truth values and lists stand for none. -/
def toValue? : Argument → Option Value
  | value v => some v
  | string text => some (.string text)
  | number n => some (.number n)
  | dateTime t => some (.dateTime t)
  | bool _ => none
  | list _ => none

end Argument

/-- Arguments by name. -/
abbrev Arguments := Bindings Argument

end Localization
