/-!
# JSON values

The values that a tree is written to and read from. Numbers are natural, since a tree holds no
others. The members of an object keep their order, and a repeated name counts where it stands
first.

## Main definitions

* `Json` — a value
* `Json.member?`, `Json.items?` — the parts of a value, which are smaller than the value
-/

namespace Localization

/-- A JSON value whose numbers are natural. -/
inductive Json
  | null
  | bool (value : Bool)
  | number (value : Nat)
  | string (value : String)
  | array (items : List Json)
  | object (members : List (String × Json))
  deriving Inhabited

namespace Json

/-- The text of a string value. -/
def string? : Json → Option String
  | .string value => some value
  | _ => none

/-- The number of a number value. -/
def number? : Json → Option Nat
  | .number value => some value
  | _ => none

/-- The truth value of a boolean value. -/
def bool? : Json → Option Bool
  | .bool value => some value
  | _ => none

/-- The member of a name among members, with the proof that it is smaller than they are. -/
def find? (name : String) :
    (members : List (String × Json)) → Option { value : Json // sizeOf value < sizeOf members }
  | [] => none
  | (key, value) :: rest =>
    if key = name then some ⟨value, by simp; omega⟩
    else (find? name rest).map fun found => ⟨found.1, by have := found.2; simp; omega⟩

/-- The member of a name, with the proof that it is smaller than the value. -/
def member? (name : String) : (json : Json) → Option { value : Json // sizeOf value < sizeOf json }
  | .object members =>
    (find? name members).map fun found => ⟨found.1, by have := found.2; simp; omega⟩
  | _ => none

/-- The items of an array, each with the proof that they are smaller than the value. -/
def items? : (json : Json) → Option (List { value : Json // sizeOf value < sizeOf json })
  | .array items =>
    some (items.attach.map fun item =>
      ⟨item.1, by have := List.sizeOf_lt_of_mem item.2; simp; omega⟩)
  | _ => none

/-- The items of an array that is the member of a name. -/
def memberItems? (name : String) (json : Json) :
    Option (List { value : Json // sizeOf value < sizeOf json }) := do
  let ⟨list, h⟩ ← json.member? name
  let items ← list.items?
  return items.map fun item => ⟨item.1, Nat.lt_trans item.2 h⟩

/-- The text that is the member of a name. -/
def memberString? (name : String) (json : Json) : Option String := do
  (← json.member? name).1.string?

/-- The number that is the member of a name. -/
def memberNumber? (name : String) (json : Json) : Option Nat := do
  (← json.member? name).1.number?

/-- The truth value that is the member of a name. -/
def memberBool? (name : String) (json : Json) : Option Bool := do
  (← json.member? name).1.bool?

/-- A member that may be missing or `null`, with the proof that it is smaller than the value. -/
def presentMember? (name : String) (json : Json) :
    Option { value : Json // sizeOf value < sizeOf json } :=
  match json.member? name with
  | some ⟨.null, _⟩ => none
  | found => found

end Json

end Localization
