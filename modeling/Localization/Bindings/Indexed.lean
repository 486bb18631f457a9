import Localization.Bindings

/-!
# Bindings with an index

A table that finds a name without looking through its entries: the entries stand in the order in
which their names were first bound, and an index knows the slot of each name among them. Where the
index points outside the entries, an operation fails.

## Main definitions

* `IndexedBindings` — entries and the slots of their names
* `IndexedBindings.set`, `IndexedBindings.ofList` — binding names
* `IndexedBindings.get?`, `IndexedBindings.entries`, `IndexedBindings.size` — asking for them
-/

namespace Localization

/-- A table from names to values, in the order in which the names were first bound, and the slot of
each name. -/
structure IndexedBindings (α : Type) where
  entries : Array (String × α)
  slots : Bindings Nat

/-- A slot that lies outside the entries. -/
structure OutOfRange where
  slot : Nat
  deriving DecidableEq

namespace IndexedBindings

variable {α : Type}

/-- The table without names. -/
def empty : IndexedBindings α := ⟨#[], .empty⟩

instance : Inhabited (IndexedBindings α) := ⟨empty⟩

variable (t : IndexedBindings α)

/-- The entry in a slot. -/
def entryAt (slot : Nat) : Except OutOfRange (String × α) :=
  match t.entries[slot]? with
  | some entry => .ok entry
  | none => .error ⟨slot⟩

/-- Binds a name to a value: in its slot, or behind the others if it has none. -/
def set (name : String) (value : α) : Except OutOfRange (IndexedBindings α) :=
  match t.slots.get? name with
  | some slot => do
    let (key, _) ← t.entryAt slot
    return { t with entries := t.entries.setIfInBounds slot (key, value) }
  | none => return ⟨t.entries.push (name, value), t.slots.set name t.entries.size⟩

/-- The value of a name. -/
def get? (name : String) : Except OutOfRange (Option α) :=
  match t.slots.get? name with
  | some slot => do
    let (_, value) ← t.entryAt slot
    return some value
  | none => return none

/-- Number of bound names. -/
def size : Nat := t.entries.size

/-- Whether no name is bound. -/
def isEmpty : Bool := t.entries.isEmpty

/-- Binds names to values, one after the other. -/
def setAll (entries : List (String × α)) : Except OutOfRange (IndexedBindings α) :=
  entries.foldlM (fun t (name, value) => t.set name value) t

/-- The table that binds names to values, one after the other. -/
def ofList (entries : List (String × α)) : Except OutOfRange (IndexedBindings α) :=
  empty.setAll entries

end IndexedBindings

end Localization
