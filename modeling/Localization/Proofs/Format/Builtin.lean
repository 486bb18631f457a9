import Localization.Format.Store
import Mathlib.Tactic.Common

/-!
# What built-in functions return

A built-in function that does not fail has got one argument, and returns it as it is, or as a
number with bounds for its fraction digits.

## Main definitions

* `Builtin.Returns` — an argument and what a built-in function makes of it

## Main statements

* `Builtin.returns_of_ok` — a built-in function returns nothing else
-/

namespace Localization

namespace Builtin

/-- What a built-in function makes of its argument. -/
inductive Returns : Value → Value → Prop
  | none (name : Option String) : Returns (.none name) (.none name)
  | number (n : Number) (bounds : FractionDigits) :
    Returns (.number n) (.number (n.withBounds bounds))
  | text {text : String} {n : Number} (h : Number.parse? text = some n) (bounds : FractionDigits) :
    Returns (.string text) (.number (n.withBounds bounds))
  | dateTime (t : DateTime) : Returns (.dateTime t) (.dateTime t)

/-- A built-in function has a value where its argument has one. -/
theorem Returns.isNone {argument value : Value} (h : Returns argument value)
    (hargument : argument.isNone = false) : value.isNone = false := by
  cases h with
  | none name => exact hargument
  | number n bounds => rfl
  | text hparse bounds => rfl
  | dateTime t => rfl

variable {α β : Type}

theorem bind_eq_ok {x : Except ResolveError α} {k : α → Except ResolveError β} {b : β} :
    x >>= k = .ok b ↔ ∃ a, x = .ok a ∧ k a = .ok b := by
  cases x with
  | error error => exact ⟨fun h => (by cases h), fun ⟨_, h, _⟩ => (by cases h)⟩
  | ok a => exact ⟨fun h => ⟨a, rfl, h⟩, fun ⟨_, ha, h⟩ => by cases ha; exact h⟩

theorem onlyArgument_eq_ok {name : String} {positional : List Value} {argument : Value}
    (h : onlyArgument name positional = .ok argument) : positional = [argument] := by
  unfold onlyArgument at h
  split at h
  · cases h
    rfl
  · cases h

theorem bounded_eq_ok {n : Number} {named : Bindings Value} {value : Value}
    (h : bounded n named = .ok value) : ∃ bounds, value = .number (n.withBounds bounds) := by
  obtain ⟨minimum, -, h⟩ := bind_eq_ok.1 h
  obtain ⟨maximum, -, h⟩ := bind_eq_ok.1 h
  split at h
  · cases h
    exact ⟨n.bounds, rfl⟩
  · cases h
    exact ⟨_, rfl⟩

/-- A built-in function that does not fail has one argument and returns something made of it. -/
theorem returns_of_ok {name : String} {function : CallFunction}
    (hfunction : ofName? name = some function) {positional : List Value} {named : Bindings Value}
    {value : Value} (hok : function positional named = .ok value) :
    ∃ argument, positional = [argument] ∧ Returns argument value := by
  unfold ofName? at hfunction
  split at hfunction
  · cases hfunction
    obtain ⟨argument, hargument, hok⟩ := bind_eq_ok.1 hok
    refine ⟨argument, onlyArgument_eq_ok hargument, ?_⟩
    split at hok
    · cases hok
      exact .none _
    · obtain ⟨bounds, rfl⟩ := bounded_eq_ok hok
      exact .number _ bounds
    · split at hok
      · next n hparse =>
        obtain ⟨bounds, rfl⟩ := bounded_eq_ok hok
        exact .text hparse bounds
      · cases hok
    · cases hok
  · split at hfunction
    · cases hfunction
      obtain ⟨argument, hargument, hok⟩ := bind_eq_ok.1 hok
      refine ⟨argument, onlyArgument_eq_ok hargument, ?_⟩
      split at hok
      · cases hok
        exact .dateTime _
      · cases hok
        exact .none _
      · cases hok
    · cases hfunction

end Builtin

/-- Without functions of the store there are the built-in ones. -/
theorem Environment.function?_of_empty {env : Environment} (h : env.store.functions = .empty)
    (name : String) : env.function? name = Builtin.ofName? name := by
  unfold function?
  rw [h, Bindings.get?_empty, Option.none_or]

end Localization
