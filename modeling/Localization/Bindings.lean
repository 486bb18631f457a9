/-!
# Bindings

A table from names to values that remembers the order in which the names were first bound.
Binding a name again replaces its value in place.

## Main definitions

* `Bindings` — the table, which binds each name once
* `Bindings.set`, `Bindings.ofList` — binding names
* `Bindings.get?`, `Bindings.names`, `Bindings.size` — asking for them
-/

namespace Localization

/-- A table from names to values, in the order in which the names were first bound. -/
@[ext]
structure Bindings (α : Type) where
  entries : List (String × α)
  nodup : (entries.map (·.1)).Nodup

namespace Bindings

variable {α : Type}

/-- The table without names. -/
def empty : Bindings α := ⟨[], .nil⟩

instance : Inhabited (Bindings α) := ⟨empty⟩

/-- Entries with a name bound to a value: in place, or behind the others if it is new. -/
def assign (name : String) (value : α) : List (String × α) → List (String × α)
  | [] => [(name, value)]
  | (key, old) :: rest =>
    if key = name then (key, value) :: rest else (key, old) :: assign name value rest

/-- Binding a name adds it at the end, unless it is bound already. -/
theorem map_fst_assign (name : String) (value : α) (entries : List (String × α)) :
    (assign name value entries).map (·.1) =
      if name ∈ entries.map (·.1) then entries.map (·.1) else entries.map (·.1) ++ [name] := by
  induction entries with
  | nil => simp [assign]
  | cons entry rest ih =>
    obtain ⟨other, old⟩ := entry
    by_cases h : other = name
    · simp [assign, h]
    · by_cases hmem : name ∈ rest.map (·.1)
      · simp_all [assign]
      · simp_all [assign, eq_comm]

/-- Binding a name keeps names apart. -/
theorem nodup_assign (name : String) (value : α) {entries : List (String × α)}
    (h : (entries.map (·.1)).Nodup) : ((assign name value entries).map (·.1)).Nodup := by
  rw [map_fst_assign]
  split
  · exact h
  · next hmem =>
    refine List.nodup_append.2 ⟨h, by simp, ?_⟩
    intro key hkey other hother heq
    exact hmem (List.mem_singleton.1 hother ▸ heq ▸ hkey)

variable (b : Bindings α)

/-- Binds a name to a value. -/
def set (name : String) (value : α) : Bindings α :=
  ⟨assign name value b.entries, nodup_assign name value b.nodup⟩

/-- The value of a name. -/
def get? (name : String) : Option α := b.entries.lookup name

/-- Whether a name is bound. -/
def contains (name : String) : Bool := (b.get? name).isSome

/-- The bound names in the order in which they were first bound. -/
def names : List String := b.entries.map (·.1)

/-- Number of bound names. -/
def size : Nat := b.entries.length

/-- Whether no name is bound. -/
def isEmpty : Bool := b.entries.isEmpty

/-- Binds names to values, one after the other. -/
def setAll (entries : List (String × α)) : Bindings α :=
  entries.foldl (fun b (name, value) => b.set name value) b

/-- The table that binds names to values, one after the other. -/
def ofList (entries : List (String × α)) : Bindings α := empty.setAll entries

/-- The table of the same names with other values. -/
def mapValues {β : Type} (f : String → α → β) : Bindings β where
  entries := b.entries.map fun (name, value) => (name, f name value)
  nodup := by
    have hnames : (b.entries.map fun (name, value) => (name, f name value)).map (·.1) =
        b.entries.map (·.1) := by rw [List.map_map]; rfl
    exact hnames ▸ b.nodup

/-! ### What binding a name changes -/

private theorem lookup_cons_if (name key : String) (value : α) (rest : List (String × α)) :
    ((name, value) :: rest).lookup key = if key = name then some value else rest.lookup key := by
  by_cases h : key = name
  · simp [h]
  · simp [List.lookup_cons, beq_eq_false_iff_ne.2 h, h]

/-- Behind a binding, the name has the new value and all other names their old ones. -/
theorem lookup_assign (name key : String) (value : α) (entries : List (String × α)) :
    (assign name value entries).lookup key =
      if key = name then some value else entries.lookup key := by
  induction entries with
  | nil => simp [assign, lookup_cons_if]
  | cons entry rest ih =>
    obtain ⟨other, old⟩ := entry
    by_cases hother : other = name
    · by_cases h : key = name <;> simp [assign, lookup_cons_if, hother, h]
    · simp only [assign, if_neg hother, lookup_cons_if, ih]
      by_cases h : key = name <;> simp [h, Ne.symm hother]

/-- The names of a table are those that are bound. -/
theorem mem_names {name : String} : name ∈ b.names ↔ b.contains name := by
  unfold names contains get?
  induction b.entries with
  | nil => simp
  | cons entry rest ih =>
    obtain ⟨other, old⟩ := entry
    by_cases h : name = other <;> simp [lookup_cons_if, h, ih]

@[simp] theorem get?_empty (name : String) : (empty : Bindings α).get? name = none := rfl

/-- A name that is bound has its new value, and every other name keeps its own. -/
theorem get?_set (name key : String) (value : α) :
    (b.set name value).get? key = if key = name then some value else b.get? key :=
  lookup_assign name key value b.entries

/-- A new name goes behind the others; a bound one stays where it is. -/
theorem names_set (name : String) (value : α) :
    (b.set name value).names = if name ∈ b.names then b.names else b.names ++ [name] :=
  map_fst_assign name value b.entries

theorem nodup_names : b.names.Nodup := b.nodup

/-- Changing values changes what is found, not where. -/
theorem get?_mapValues {β : Type} (f : String → α → β) (name : String) :
    (b.mapValues f).get? name = (b.get? name).map (f name) := by
  unfold get? mapValues
  dsimp only
  induction b.entries with
  | nil => rfl
  | cons entry rest ih =>
    obtain ⟨other, value⟩ := entry
    rw [List.map_cons, lookup_cons_if, lookup_cons_if, ih]
    split
    · next h => rw [h, Option.map_some]
    · rfl

end Bindings

end Localization
