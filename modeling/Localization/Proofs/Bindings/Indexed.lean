import Localization.Bindings.Indexed
import Mathlib.Data.Finset.Card
import Mathlib.Data.List.Dedup

/-!
# A table and its index stay in step

The entries of a table and the index of their names are two accounts of one thing. An index is
coherent if it knows exactly the names that stand among the entries, each with the one slot that it
stands in. Binding a name keeps it so, whether the name is new or not; therefore no slot ever lies
outside the entries, and a table with an index is a table of bindings that is asked in another way.

## Main definitions

* `IndexedBindings.Coherent` — the index is that of the entries
* `IndexedBindings.Coherent.toBindings` — the table without its index
* `IndexedBindings.Operation` — how a table is filled
* `Bindings.Lists` — what it means to list bindings in the order in which names were first bound

## Main statements

* `IndexedBindings.Coherent.set` — binding a name keeps the index coherent
* `IndexedBindings.Coherent.run` — so does every sequence of operations
* `Bindings.lists_ofList` — names stand in the order in which they were first bound
* `IndexedBindings.fill_lists` — what a table holds after any operations
-/

namespace Localization

variable {α : Type}

/-! ### Entries of different names -/

namespace Bindings

/-- Binding a name that an entry has puts the value in its place. -/
theorem assign_of_getElem? {entries : List (String × α)} {slot : ℕ} {name : String} {old : α}
    (value : α) (hnodup : (entries.map (·.1)).Nodup) (hslot : entries[slot]? = some (name, old)) :
    assign name value entries = entries.set slot (name, value) := by
  induction entries generalizing slot with
  | nil => cases hslot
  | cons entry rest ih =>
    obtain ⟨hfirst, hrest⟩ := List.nodup_cons.1 hnodup
    cases slot with
    | zero =>
      obtain rfl : entry = (name, old) := Option.some.inj hslot
      simp [assign]
    | succ slot =>
      rw [List.getElem?_cons_succ] at hslot
      have hne : entry.1 ≠ name := by
        rintro rfl
        exact hfirst (List.mem_map.2 ⟨_, List.mem_of_getElem? hslot, rfl⟩)
      rw [assign, if_neg hne, ih hrest hslot, List.set_cons_succ]

/-- Binding a name that no entry has puts it behind the others. -/
theorem assign_of_not_mem {entries : List (String × α)} {name : String} (value : α)
    (h : name ∉ entries.map (·.1)) : assign name value entries = entries ++ [(name, value)] := by
  induction entries with
  | nil => rfl
  | cons entry rest ih =>
    obtain ⟨hne, hrest⟩ := not_or.1 (mt List.mem_cons.2 h)
    rw [assign, if_neg (Ne.symm hne), ih hrest, List.cons_append]

/-- Where names differ, an entry is what is found under its name. -/
theorem lookup_of_getElem? {entries : List (String × α)} {slot : ℕ} {name : String} {value : α}
    (hnodup : (entries.map (·.1)).Nodup) (hslot : entries[slot]? = some (name, value)) :
    entries.lookup name = some value := by
  induction entries generalizing slot with
  | nil => cases hslot
  | cons entry rest ih =>
    obtain ⟨hfirst, hrest⟩ := List.nodup_cons.1 hnodup
    cases slot with
    | zero =>
      obtain rfl : entry = (name, value) := Option.some.inj hslot
      exact List.lookup_cons_self
    | succ slot =>
      rw [List.getElem?_cons_succ] at hslot
      have hne : name ≠ entry.1 := by
        rintro rfl
        exact hfirst (List.mem_map.2 ⟨_, List.mem_of_getElem? hslot, rfl⟩)
      rw [List.lookup_cons, beq_eq_false_iff_ne.2 hne]
      exact ih hrest hslot

/-! ### What was bound first and last -/

/-- The value that a name was bound to last, if it was bound at all. -/
def lastValue? (bound : List (String × α)) (name : String) : Option α := bound.reverse.lookup name

/-- Entries list what was bound: each name once, in the order in which the names were first bound,
with the value that it was bound to last. -/
structure Lists (entries bound : List (String × α)) : Prop where
  names : ∀ name, name ∈ entries.map (·.1) ↔ name ∈ bound.map (·.1)
  ordered : (entries.map (·.1)).Pairwise fun first second =>
    (bound.map (·.1)).idxOf first < (bound.map (·.1)).idxOf second
  values : ∀ entry ∈ entries, lastValue? bound entry.1 = some entry.2

variable {entries bound : List (String × α)}

/-- No name stands in front of itself. -/
theorem Lists.nodup (h : Lists entries bound) : (entries.map (·.1)).Nodup :=
  h.ordered.imp fun hlt => ne_of_apply_ne ((bound.map (·.1)).idxOf ·) hlt.ne

/-- There is one entry for each name that was bound. -/
theorem Lists.length_eq (h : Lists entries bound) :
    entries.length = (bound.map (·.1)).toFinset.card := by
  have hlength : entries.length = (entries.map (·.1)).length := (List.length_map _).symm
  rw [hlength, ← List.toFinset_card_of_nodup h.nodup]
  congr 1
  ext name
  rw [List.mem_toFinset, List.mem_toFinset, h.names]

theorem ofList_concat (bound : List (String × α)) (name : String) (value : α) :
    ofList (bound ++ [(name, value)]) = (ofList bound).set name value :=
  List.foldl_concat ..

/-- A name has the value that it was bound to last. -/
theorem get?_ofList (bound : List (String × α)) (name : String) :
    (ofList bound).get? name = lastValue? bound name := by
  induction bound using List.reverseRecOn with
  | nil => rfl
  | append_singleton bound entry ih =>
    obtain ⟨key, value⟩ := entry
    rw [ofList_concat, get?_set, lastValue?, List.reverse_concat, List.lookup_cons]
    by_cases h : name = key
    · simp [h]
    · rw [if_neg h, beq_eq_false_iff_ne.2 h]
      exact ih

theorem names_ofList (bound : List (String × α)) :
    (∀ name, name ∈ (ofList bound).names ↔ name ∈ bound.map (·.1)) ∧
      (ofList bound).names.Pairwise fun first second =>
        (bound.map (·.1)).idxOf first < (bound.map (·.1)).idxOf second := by
  induction bound using List.reverseRecOn with
  | nil => exact ⟨fun _ => Iff.rfl, .nil⟩
  | append_singleton bound entry ih =>
    obtain ⟨key, value⟩ := entry
    obtain ⟨hnames, hordered⟩ := ih
    -- the names that are bound already were first bound where they were before
    have hkeep : (ofList bound).names.Pairwise fun first second =>
        (bound.map (·.1) ++ [key]).idxOf first < (bound.map (·.1) ++ [key]).idxOf second := by
      refine hordered.imp_of_mem fun hfirst hsecond hlt => ?_
      rwa [List.idxOf_append_of_mem ((hnames _).1 hfirst),
        List.idxOf_append_of_mem ((hnames _).1 hsecond)]
    rw [ofList_concat, names_set, List.map_append, List.map_singleton]
    split_ifs with hmem
    · refine ⟨fun name => ?_, hkeep⟩
      rw [List.mem_append, ← hnames, List.mem_singleton]
      exact ⟨.inl, fun h => h.elim id fun heq => heq ▸ hmem⟩
    · refine ⟨fun name => ?_, List.pairwise_append.2 ⟨hkeep, List.pairwise_singleton .., ?_⟩⟩
      · rw [List.mem_append, List.mem_append, hnames]
      · -- a new name is first bound behind all others
        intro name hname other hother
        obtain rfl := List.mem_singleton.1 hother
        rw [List.idxOf_append_of_mem ((hnames _).1 hname),
          List.idxOf_append_of_notMem (mt (hnames _).2 hmem)]
        exact Nat.lt_add_right _ (List.idxOf_lt_length_of_mem ((hnames _).1 hname))

/-- A table lists what its names were bound to, one after the other. -/
theorem lists_ofList (bound : List (String × α)) : Lists (ofList bound).entries bound := by
  obtain ⟨hnames, hordered⟩ := names_ofList bound
  refine ⟨hnames, hordered, fun entry hentry => ?_⟩
  obtain ⟨slot, hslot⟩ := List.getElem?_of_mem hentry
  rw [← get?_ofList]
  exact lookup_of_getElem? (ofList bound).nodup hslot

end Bindings

/-! ### An index that knows the entries -/

namespace IndexedBindings

/-- The index knows each name that stands among the entries by its slot, and no other. -/
def Coherent (t : IndexedBindings α) : Prop :=
  ∀ name slot, t.slots.get? name = some slot ↔ t.entries[slot]?.map (·.1) = some name

theorem coherent_empty : (empty : IndexedBindings α).Coherent := by
  intro name slot
  simp [empty]

namespace Coherent

variable {t : IndexedBindings α} {name : String} {slot : ℕ}

/-- A slot that the index knows lies within the entries, and the name stands in it. -/
theorem exists_entry (h : t.Coherent) (hslot : t.slots.get? name = some slot) :
    ∃ value, t.entries[slot]? = some (name, value) := by
  obtain ⟨⟨key, value⟩, hentry, rfl⟩ := Option.map_eq_some_iff.1 ((h name slot).1 hslot)
  exact ⟨value, hentry⟩

/-- Two slots hold different names, for the index knows one slot for a name. -/
theorem nodup (h : t.Coherent) : (t.entries.toList.map (·.1)).Nodup := by
  have hslot : ∀ i (hi : i < (t.entries.toList.map (·.1)).length),
      t.slots.get? (t.entries.toList.map (·.1))[i] = some i := by
    intro i hi
    rw [h, ← Array.getElem?_toList, ← List.getElem?_map, List.getElem?_eq_getElem hi]
  refine List.pairwise_iff_getElem.2 fun i j hi hj hlt heq => hlt.ne ?_
  exact Option.some.inj ((hslot i hi).symm.trans (heq ▸ hslot j hj))

/-- The table without its index. -/
def toBindings (h : t.Coherent) : Bindings α := ⟨t.entries.toList, h.nodup⟩

theorem not_mem (h : t.Coherent) (hnone : t.slots.get? name = none) :
    name ∉ t.entries.toList.map (·.1) := by
  intro hmem
  obtain ⟨slot, hslot⟩ := List.getElem?_of_mem hmem
  rw [List.getElem?_map, Array.getElem?_toList] at hslot
  rw [(h name slot).2 hslot] at hnone
  cases hnone

/-- A name is found under its slot where it is found among the entries. -/
theorem get?_eq (h : t.Coherent) (name : String) : t.get? name = .ok (h.toBindings.get? name) := by
  unfold get?
  cases hslot : t.slots.get? name with
  | none =>
    have hnone : h.toBindings.get? name = none :=
      Option.not_isSome_iff_eq_none.1 (mt h.toBindings.mem_names.2 (h.not_mem hslot))
    rw [hnone]
    rfl
  | some slot =>
    obtain ⟨value, hentry⟩ := h.exists_entry hslot
    have hvalue : h.toBindings.get? name = some value :=
      Bindings.lookup_of_getElem? h.nodup (Array.getElem?_toList.trans hentry)
    rw [hvalue]
    simp only [entryAt, hentry]
    rfl

/-- The slot of a new name is the first one behind the others. -/
theorem push (h : t.Coherent) (hnone : t.slots.get? name = none) (value : α) :
    Coherent ⟨t.entries.push (name, value), t.slots.set name t.entries.size⟩ := by
  intro key slot
  rw [Bindings.get?_set, Array.getElem?_push]
  by_cases hkey : key = name
  · subst hkey
    rw [if_pos rfl, Option.some_inj]
    by_cases hend : slot = t.entries.size
    · simp [hend]
    · rw [if_neg hend, ← h key slot, hnone]
      simp [Ne.symm hend]
  · rw [if_neg hkey, h key slot]
    by_cases hend : slot = t.entries.size
    · simp [hend, Ne.symm hkey]
    · rw [if_neg hend]

/-- A new value leaves the name in its slot. -/
theorem replace (h : t.Coherent) {old : α} (hentry : t.entries[slot]? = some (name, old))
    (value : α) : Coherent ⟨t.entries.setIfInBounds slot (name, value), t.slots⟩ := by
  intro key other
  rw [h key other, Array.getElem?_setIfInBounds]
  by_cases hother : slot = other
  · subst hother
    obtain ⟨hlt, hold⟩ := Array.getElem?_eq_some_iff.1 hentry
    simp [hlt, hold]
  · rw [if_neg hother]

/-- Binding a name never fails, keeps the index coherent, and binds the name in the table without
its index. -/
theorem set (h : t.Coherent) (name : String) (value : α) :
    ∃ (t' : IndexedBindings α) (h' : t'.Coherent), t.set name value = .ok t' ∧
      h'.toBindings = h.toBindings.set name value := by
  unfold IndexedBindings.set
  cases hslot : t.slots.get? name with
  | none =>
    refine ⟨_, h.push hslot value, rfl, Bindings.ext ?_⟩
    exact Array.toList_push.trans (Bindings.assign_of_not_mem value (h.not_mem hslot)).symm
  | some slot =>
    obtain ⟨old, hentry⟩ := h.exists_entry hslot
    refine ⟨_, h.replace hentry value, ?_, Bindings.ext ?_⟩
    · simp only [entryAt, hentry]
      rfl
    · refine (Array.toList_setIfInBounds ..).trans ?_
      exact (Bindings.assign_of_getElem? value h.nodup (Array.getElem?_toList.trans hentry)).symm

theorem setAll (h : t.Coherent) (entries : List (String × α)) :
    ∃ (t' : IndexedBindings α) (h' : t'.Coherent), t.setAll entries = .ok t' ∧
      h'.toBindings = h.toBindings.setAll entries := by
  induction entries generalizing t with
  | nil => exact ⟨t, h, rfl, rfl⟩
  | cons entry rest ih =>
    obtain ⟨name, value⟩ := entry
    obtain ⟨next, hnext, hset, hbindings⟩ := h.set name value
    obtain ⟨last, hlast, hrest, hall⟩ := ih hnext
    refine ⟨last, hlast, ?_, ?_⟩
    · change (t.set name value >>= fun t => t.setAll rest) = _
      rw [hset]
      exact hrest
    · rw [hall, hbindings]
      rfl

end Coherent

theorem exists_ofList (entries : List (String × α)) :
    ∃ (t : IndexedBindings α) (h : t.Coherent), ofList entries = .ok t ∧
      h.toBindings = Bindings.ofList entries :=
  coherent_empty.setAll entries

/-! ### Filling a table -/

/-- How a table is filled. A name is bound in the table at hand, or in a copy of it that takes its
place; a table that is collected from entries starts without names. -/
inductive Operation (α : Type)
  | set (name : String) (value : α)
  | adding (name : String) (value : α)
  | collect (entries : List (String × α))

namespace Operation

/-- The table behind an operation. -/
def run (t : IndexedBindings α) : Operation α → Except OutOfRange (IndexedBindings α)
  | .set name value => t.set name value
  | .adding name value => t.set name value
  | .collect entries => ofList entries

/-- What is bound behind an operation, the last binding at the end. -/
def bound (before : List (String × α)) : Operation α → List (String × α)
  | .set name value => before ++ [(name, value)]
  | .adding name value => before ++ [(name, value)]
  | .collect entries => entries

end Operation

/-- The table behind operations on the table without names. -/
def fill (operations : List (Operation α)) : Except OutOfRange (IndexedBindings α) :=
  operations.foldlM Operation.run empty

/-- What is bound behind operations on the table without names. -/
def bound (operations : List (Operation α)) : List (String × α) :=
  operations.foldl Operation.bound []

variable {t : IndexedBindings α} {before : List (String × α)}

theorem Coherent.run (h : t.Coherent) (hbefore : h.toBindings = Bindings.ofList before)
    (operation : Operation α) :
    ∃ (t' : IndexedBindings α) (h' : t'.Coherent), operation.run t = .ok t' ∧
      h'.toBindings = Bindings.ofList (operation.bound before) := by
  have hset (name value) : ∃ (t' : IndexedBindings α) (h' : t'.Coherent),
      t.set name value = .ok t' ∧
        h'.toBindings = Bindings.ofList (before ++ [(name, value)]) := by
    rw [Bindings.ofList_concat, ← hbefore]
    exact h.set name value
  cases operation with
  | set name value => exact hset name value
  | adding name value => exact hset name value
  | collect entries => exact exists_ofList entries

theorem Coherent.runAll (h : t.Coherent) (hbefore : h.toBindings = Bindings.ofList before)
    (operations : List (Operation α)) :
    ∃ (t' : IndexedBindings α) (h' : t'.Coherent), operations.foldlM Operation.run t = .ok t' ∧
      h'.toBindings = Bindings.ofList (operations.foldl Operation.bound before) := by
  induction operations generalizing t before with
  | nil => exact ⟨t, h, rfl, hbefore⟩
  | cons operation rest ih =>
    obtain ⟨next, hnext, hrun, hbound⟩ := h.run hbefore operation
    obtain ⟨last, hlast, hrest, hall⟩ := ih hnext hbound
    refine ⟨last, hlast, ?_, hall⟩
    rw [List.foldlM_cons, hrun]
    exact hrest

open Bindings in
/-- No operation on a table reaches outside its entries, and no question after them does. The table
lists what was bound, it has as many entries as there are names, a name has the value that it was
bound to last, and its index knows each name by the slot that the name stands in. -/
theorem fill_lists (operations : List (Operation α)) :
    ∃ (t : IndexedBindings α) (h : t.Coherent), fill operations = .ok t ∧
      h.toBindings = Bindings.ofList (bound operations) ∧
      (∀ name, t.get? name = .ok (lastValue? (bound operations) name)) ∧
      Lists t.entries.toList (bound operations) ∧
      t.size = ((bound operations).map (·.1)).toFinset.card ∧
      ∀ name slot, t.slots.get? name = some slot ↔ t.entries[slot]?.map (·.1) = some name := by
  have hempty : (coherent_empty : (empty : IndexedBindings α).Coherent).toBindings =
      Bindings.ofList [] := rfl
  obtain ⟨t, hcoherent, hfill, hbindings⟩ := coherent_empty.runAll hempty operations
  have hlists : Lists t.entries.toList (bound operations) := by
    have hentries : t.entries.toList = (Bindings.ofList (bound operations)).entries :=
      congrArg Bindings.entries hbindings
    rw [hentries]
    exact lists_ofList _
  refine ⟨t, hcoherent, hfill, hbindings, fun name => ?_, hlists, ?_, hcoherent⟩
  · rw [hcoherent.get?_eq, hbindings]
    exact congrArg _ (get?_ofList _ name)
  · rw [← hlists.length_eq]
    rfl

end IndexedBindings

end Localization
