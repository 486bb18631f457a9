import Localization.Proofs.Bundle.Additions
import Localization.Proofs.Resource.Placement
import Mathlib.Data.Finset.Card
import Mathlib.Data.List.ReduceOption

/-!
# What is defined first is kept

However a bundle is filled, an identifier has the first message or term that was added under it,
and every later one is reported: messages and terms apart, and one report for each. So what a
bundle holds, and what it reports about an addition, can be told from the entries alone.

## Main definitions

* `Bindings.keep` — binding an identifier unless it is bound
* `Bundle.firstMessage?`, `Bundle.firstTerm?` — what is defined first in a bundle and in entries
  behind it
* `Bundle.report` — what is reported about an addition
* `Bundle.overridings` — the entries whose identifiers are taken

## Main statements

* `Bundle.addEntries_message?`, `Bundle.addEntries_term?` — what a bundle holds
* `Bundle.addEntries_report` — what is reported about entries
* `Bundle.addAll_keeps_first` — a bundle that was filled by any additions
-/

namespace Localization

open Text (byteLength)

/-! ### Binding what is new -/

namespace Bindings

/-- Binds the identifier of a message to it, unless it is bound. -/
def keep (table : Bindings Message) (message : Message) : Bindings Message :=
  if table.contains message.id.name then table else table.set message.id.name message

variable (table : Bindings Message) (messages : List Message)

theorem get?_keep (message : Message) (id : String) :
    (table.keep message).get? id =
      (table.get? id).or (if message.id.name = id then some message else none) := by
  unfold keep
  by_cases htaken : table.contains message.id.name
  · -- the table stays as it is, and the new message is behind what it holds
    rw [if_pos htaken]
    by_cases h : message.id.name = id
    · subst h
      rw [Option.or_of_isSome htaken]
    · rw [if_neg h, Option.or_none]
  · rw [if_neg htaken, get?_set]
    by_cases h : message.id.name = id
    · subst h
      have hnone : table.get? message.id.name = none := Option.not_isSome_iff_eq_none.1 htaken
      rw [if_pos rfl, if_pos rfl, hnone, Option.none_or]
    · rw [if_neg (Ne.symm h), if_neg h, Option.or_none]

/-- Of messages that are bound one after the other, each identifier keeps the first. -/
theorem get?_keepAll (id : String) :
    (messages.foldl keep table).get? id =
      (table.get? id).or (messages.find? (·.id.name = id)) := by
  induction messages generalizing table with
  | nil => exact (Option.or_none).symm
  | cons message rest ih =>
    rw [List.foldl_cons, ih, get?_keep, Option.or_assoc, List.find?_cons]
    by_cases h : message.id.name = id <;> simp [h]

theorem mem_names_keepAll (id : String) :
    id ∈ (messages.foldl keep table).names ↔ id ∈ table.names ++ messages.map (·.id.name) := by
  rw [mem_names, contains, get?_keepAll, Option.isSome_or, List.mem_append, mem_names, contains]
  simp

/-- A table grows by the identifiers that are new. -/
theorem size_keepAll :
    (messages.foldl keep table).size =
      (table.names ++ messages.map (·.id.name)).toFinset.card := by
  have hsize : (messages.foldl keep table).size = (messages.foldl keep table).names.length :=
    (List.length_map _).symm
  rw [hsize, ← List.toFinset_card_of_nodup (nodup_names _)]
  -- both count the same identifiers, wherever these stand
  congr 1
  ext id
  rw [List.mem_toFinset, List.mem_toFinset, mem_names_keepAll]

end Bindings

/-! ### Messages and terms among entries -/

namespace Entry

/-- The message that an entry defines. -/
def message? : Entry → Option Message
  | .message m => some m
  | _ => none

/-- The term that an entry defines. -/
def term? : Entry → Option Message
  | .term m => some m
  | _ => none

end Entry

namespace Bundle

/-- The entries of an addition. -/
def Addition.entries : Addition → List Entry
  | .resource added => added.body
  | .source text => (Resource.parse text).body

/-- The entries of additions, one after the other. -/
def entriesOf (additions : List Addition) : List Entry := additions.flatMap Addition.entries

/-- What could not be read of an addition. -/
def Addition.syntaxErrors : Addition → List BundleError
  | .resource _ => []
  | .source text => (Resource.parse text).diagnostics.map .syntaxError

variable (b : Bundle) (before entries : List Entry)

/-- What is reported about an addition. -/
def report : Addition → List BundleError
  | .resource resource => (b.addResource resource).2
  | .source text => (b.addMessages text).2

/-- The message of an identifier in a bundle or else the first one among entries. -/
def firstMessage? (id : String) : Option Message :=
  (b.message? id).or ((entries.filterMap Entry.message?).find? (·.id.name = id))

/-- The term of an identifier in a bundle or else the first one among entries. -/
def firstTerm? (id : String) : Option Message :=
  (b.term? id).or ((entries.filterMap Entry.term?).find? (·.id.name = id))

/-- The error for a message or term behind other entries whose identifier is taken by then. -/
def overriding? : Entry → Option BundleError
  | .message m =>
    if (b.firstMessage? before m.id.name).isSome then some (.overriding .message m.id.name)
    else none
  | .term m =>
    if (b.firstTerm? before m.id.name).isSome then some (.overriding .term m.id.name) else none
  | _ => none

/-- The errors for those of the entries whose identifiers are taken by a bundle and the entries
before them. -/
def overridings : List BundleError :=
  (entries.mapIdx fun i entry => b.overriding? (before ++ entries.take i) entry).reduceOption

/-! ### What a bundle holds -/

theorem addEntry_messages (entry : Entry) :
    (b.addEntry entry).1.store.messages =
      entry.message?.toList.foldl Bindings.keep b.store.messages := by
  cases entry with
  | message m =>
    change _ = b.store.messages.keep m
    rw [addEntry, Bindings.keep]
    split <;> rfl
  | term m =>
    rw [addEntry]
    split <;> rfl
  | _ => rfl

theorem addEntry_terms (entry : Entry) :
    (b.addEntry entry).1.store.terms =
      entry.term?.toList.foldl Bindings.keep b.store.terms := by
  cases entry with
  | term m =>
    change _ = b.store.terms.keep m
    rw [addEntry, Bindings.keep]
    split <;> rfl
  | message m =>
    rw [addEntry]
    split <;> rfl
  | _ => rfl

theorem addEntries_messages :
    (b.addEntries entries).1.store.messages =
      (entries.filterMap Entry.message?).foldl Bindings.keep b.store.messages := by
  induction entries generalizing b with
  | nil => rfl
  | cons entry rest ih =>
    change ((b.addEntry entry).1.addEntries rest).1.store.messages = _
    rw [ih, addEntry_messages, ← List.foldl_append]
    cases entry <;> rfl

theorem addEntries_terms :
    (b.addEntries entries).1.store.terms =
      (entries.filterMap Entry.term?).foldl Bindings.keep b.store.terms := by
  induction entries generalizing b with
  | nil => rfl
  | cons entry rest ih =>
    change ((b.addEntry entry).1.addEntries rest).1.store.terms = _
    rw [ih, addEntry_terms, ← List.foldl_append]
    cases entry <;> rfl

/-- A bundle to which entries were added holds the first message of each identifier. -/
theorem addEntries_message? (id : String) :
    (b.addEntries entries).1.message? id = b.firstMessage? entries id := by
  rw [message?, addEntries_messages, Bindings.get?_keepAll]
  rfl

/-- A bundle to which entries were added holds the first term of each identifier. -/
theorem addEntries_term? (id : String) :
    (b.addEntries entries).1.term? id = b.firstTerm? entries id := by
  rw [term?, addEntries_terms, Bindings.get?_keepAll]
  rfl

theorem addEntries_append (rest : List Entry) :
    (b.addEntries (entries ++ rest)).1 = ((b.addEntries entries).1.addEntries rest).1 := by
  induction entries generalizing b with
  | nil => rfl
  | cons entry more ih => exact ih (b.addEntry entry).1

/-- Additions are nothing but their entries. -/
theorem addAll_eq (additions : List Addition) :
    b.addAll additions = (b.addEntries (entriesOf additions)).1 := by
  induction additions generalizing b with
  | nil => rfl
  | cons addition rest ih =>
    rw [entriesOf, List.flatMap_cons, addEntries_append, ← entriesOf, ← ih]
    cases addition <;> rfl

/-! ### What is reported -/

/-- An entry is reported if its identifier is taken in its own namespace. -/
theorem addEntry_report (entry : Entry) :
    ((b.addEntries before).1.addEntry entry).2 = b.overriding? before entry := by
  cases entry with
  | message m =>
    have htaken : (b.addEntries before).1.store.messages.contains m.id.name =
        (b.firstMessage? before m.id.name).isSome :=
      congrArg Option.isSome (b.addEntries_message? before m.id.name)
    rw [addEntry, overriding?, htaken]
    split <;> rfl
  | term m =>
    have htaken : (b.addEntries before).1.store.terms.contains m.id.name =
        (b.firstTerm? before m.id.name).isSome :=
      congrArg Option.isSome (b.addEntries_term? before m.id.name)
    rw [addEntry, overriding?, htaken]
    split <;> rfl
  | _ => rfl

theorem overridings_cons (entry : Entry) (rest : List Entry) :
    b.overridings before (entry :: rest) =
      (b.overriding? before entry).toList ++ b.overridings (before ++ [entry]) rest := by
  unfold overridings
  rw [List.mapIdx_cons, List.take_zero, List.append_nil]
  cases h : b.overriding? before entry with
  | none => simp [List.reduceOption_cons_of_none]
  | some error => simp [List.reduceOption_cons_of_some]

/-- Of entries that are added behind others, those whose identifiers are taken are reported. -/
theorem addEntries_report :
    ((b.addEntries before).1.addEntries entries).2 = b.overridings before entries := by
  induction entries generalizing before with
  | nil => rfl
  | cons entry rest ih =>
    -- the entry joins those in front of the next one, whether it was kept or not
    have hnext : ((b.addEntries before).1.addEntry entry).1 =
        (b.addEntries (before ++ [entry])).1 := (b.addEntries_append before [entry]).symm
    change ((b.addEntries before).1.addEntry entry).2.toList ++
      (((b.addEntries before).1.addEntry entry).1.addEntries rest).2 = _
    rw [hnext, ih, addEntry_report, overridings_cons]

theorem report_eq (addition : Addition) :
    b.report addition = addition.syntaxErrors ++ (b.addEntries addition.entries).2 := by
  cases addition <;> rfl

/-- Nothing is overridden if and only if every identifier is new where it is defined. -/
theorem overridings_eq_nil :
    b.overridings before entries = [] ↔
      ∀ (i : Nat) (entry : Entry), entries[i]? = some entry →
        b.overriding? (before ++ entries.take i) entry = none := by
  simp only [overridings, List.reduceOption, List.filterMap_eq_nil_iff, id]
  constructor
  · intro h i entry hentry
    apply h
    rw [List.mem_iff_getElem?]
    exact ⟨i, by rw [List.getElem?_mapIdx, hentry]; rfl⟩
  · intro h error herror
    obtain ⟨i, hi⟩ := List.mem_iff_getElem?.1 herror
    rw [List.getElem?_mapIdx, Option.map_eq_some_iff] at hi
    obtain ⟨entry, hentry, rfl⟩ := hi
    exact h i entry hentry

/-- In a bundle that was filled by any additions, an identifier has the message or term that the
bundle had before or else the first one that was added, and the identifiers are counted once. About
one more addition it is reported what could not be read, in the order of the source, and then each
message or term whose identifier is taken by then in its own namespace, in order; nothing is
reported if all of it can be read and all of its identifiers are new. -/
theorem addAll_keeps_first (additions : List Addition) :
    (∀ id, (b.addAll additions).message? id = b.firstMessage? (entriesOf additions) id) ∧
    (∀ id, (b.addAll additions).term? id = b.firstTerm? (entriesOf additions) id) ∧
    (b.addAll additions).size = (b.store.messages.names ++
      ((entriesOf additions).filterMap Entry.message?).map (·.id.name)).toFinset.card ∧
    (∀ addition : Addition,
      (b.addAll additions).report addition =
        addition.syntaxErrors ++ b.overridings (entriesOf additions) addition.entries ∧
      ((b.addAll additions).report addition = [] ↔ addition.syntaxErrors = [] ∧
        ∀ (i : Nat) (entry : Entry), addition.entries[i]? = some entry →
          b.overriding? (entriesOf additions ++ addition.entries.take i) entry = none)) ∧
    ∀ text : String, InOrder 0 ((Resource.parse text).diagnostics.map Diagnostic.span)
      (byteLength text.toList) := by
  have hreport : ∀ addition : Addition, (b.addAll additions).report addition =
      addition.syntaxErrors ++ b.overridings (entriesOf additions) addition.entries := by
    intro addition
    rw [report_eq, addAll_eq, addEntries_report]
  refine ⟨fun id => ?_, fun id => ?_, ?_, fun addition => ⟨hreport addition, ?_⟩,
    fun text => Resource.parse_diagnostics_inOrder text⟩
  · rw [addAll_eq, addEntries_message?]
  · rw [addAll_eq, addEntries_term?]
  · rw [addAll_eq, size, addEntries_messages, Bindings.size_keepAll]
  · rw [hreport addition, List.append_eq_nil_iff, overridings_eq_nil]

/-- A message and a term of one name stay apart; when both are defined again, both are reported,
and so is the second of two new messages of one name. -/
theorem addAll_keeps_first_named_alike :
    ∃ (b : Bundle) (m other : Message) (additions : List Addition) (addition : Addition),
      m.id.name = "a" ∧ other.id.name = "b" ∧
      additions = [.resource ⟨[.message m, .term m], ⟨0, 1⟩⟩] ∧
      addition = .resource ⟨[.term m, .message other, .message m, .message other], ⟨0, 1⟩⟩ ∧
      (b.addAll additions).message? "a" = some m ∧ (b.addAll additions).term? "b" = none ∧
      (b.addAll additions).size = 1 ∧
      (b.addAll additions).report addition =
        [.overriding .term "a", .overriding .message "a", .overriding .message "b"] := by
  let named (name : String) : Message := ⟨⟨name, ⟨0, 1⟩⟩, none, [], none, ⟨0, 1⟩⟩
  obtain ⟨hmessage, hterm, hsize, hreport, -⟩ := addAll_keeps_first (empty ["en"])
    [.resource ⟨[.message (named "a"), .term (named "a")], ⟨0, 1⟩⟩]
  refine ⟨empty ["en"], named "a", named "b", _, _, rfl, rfl, rfl, rfl,
    (hmessage "a").trans ?_, (hterm "b").trans ?_, hsize.trans ?_, (hreport _).1.trans ?_⟩
  · rfl
  · rfl
  · rfl
  · rfl

end Bundle

end Localization
