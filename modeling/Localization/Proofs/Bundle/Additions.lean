import Localization.Bundle
import Localization.Proofs.Format.Nesting

/-!
# Bundles that grow

What a bundle holds stays there when more is added to it, and an identifier keeps the message or
term it was first given. So a text that was formatted without missing a message or term is
formatted the same ever after: it has looked at nothing that can still change.

## Main definitions

* `Bundle.Addition`, `Bundle.addAll` — resources and sources that are added one after the other
* `Bundle.Extends` — a bundle that holds whatever another one holds

## Main statements

* `Bundle.addAll_extends` — adding keeps what is there
* `Bundle.format_addAll` — adding does not change what could be formatted
-/

namespace Localization

/-- The error that there is no message or term of some identifier. -/
def ResolveError.IsUnknownEntry : ResolveError → Prop
  | unknownMessage _ => True
  | unknownTerm _ => True
  | _ => False

theorem Identifier.isUnknownEntry_unknown (id : Identifier) : id.unknown.IsUnknownEntry := by
  unfold unknown
  split <;> trivial

namespace Bundle

/-- What can be added to a bundle at once. -/
inductive Addition
  | resource (resource : Resource)
  | source (text : String)

/-- The bundle after an addition, whatever is reported about it. -/
def add (b : Bundle) : Addition → Bundle
  | .resource resource => (b.addResource resource).1
  | .source text => (b.addMessages text).1

/-- The bundle after additions in order. -/
def addAll (b : Bundle) (additions : List Addition) : Bundle := additions.foldl add b

/-! ### What stays -/

/-- A bundle holds whatever another one holds, under the same identifiers; all else is the same. -/
structure Extends (b b' : Bundle) : Prop where
  locales : b'.locales = b.locales
  pluralRules : b'.pluralRules = b.pluralRules
  options : b'.options = b.options
  functions : b'.store.functions = b.store.functions
  messages : ∀ id m, b.store.messages.get? id = some m → b'.store.messages.get? id = some m
  terms : ∀ id m, b.store.terms.get? id = some m → b'.store.terms.get? id = some m

variable {b b' b'' : Bundle}

theorem Extends.refl (b : Bundle) : Extends b b :=
  ⟨rfl, rfl, rfl, rfl, fun _ _ => id, fun _ _ => id⟩

theorem Extends.trans (h : Extends b b') (h' : Extends b' b'') : Extends b b'' :=
  ⟨h'.locales.trans h.locales, h'.pluralRules.trans h.pluralRules, h'.options.trans h.options,
    h'.functions.trans h.functions, fun id m hm => h'.messages id m (h.messages id m hm),
    fun id m hm => h'.terms id m (h.terms id m hm)⟩

/-- A name that was not bound before does not stand in the way of those that were. -/
theorem get?_set_of_not_contains {α : Type} {table : Bindings α} {name key : String}
    {value old : α} (hname : ¬table.contains name) (hkey : table.get? key = some old) :
    (table.set name value).get? key = some old := by
  have hne : key ≠ name := by
    rintro rfl
    exact hname (by rw [Bindings.contains, hkey]; rfl)
  rw [Bindings.get?_set, if_neg hne, hkey]

theorem addEntry_extends (b : Bundle) (entry : Entry) : Extends b (b.addEntry entry).1 := by
  cases entry with
  | message m =>
    by_cases hname : b.store.messages.contains m.id.name
    · simpa only [addEntry, if_pos hname] using .refl b
    · simp only [addEntry, if_neg hname]
      exact ⟨rfl, rfl, rfl, rfl, fun _ _ hm => get?_set_of_not_contains hname hm, fun _ _ => id⟩
  | term m =>
    by_cases hname : b.store.terms.contains m.id.name
    · simpa only [addEntry, if_pos hname] using .refl b
    · simp only [addEntry, if_neg hname]
      exact ⟨rfl, rfl, rfl, rfl, fun _ _ => id, fun _ _ hm => get?_set_of_not_contains hname hm⟩
  | comment level comment => exact .refl b
  | junk junk => exact .refl b

theorem addEntries_extends (entries : List Entry) (b : Bundle) :
    Extends b (b.addEntries entries).1 := by
  induction entries generalizing b with
  | nil => exact .refl b
  | cons entry rest ih => exact (b.addEntry_extends entry).trans (ih _)

theorem add_extends (b : Bundle) (addition : Addition) : Extends b (b.add addition) := by
  cases addition with
  | resource resource => exact addEntries_extends resource.body b
  | source text => exact addEntries_extends (Resource.parse text).body b

/-- Adding keeps what is there. -/
theorem addAll_extends (b : Bundle) (additions : List Addition) :
    Extends b (b.addAll additions) := by
  induction additions generalizing b with
  | nil => exact .refl b
  | cons addition rest ih => exact (b.add_extends addition).trans (ih _)

/-! ### Formatting in a bundle that has grown -/

/-- Values are compared for equality until a message or term is missed. -/
def comparison : Resolver.Comparison where
  ok _ := True
  bad := ResolveError.IsUnknownEntry
  sound _ := True
  related := Eq
  used _ := True

namespace Extends

variable (h : Extends b b')
include h

theorem find? {root : Root} {m : Message} (hm : b.store.find? root = some m) :
    b'.store.find? root = some m := by
  cases root with
  | message id => exact h.messages id m hm
  | term id => exact h.terms id m hm
  | loose => cases hm

/-- As long as no message or term is missed, a larger bundle has everything in common with a
smaller one. -/
theorem between (args : Option Arguments) :
    comparison.Between (b.environment args) (b'.environment args) where
  locale := by unfold environment; rw [h.locales, h.pluralRules]
  args := rfl
  functions name := comparison.answers_of_eq (by
    unfold Environment.function? environment
    rw [h.functions])
  found _ _ hm := ⟨h.find? hm, trivial⟩
  unknown id _ hunknown := absurd id.isUnknownEntry_unknown hunknown
  own _ _ _ := trivial
  literal _ _ := rfl
  number _ _ := rfl
  argument _ _ _ _ _ := rfl
  missing _ _ _ _ := rfl
  fallback _ _ := trivial
  eq_of_used _ _ hvw _ := hvw
  result _ _ _ _ _ _ _ _ := rfl
  failure _ _ _ _ _ _ _ _ := trivial

/-- A pattern comes to the same text with the same errors, unless a message or term was missed. -/
theorem run_formatPattern (args : Option Arguments) (content : Pattern) (site : Site)
    (hknown : ∀ error ∈ (Resolver.run ((b.environment args).formatPattern content site)).2,
      ¬error.IsUnknownEntry) :
    Resolver.run ((b'.environment args).formatPattern content site) =
      Resolver.run ((b.environment args).formatPattern content site) := by
  have hadmits : ∀ inner, comparison.Admits (b.environment args) inner := fun _ =>
    ⟨fun _ _ => trivial, fun _ _ _ _ => trivial⟩
  -- both have room enough for the patterns of both
  let room := b.store.patternCount + b'.store.patternCount + content.patternCount
  have hfollows := Environment.formatIn_follows _ (h.between args)
    ((h.between args).displays_of_eq rfl h.options) (fun _ => trivial) room content site
    (fun inner _ => hadmits inner)
  have hroom : Resolver.run ((b.environment args).formatIn room content site) =
      Resolver.run ((b.environment args).formatPattern content site) :=
    Environment.run_formatIn _ content site (by simp only [environment, room]; omega)
  have hroom' : Resolver.run ((b'.environment args).formatIn room content site) =
      Resolver.run ((b'.environment args).formatPattern content site) :=
    Environment.run_formatIn _ content site (by simp only [environment, room]; omega)
  rw [← hroom] at hknown ⊢
  rw [← hroom']
  obtain ⟨herrors, v, _, rfl, htext, htext'⟩ := hfollows.run hknown
  exact Prod.ext (htext'.trans htext.symm) herrors

end Extends

/-- Adding does not change what could be formatted: a message or attribute that came to a text
without missing a message or term comes to the same text with the same errors. -/
theorem format_addAll (b : Bundle) (additions : List Addition) (args : Option Arguments)
    (text : String) (errors : List ResolveError)
    (hknown : ∀ error ∈ errors, ¬error.IsUnknownEntry) :
    (∀ id, b.formatMessage id args = some (text, errors) →
      (b.addAll additions).formatMessage id args = some (text, errors)) ∧
    ∀ id name, b.formatAttribute id name args = some (text, errors) →
      (b.addAll additions).formatAttribute id name args = some (text, errors) := by
  have hextends := b.addAll_extends additions
  -- an entry that was missing would have been reported, so all that was looked up was there
  have hrun : ∀ content site,
      Resolver.run ((b.environment args).formatPattern content site) = (text, errors) →
      Resolver.run (((b.addAll additions).environment args).formatPattern content site) =
        (text, errors) := by
    intro content site hrun
    rw [hextends.run_formatPattern args content site (by rwa [hrun]), hrun]
  refine ⟨fun id hformat => ?_, fun id name hformat => ?_⟩
  · unfold formatMessage message? at *
    simp only [Option.bind_eq_bind, Option.bind_eq_some_iff, Option.pure_def,
      Option.some.injEq] at *
    obtain ⟨m, hm, content, hcontent, hformat⟩ := hformat
    exact ⟨m, hextends.messages id m hm, content, hcontent, hrun _ _ hformat⟩
  · unfold formatAttribute message? at *
    simp only [Option.bind_eq_bind, Option.bind_eq_some_iff, Option.pure_def,
      Option.some.injEq] at *
    obtain ⟨m, hm, index, hindex, named, hnamed, hformat⟩ := hformat
    exact ⟨m, hextends.messages id m hm, index, hindex, named, hnamed, hrun _ _ hformat⟩

/-- A message whose variable is not bound stays as it was when it is defined again, and so does
the message it refers to. -/
theorem format_addAll_redefined :
    ∃ (b : Bundle) (additions : List Addition),
      additions = [.source "b = other\n-t = T\n", .resource ⟨[.message ⟨⟨"a", ⟨0, 1⟩⟩, none, [],
        none, ⟨0, 1⟩⟩], ⟨0, 1⟩⟩] ∧
      (∀ error ∈ [ResolveError.unknownVariable "x"], ¬error.IsUnknownEntry) ∧
      b.formatMessage "a" none = some ("x is B", [.unknownVariable "x"]) ∧
      (b.addAll additions).formatMessage "a" none = some ("x is B", [.unknownVariable "x"]) := by
  let referred : Message :=
    ⟨⟨"b", ⟨0, 1⟩⟩, some ⟨[.text "B" ⟨4, 5⟩], ⟨4, 5⟩⟩, [], none, ⟨0, 5⟩⟩
  let message : Message :=
    ⟨⟨"a", ⟨6, 7⟩⟩, some ⟨[.placeable (.variableReference ⟨"x", ⟨13, 14⟩⟩ ⟨12, 14⟩) ⟨10, 16⟩,
      .text " is " ⟨16, 20⟩, .placeable (.messageReference ⟨"b", ⟨22, 23⟩⟩) ⟨20, 25⟩], ⟨10, 25⟩⟩,
      [], none, ⟨6, 25⟩⟩
  let b : Bundle :=
    ⟨["en"], .default, ⟨.ofList [("b", referred), ("a", message)], .empty, .empty⟩, ⟨false, 2500⟩⟩
  have hknown : ∀ error ∈ [ResolveError.unknownVariable "x"], ¬error.IsUnknownEntry := by
    simp [ResolveError.IsUnknownEntry]
  have hformat : b.formatMessage "a" none = some ("x is B", [.unknownVariable "x"]) := by
    decide +kernel
  exact ⟨b, _, rfl, hknown, hformat, (b.format_addAll _ none _ _ hknown).1 "a" hformat⟩

end Bundle

end Localization
