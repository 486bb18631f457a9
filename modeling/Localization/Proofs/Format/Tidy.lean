import Localization.Format.Resolve
import Localization.Proofs.Format.Sites

/-!
# Resolvers keep the scope tidy

Whatever is resolved, the visited sites are afterwards what they were before, and errors are only
added behind those that are there. What the value is and which errors are added depends on the
visited sites, but not on earlier errors.

## Main definitions

* `Resolver.Tidy` — computations that keep the scope tidy
* `Resolver.joined` — the value that the elements of a pattern make up
* `Resolver.within` — a computation during which a site counts as visited
* `Resolver.patternBy` — resolving patterns with values shown some other way

## Main statements

* `Resolver.lookup_eq` — looking up an identifier, in terms of what the store holds
* `Resolver.expression_tidy`, `Resolver.pattern_tidy` — resolving keeps the scope tidy
* `Resolver.pattern_eq` — how values are shown
-/

namespace Localization

/-- The error that there is no message or term of an identifier. -/
def Identifier.unknown (id : Identifier) : ResolveError :=
  if id.isTerm then .unknownTerm id.name else .unknownMessage id.name

/-- An unknown name is reported as such, not as a cycle. -/
theorem Identifier.unknown_ne_cyclic (id : Identifier) : id.unknown ≠ .cyclic := by
  unfold unknown
  split <;> simp

namespace Resolver

variable {α β : Type} {V : List Site}

/-- A computation that leaves the visited sites as they were and only adds errors; the visited
sites decide on its result and on the errors. -/
def Tidy (x : Resolver α) : Prop :=
  ∀ V, ∃ result recorded, ∀ errors,
    StateT.run x ⟨V, errors⟩ = (result, ⟨V, errors ++ recorded⟩)

theorem Tidy.pure (result : α) : Tidy (Pure.pure result) :=
  fun V => ⟨result, [], fun errors => by rw [List.append_nil]; rfl⟩

/-- Two parts in sequence are tidy if each of them is. -/
theorem Tidy.bind {x : Resolver α} {f : α → Resolver β} (hx : Tidy x) (hf : ∀ a, Tidy (f a)) :
    Tidy (x >>= f) := by
  intro V
  obtain ⟨result, recorded, hx⟩ := hx V
  obtain ⟨result', recorded', hf⟩ := hf result V
  refine ⟨result', recorded ++ recorded', fun errors => ?_⟩
  rw [StateT.run_bind, hx, ← List.append_assoc]
  exact hf _

theorem report_tidy (error : ResolveError) : Tidy (report error) :=
  fun _ => ⟨(), [error], fun _ => rfl⟩

/-! ### References -/

/-- Looking up an identifier finds what the store holds for it, or records that it is unknown. -/
theorem lookup_eq (env : Environment) (id : Identifier) :
    lookup env id =
      match env.store.find? id.root with
      | some message => Pure.pure (some (message, id.root))
      | none => report id.unknown >>= fun _ => Pure.pure none := by
  unfold lookup Identifier.root Identifier.unknown
  cases id.isTerm with
  | true =>
    cases hfound : env.store.terms.get? id.name <;> simp only [if_true, Store.find?, hfound]
  | false =>
    cases hfound : env.store.messages.get? id.name <;>
      simp only [Bool.false_eq_true, if_false, Store.find?, hfound]

variable {env : Environment} {f : Enter}

/-- Looking up a reference leaves the visited sites alone. -/
theorem lookup_tidy (id : Identifier) : Tidy (lookup env id) := by
  rw [lookup_eq]
  split
  · exact .pure _
  · exact (report_tidy _).bind fun _ => .pure _

section

variable (hf : ∀ content site, Tidy (f content site))
include hf

theorem messageValue_tidy (message : Message) (root : Root) :
    Tidy (messageValue f message root) := by
  unfold messageValue
  split
  · exact hf _ _
  · exact (report_tidy _).bind fun _ => .pure _

/-- Formatting a referenced message is tidy if formatting its pattern is. -/
theorem messageReference_tidy (id : Identifier) : Tidy (messageReference env f id) := by
  refine (lookup_tidy id).bind fun found => ?_
  split
  · exact messageValue_tidy hf _ _
  · exact .pure _

/-- Formatting a referenced attribute is tidy if formatting its pattern is. -/
theorem attributeReference_tidy (id name : Identifier) :
    Tidy (attributeReference env f id name) := by
  refine (lookup_tidy id).bind fun found => ?_
  split
  · exact .pure _
  · split
    · exact hf _ _
    · exact (report_tidy _).bind fun _ => messageValue_tidy hf _ _

/-- Formatting a variant of a term is tidy if formatting patterns is. -/
theorem variantReference_tidy (term : Identifier) (key : VariantKey) :
    Tidy (variantReference env f term key) := by
  refine (lookup_tidy term).bind fun found => ?_
  split
  · exact .pure _
  · split
    · exact hf _ _
    · exact (report_tidy _).bind fun _ => messageValue_tidy hf _ _

end

theorem variableReference_tidy (name : String) : Tidy (variableReference env name) := by
  unfold variableReference
  split
  · exact (report_tidy _).bind fun _ => .pure _
  · split
    · exact .pure _
    · exact (report_tidy _).bind fun _ => .pure _

/-! ### Choices and calls -/

/-- A choice is tidy, whichever of its variants is formatted. -/
theorem choose_tidy (hf : ∀ content site, Tidy (f content site)) (selector : Option Value)
    (variants : List Variant) (defaultIndex : Nat) (site : Site) :
    Tidy (choose env f selector variants defaultIndex site) := by
  unfold choose defaultVariant
  split
  · exact hf _ _
  · split
    · exact hf _ _
    · exact (report_tidy _).bind fun _ => .pure _

/-- A call is tidy, whatever the function returns. -/
theorem apply_tidy (name : String) (function : CallFunction) (positional : List Value)
    (named : Bindings Value) : Tidy (apply name function positional named) := by
  unfold apply
  split
  · exact .pure _
  · exact (report_tidy _).bind fun _ => .pure _

mutual

/-- Resolving an expression keeps the scope tidy if resolving patterns does. -/
theorem expression_tidy (hf : ∀ content site, Tidy (f content site)) :
    ∀ (content : Expression) (site : Site), Tidy (expression env f content site)
  | .stringLiteral _ _, _ => .pure _
  | .numberLiteral _ _, _ => .pure _
  | .messageReference id, _ => messageReference_tidy hf id
  | .variableReference id _, _ => variableReference_tidy id.name
  | .select selector variants defaultIndex _, site =>
    (selectorValue_tidy hf selector site.selector).bind fun selected =>
      choose_tidy hf selected variants defaultIndex site
  | .attribute id name _, _ => attributeReference_tidy hf id name
  | .variant term key _, _ => variantReference_tidy hf term key
  | .call callee args _, site => by
    unfold expression
    split
    · exact (report_tidy _).bind fun _ => .pure _
    · exact (arguments_tidy hf args site 0 _).bind fun (positional, named) =>
        apply_tidy callee.name _ positional named

/-- Evaluating a selector is tidy. -/
theorem selectorValue_tidy (hf : ∀ content site, Tidy (f content site)) :
    ∀ (selector : Option Expression) (site : Site), Tidy (selectorValue env f selector site)
  | none, _ => .pure _
  | some content, site => (expression_tidy hf content site).bind fun _ => .pure _

/-- Evaluating the arguments of a call is tidy. -/
theorem arguments_tidy (hf : ∀ content site, Tidy (f content site)) :
    ∀ (args : List CallArgument) (site : Site) (index : Nat)
      (before : List Value × Bindings Value), Tidy (arguments env f args site index before)
  | [], _, _, _ => .pure _
  | argument :: rest, site, index, before =>
    (argumentValue_tidy hf argument (site.part index) before).bind fun before =>
      arguments_tidy hf rest site (index + 1) before

/-- Evaluating an argument is tidy. -/
theorem argumentValue_tidy (hf : ∀ content site, Tidy (f content site)) :
    ∀ (argument : CallArgument) (site : Site) (before : List Value × Bindings Value),
      Tidy (argumentValue env f argument site before)
  | .positional value, site, (_, _) => (expression_tidy hf value site).bind fun _ => .pure _
  | .named _ value _, site, (_, _) => (expression_tidy hf value site).bind fun _ => .pure _

end

/-! ### Patterns -/

/-- Cutting a text that is too long is tidy; it only reports an error. -/
theorem cut_tidy (text : List Char) : Tidy (cut env text) := by
  unfold cut
  dsimp only
  split
  · exact (report_tidy _).bind fun _ => .pure _
  · exact .pure _

/-- Formatting the elements of a pattern is tidy if formatting nested patterns is. -/
theorem elements_tidy (hf : ∀ content site, Tidy (f content site)) (isolated : Bool) (site : Site)
    (content : List PatternElement) (index : Nat) :
    Tidy (elements env f isolated site content index) := by
  induction content generalizing index with
  | nil => exact .pure _
  | cons element rest ih =>
    cases element with
    | text text _ => exact (ih (index + 1)).bind fun _ => .pure _
    | placeable content _ =>
      exact (expression_tidy hf content (site.part index)).bind fun _ =>
        (cut_tidy _).bind fun _ => (ih (index + 1)).bind fun _ => .pure _

/-- The value that the elements of a pattern make up. -/
def joined (env : Environment) (enter : Enter) (content : Pattern) (site : Site) :
    Resolver Value := do
  let isolated := env.options.isolating && decide (1 < content.elements.length)
  let text ← elements env enter isolated site content.elements 0
  return .string (String.ofList text)

theorem joined_tidy (hf : ∀ content site, Tidy (f content site)) (content : Pattern)
    (site : Site) : Tidy (joined env f content site) :=
  (elements_tidy hf _ site _ 0).bind fun _ => .pure _

/-- A computation during which a site counts as visited. -/
def within (site : Site) (x : Resolver α) : Resolver α := do
  modify fun scope => { scope with visiting := site :: scope.visiting }
  let result ← x
  modify fun scope => { scope with visiting := scope.visiting.erase site }
  return result

/-- A visit is a run within the site of its pattern. -/
theorem visit_eq (env : Environment) (f : Enter) (content : Pattern) (site : Site) :
    visit env f content site = within site (joined env f content site) := by
  unfold visit within joined
  simp only [bind_assoc, pure_bind]

/-- Before and after, the site does not count as visited. -/
theorem run_within {site : Site} {x : Resolver α} {result : α} {errors errors' : List ResolveError}
    (h : StateT.run x ⟨site :: V, errors⟩ = (result, ⟨site :: V, errors'⟩)) :
    StateT.run (within site x) ⟨V, errors⟩ = (result, ⟨V, errors'⟩) := by
  unfold within
  rw [StateT.run_bind, StateT.run_modify, pure_bind, StateT.run_bind, h]
  change (result, Scope.mk ((site :: V).erase site) errors') = _
  rw [List.erase_cons_head]

/-- A visit is tidy: the site is entered and left again. -/
theorem visit_tidy (hf : ∀ content site, Tidy (f content site)) (content : Pattern)
    (site : Site) : Tidy (visit env f content site) := by
  intro V
  rw [visit_eq]
  obtain ⟨result, recorded, hjoined⟩ := joined_tidy hf content site (site :: V)
  exact ⟨result, recorded, fun errors => run_within (hjoined errors)⟩

/-- A cycle is reported and leaves the visited sites alone. -/
theorem cyclic_tidy : Tidy cyclic := (report_tidy _).bind fun _ => .pure _

section

variable {site : Site} {seen unseen : Resolver Value}

/-- Asking whether a site is visited, where it is. -/
theorem run_ask_of_mem (hsite : site ∈ V) (errors : List ResolveError) :
    StateT.run (do if site ∈ (← get).visiting then seen else unseen) ⟨V, errors⟩ =
      StateT.run seen ⟨V, errors⟩ :=
  congrFun (congrArg StateT.run (if_pos hsite)) _

/-- Asking whether a site is visited, where it is not. -/
theorem run_ask_of_not_mem (hsite : site ∉ V) (errors : List ResolveError) :
    StateT.run (do if site ∈ (← get).visiting then seen else unseen) ⟨V, errors⟩ =
      StateT.run unseen ⟨V, errors⟩ :=
  congrFun (congrArg StateT.run (if_neg hsite)) _

/-- Asking whether a site is visited changes nothing. -/
theorem ask_tidy (hseen : Tidy seen) (hunseen : Tidy unseen) :
    Tidy (do if site ∈ (← get).visiting then seen else unseen) := by
  intro V
  by_cases hsite : site ∈ V
  · obtain ⟨result, recorded, hrun⟩ := hseen V
    exact ⟨result, recorded, fun errors => (run_ask_of_mem hsite errors).trans (hrun errors)⟩
  · obtain ⟨result, recorded, hrun⟩ := hunseen V
    exact ⟨result, recorded, fun errors => (run_ask_of_not_mem hsite errors).trans (hrun errors)⟩

end

/-- Resolving a pattern keeps the scope tidy, whatever room there is. -/
theorem pattern_tidy (room : Nat) (content : Pattern) (site : Site) :
    Tidy (pattern env room content site) := by
  induction room generalizing content site with
  | zero =>
    rw [pattern.eq_def]
    cases content.simpleText? with
    | some text => exact .pure _
    | none => exact ask_tidy cyclic_tidy cyclic_tidy
  | succ room ih =>
    rw [pattern.eq_def]
    cases content.simpleText? with
    | some text => exact .pure _
    | none => exact ask_tidy cyclic_tidy (visit_tidy ih content site)

/-! ### Other ways to show values -/

/-- How a placeable shows a value, next to other elements or alone. -/
abbrev Display := Bool → Value → Resolver (List Char)

/-- A placeable shows the text of its value, cut, and isolated next to other elements. -/
def shown (env : Environment) : Display := fun beside value => do
  return isolate (env.options.isolating && beside) (← cut env value.format.toList)

theorem shown_tidy (beside : Bool) (value : Value) : Tidy (shown env beside value) :=
  (cut_tidy _).bind fun _ => .pure _

/-- The texts of the elements of a pattern, from an index on, with values shown some other way. -/
def elementsBy (env : Environment) (enter : Enter) (display : Value → Resolver (List Char))
    (site : Site) : List PatternElement → Nat → Resolver (List Char)
  | [], _ => return []
  | .text text _ :: rest, index => do
    return text.toList ++ (← elementsBy env enter display site rest (index + 1))
  | .placeable content _ :: rest, index => do
    let value ← expression env enter content (site.part index)
    let shown ← display value
    return shown ++ (← elementsBy env enter display site rest (index + 1))

/-- The value that the elements of a pattern make up, with values shown some other way. -/
def joinedBy (env : Environment) (enter : Enter) (display : Display) (content : Pattern)
    (site : Site) : Resolver Value := do
  let text ← elementsBy env enter (display (1 < content.elements.length)) site content.elements 0
  return .string (String.ofList text)

/-- The value of the pattern at a site, with values shown some other way. -/
def patternBy (env : Environment) (display : Display) (room : Nat) (content : Pattern)
    (site : Site) : Resolver Value :=
  match content.simpleText? with
  | some text => return .string text
  | none => do
    if site ∈ (← get).visiting then cyclic
    else
      match room with
      | 0 => cyclic
      | room + 1 => within site (joinedBy env (patternBy env display room) display content site)

/-- Isolating placeables is one way to show them. -/
theorem elements_eq (beside : Bool) (site : Site) (content : List PatternElement) (index : Nat) :
    elements env f (env.options.isolating && beside) site content index =
      elementsBy env f (shown env beside) site content index := by
  induction content generalizing index with
  | nil => rfl
  | cons element rest ih =>
    cases element with
    | text text _ => simp only [elements, elementsBy, ih]
    | placeable content _ =>
      simp only [elements, elementsBy, shown, ih, bind_assoc, pure_bind]

/-- A pattern is formatted as its elements are, each value shown in the way of the environment. -/
theorem joined_eq (content : Pattern) (site : Site) :
    joined env f content site = joinedBy env f (shown env) content site := by
  unfold joined joinedBy
  dsimp only
  rw [elements_eq]

/-- Resolving a pattern is resolving it with values shown as they are. -/
theorem pattern_eq (env : Environment) (room : Nat) :
    pattern env room = patternBy env (shown env) room := by
  induction room with
  | zero =>
    funext content site
    unfold pattern patternBy
    cases content.simpleText? <;> rfl
  | succ room ih =>
    funext content site
    unfold pattern patternBy
    cases content.simpleText? with
    | some text => rfl
    | none => simp only [visit_eq, joined_eq, ih]

end Resolver

end Localization
