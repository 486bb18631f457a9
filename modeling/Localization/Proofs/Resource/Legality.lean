import Localization.Proofs.Resource.Subtrees
import Mathlib.Data.List.Nodup

/-!
# Legal expressions

Not every tree is one that the grammar can yield: a choice has one default, a message cannot decide
a choice, a call names no argument twice, and so on. Each of these rules is checked at one place of
the parser, often when the tree that it speaks of is half built. Whatever is read keeps all of them,
at any depth.

## Main definitions

* `Subtree.Legal` — what the grammar asks of a single expression or pattern
* `Resource.Legal` — all expressions and patterns of a resource are legal

## Main statements

* `SpellsVariants.hasDefault` — a choice has one default, where its index says
* `SpellsArguments.legal` — the arguments of a call are legal as they grow
* `Resource.parse_legal` — what is read is legal
-/

namespace Localization

/-! ### What the grammar asks for -/

/-- Whether an expression can decide between variants: a literal, a variable, a call, a term or an
attribute of a term. -/
def Expression.CanSelect : Expression → Prop
  | .messageReference id => id.isTerm
  | .attribute id _ _ => id.isTerm
  | .variant _ _ _ => False
  | .select _ _ _ _ => False
  | _ => True

/-- Whether an expression is a choice between variants. -/
def Expression.isSelect : Expression → Bool
  | .select _ _ _ _ => true
  | _ => false

/-- Whether an argument has a name. -/
def CallArgument.isNamed (argument : CallArgument) : Bool :=
  (Parser.argumentName? argument).isSome

/-- An argument is no choice, and the value of a named one is a literal. -/
def CallArgument.Legal : CallArgument → Prop
  | .positional value => value.isSelect = false
  | .named name value _ => name.isTerm = false ∧ isLiteral value

/-- Arguments of a call: the named ones stand last, under different names. -/
structure LegalArguments (args : List CallArgument) : Prop where
  named_last : args.Pairwise fun earlier later => earlier.isNamed → later.isNamed
  nodup : (args.filterMap Parser.argumentName?).Nodup
  each : ∀ argument ∈ args, argument.Legal

/-- What the grammar asks of an expression, whatever is nested in it. -/
def Expression.Legal : Expression → Prop
  | .select selector variants defaultIndex span =>
    (∀ expression ∈ selector, expression.CanSelect) ∧ variants ≠ [] ∧
      variants.countP Variant.isDefault = 1 ∧
      ∃ variant, (Expression.select selector variants defaultIndex span).defaultVariant? =
        some variant ∧ variant.isDefault
  | .variant term _ _ => term.isTerm
  | .call callee args _ => isCalleeName callee.name ∧ LegalArguments args
  | _ => True

/-- No placeable of a pattern holds the attribute of a term. -/
def Pattern.Legal (pattern : Pattern) : Prop :=
  ∀ expression span, .placeable expression span ∈ pattern.elements →
    Parser.isTermAttribute expression = false

/-- What the grammar asks of a pattern or an expression itself. -/
def Subtree.Legal : Subtree → Prop
  | .pattern content => content.Legal
  | .expression content => content.Legal

/-- All patterns and expressions of a resource are legal, at any depth. -/
def Resource.Legal (resource : Resource) : Prop :=
  ∀ subtree ∈ resource.subtrees, subtree.Legal

variable {start count : Nat} {text : List Char} {next : Option Char}

/-! ### Choices -/

theorem SpellsVariant.isDefault_eq_false {variant : Variant}
    (h : SpellsVariant start text true variant) : variant.isDefault = false := by
  cases h with
  | mk hdefault _ _ _ _ _ _ => exact Bool.eq_false_iff.2 fun htrue => by cases hdefault htrue

/-- Behind a default there is no other one, and the index stays with the first. -/
theorem SpellsVariants.of_default : ∀ {start text count first defaultIndex}
    (variants : List Variant),
    SpellsVariants start text count (some first) variants defaultIndex →
    variants.countP Variant.isDefault = 0 ∧ defaultIndex = first
  | _, _, _, _, _, [], h => by cases h
  | _, _, _, _, _, variant :: variants, h => by
    cases h with
    | last _ hspells hindex =>
      have hnot := hspells.isDefault_eq_false
      rw [hnot] at hindex
      exact ⟨by simp [hnot], (Option.some.inj hindex).symm⟩
    | more _ hspells hmore =>
      have hnot := hspells.isDefault_eq_false
      rw [hnot] at hmore
      obtain ⟨hcount, hindex⟩ := SpellsVariants.of_default variants hmore
      exact ⟨by simp [hnot, hcount], hindex⟩

/-- One of the variants is the default. The index counts from the first variant of the choice, of
which `count` stand in front. -/
theorem SpellsVariants.hasDefault : ∀ {start text count defaultIndex} (variants : List Variant),
    SpellsVariants start text count none variants defaultIndex →
    variants.countP Variant.isDefault = 1 ∧
      ∃ index variant, defaultIndex = count + index ∧ variants[index]? = some variant ∧
        variant.isDefault
  | _, _, _, _, [], h => by cases h
  | _, _, count, defaultIndex, variant :: variants, h => by
    cases hdefault : variant.isDefault with
    | true =>
      -- from here on a default is known, so no other one follows
      have hrest : variants.countP Variant.isDefault = 0 ∧ defaultIndex = count := by
        cases h with
        | last _ _ hindex =>
          rw [hdefault] at hindex
          exact ⟨rfl, (Option.some.inj hindex).symm⟩
        | more _ _ hmore =>
          rw [hdefault] at hmore
          exact hmore.of_default
      exact ⟨by simp [hdefault, hrest.1], 0, variant, hrest.2, rfl, hdefault⟩
    | false =>
      cases h with
      | last _ _ hindex =>
        -- a choice without a default is refused
        rw [hdefault] at hindex
        cases hindex
      | more _ _ hmore =>
        rw [hdefault] at hmore
        obtain ⟨hcount, index, found, hindex, hfound, htrue⟩ :=
          SpellsVariants.hasDefault variants hmore
        exact ⟨by simp [hdefault, hcount], index + 1, found, by omega, hfound, htrue⟩

/-! ### Arguments -/

theorem SpellsSelector.isSelect_eq_false {expression : Expression}
    (h : SpellsSelector start text expression next) : expression.isSelect = false := by
  cases h <;> rfl

theorem SpellsArgument.legal {argument : CallArgument}
    (h : SpellsArgument start text argument next) : argument.Legal := by
  cases h with
  | positional hspells => exact hspells.isSelect_eq_false
  | named hname _ _ hliteral _ => exact ⟨hname.isTerm, hliteral⟩

theorem legalArguments_nil : LegalArguments [] :=
  ⟨.nil, List.nodup_nil, fun _ hmem => by cases hmem⟩

theorem Parser.not_mem_of_argumentError? {before : List CallArgument} {argument : CallArgument}
    {name : String} (h : argumentError? before argument = none)
    (hname : argumentName? argument = some name) : name ∉ before.filterMap argumentName? := by
  intro hmem
  simp [argumentError?, hname, hmem] at h

theorem Parser.names_eq_nil_of_argumentError? {before : List CallArgument}
    {argument : CallArgument} (h : argumentError? before argument = none)
    (hname : argumentName? argument = none) : before.filterMap argumentName? = [] := by
  unfold argumentError? at h
  rw [hname] at h
  by_contra hne
  rw [← List.isEmpty_iff] at hne
  simp only [hne] at h
  cases h

/-- An argument that breaks no rule behind legal ones is one more legal argument. -/
theorem LegalArguments.concat {before : List CallArgument} {argument : CallArgument}
    (h : LegalArguments before.reverse) (herror : Parser.argumentError? before argument = none)
    (hlegal : argument.Legal) : LegalArguments (argument :: before).reverse := by
  rw [List.reverse_cons]
  cases hname : Parser.argumentName? argument with
  | none =>
    have hnames := Parser.names_eq_nil_of_argumentError? herror hname
    refine ⟨List.pairwise_append.2 ⟨h.named_last, List.pairwise_singleton _ _, ?_⟩, ?_, ?_⟩
    · -- no argument in front has a name
      intro earlier hearlier later hlater hnamed
      obtain ⟨name, hsome⟩ := Option.isSome_iff_exists.1 hnamed
      have hmem := List.mem_filterMap.2 ⟨earlier, List.mem_reverse.1 hearlier, hsome⟩
      rw [hnames] at hmem
      cases hmem
    · simpa [hname] using h.nodup
    · simpa [or_imp, forall_and, hlegal] using h.each
  | some name =>
    have hnew := Parser.not_mem_of_argumentError? herror hname
    refine ⟨List.pairwise_append.2 ⟨h.named_last, List.pairwise_singleton _ _, ?_⟩, ?_, ?_⟩
    -- the one argument behind the others has a name itself
    · intro earlier hearlier later hlater hnamed
      obtain rfl := List.mem_singleton.1 hlater
      simp [CallArgument.isNamed, hname]
    · have hnodup := h.nodup
      rw [List.filterMap_reverse, List.nodup_reverse] at hnodup
      rw [← List.reverse_cons, List.filterMap_reverse, List.nodup_reverse,
        List.filterMap_cons_some hname]
      exact List.nodup_cons.2 ⟨hnew, hnodup⟩
    · simpa [or_imp, forall_and, hlegal] using h.each

/-- The arguments of a call are legal behind those that were read before them. -/
theorem SpellsArguments.legal : ∀ {start before text} (args : List CallArgument),
    SpellsArguments start before text args → LegalArguments before.reverse →
    LegalArguments (before.reverse ++ args)
  | _, before, _, [], _, hbefore => by rwa [List.append_nil]
  | _, before, _, argument :: args, h, hbefore => by
    cases h with
    | last hspells _ herror =>
      simpa using hbefore.concat herror hspells.legal
    | more hspells _ herror _ hmore =>
      simpa using SpellsArguments.legal args hmore (hbefore.concat herror hspells.legal)

/-! ### Expressions and patterns -/

theorem SpellsSelector.canSelect {expression : Expression}
    (h : SpellsSelector start text expression next)
    (herror : Parser.selectorError? expression = none) : expression.CanSelect := by
  cases h with
  | reference _ _ => simpa [Parser.selectorError?, Expression.CanSelect] using herror
  | field _ _ _ => simpa [Parser.selectorError?, Expression.CanSelect] using herror
  | variant _ _ _ _ => cases herror
  | _ => trivial

theorem SpellsSelector.legal {expression : Expression}
    (h : SpellsSelector start text expression next) : expression.Legal := by
  cases h with
  | variant _ _ _ _ => simp [Expression.Legal, Identifier.isTerm, identifierAt]
  | call _ hcallee _ hargs =>
    exact ⟨hcallee, SpellsArguments.legal _ hargs legalArguments_nil⟩
  | _ => trivial

theorem SpellsVariants.legal {selector : Option Expression} {variants : List Variant}
    {defaultIndex : Nat} (h : SpellsVariants start text 0 none variants defaultIndex)
    (hselector : ∀ expression ∈ selector, expression.CanSelect) (span : Span) :
    (Expression.select selector variants defaultIndex span).Legal := by
  obtain ⟨hcount, index, variant, hindex, hfound, hdefault⟩ := h.hasDefault
  rw [Nat.zero_add] at hindex
  subst hindex
  refine ⟨hselector, ?_, hcount, variant, hfound, hdefault⟩
  rintro rfl
  cases hfound

theorem SpellsPlaceable.legal {expression : Expression}
    (h : SpellsPlaceable start text expression) : expression.Legal := by
  cases h with
  | selector _ hspells _ _ => exact hspells.legal
  | choice _ hspells _ herror _ hvariants _ _ =>
    refine hvariants.legal (fun expression hexpression => ?_) _
    obtain rfl := Option.some.inj hexpression
    exact hspells.canSelect herror
  | bare _ hvariants _ _ => exact hvariants.legal (fun _ hnone => by cases hnone) _

theorem SpellsPlaceable.isTermAttribute_eq_false {expression : Expression}
    (h : SpellsPlaceable start text expression) : Parser.isTermAttribute expression = false := by
  cases h with
  | selector _ _ _ hplaced => exact hplaced
  | choice _ _ _ _ _ _ _ _ => rfl
  | bare _ _ _ _ => rfl

/-- Every placeable among elements that are spelled is spelled. -/
theorem SpellsElements.exists_placeable : ∀ {start text} (elements : List PatternElement),
    SpellsElements start text elements →
    ∀ expression span, .placeable expression span ∈ elements →
      ∃ start text, SpellsPlaceable start text expression
  | _, _, [], _, _, _, hmem => by cases hmem
  | _, _, .text _ _ :: elements, h, expression, span, hmem => by
    cases h with
    | text _ _ hrest =>
      exact SpellsElements.exists_placeable elements hrest expression span
        (List.mem_of_ne_of_mem (by simp) hmem)
  | _, _, .placeable _ _ :: elements, h, expression, span, hmem => by
    cases h with
    | placeable hinner hrest =>
      rcases List.mem_cons.1 hmem with heq | hmem
      · cases heq
        exact ⟨_, _, hinner⟩
      · exact SpellsElements.exists_placeable elements hrest expression span hmem

theorem Subtree.Spelled.legal {subtree : Subtree} (h : subtree.Spelled) : subtree.Legal := by
  cases subtree with
  | pattern content =>
    obtain ⟨start, text, hspells, hvisible⟩ := h
    obtain ⟨kept, blanks, htrimmed, -, -⟩ := hspells.exists_elements hvisible
    intro expression span hmem
    obtain ⟨_, _, hplaceable⟩ := htrimmed.spells.exists_placeable _ expression span hmem
    exact hplaceable.isTermAttribute_eq_false
  | expression content =>
    rcases h with ⟨_, _, _, hspells⟩ | ⟨_, _, hspells⟩
    · exact hspells.legal
    · exact hspells.legal

/-- Whatever is read is legal: every choice has a selector that can decide it and one default, where
its index says; every call has a name for a callee and arguments in order; and no placeable holds
the attribute of a term. -/
theorem Resource.parse_legal (source : String) : (parse source).Legal :=
  fun _ hsubtree => (spelled_of_mem_subtrees hsubtree).legal

end Localization
