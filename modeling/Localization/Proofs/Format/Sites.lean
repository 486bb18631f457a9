import Localization.Format.Store
import Mathlib.Data.List.Dedup
import Mathlib.Logic.Relation
import Mathlib.Tactic.Common

/-!
# Patterns and what they refer to

Every pattern in a message stands at a site of its own: a variant below the pattern that holds it,
a value or an attribute at the top. What a pattern refers to by name are messages and terms; the
patterns nested in it refer to no more than it does.

## Main definitions

* `Pattern.located`, `Message.located`, `Store.located` — the patterns in a tree with their sites
* `Pattern.mentions`, `Message.mentions` — the messages and terms that a tree refers to
* `Store.find?`, `Store.Stands` — what a store holds, and where
* `Store.Parent`, `Store.Reaches`, `Store.Meets` — what leads to what by references

## Main statements

* `Pattern.inside`, `Expression.inside` — where nested patterns stand and what they refer to
* `Store.length_located` — there are as many sites as patterns
-/

namespace Localization

/-- The message or term that an identifier names. -/
def Identifier.root (id : Identifier) : Root :=
  if id.isTerm then .term id.name else .message id.name

/-! ### Patterns in a tree -/

mutual

/-- The patterns in a pattern, itself first, with their sites. -/
def Pattern.located : Pattern → Site → List (Pattern × Site)
  | ⟨elements, span⟩, site => (⟨elements, span⟩, site) :: elementsLocated elements site 0

/-- The patterns in pattern elements from an index on. -/
def elementsLocated : List PatternElement → Site → Nat → List (Pattern × Site)
  | [], _, _ => []
  | element :: rest, site, index =>
    element.located (site.part index) ++ elementsLocated rest site (index + 1)

/-- The patterns in a pattern element. -/
def PatternElement.located : PatternElement → Site → List (Pattern × Site)
  | .text _ _, _ => []
  | .placeable expression _, site => expression.located site

/-- The patterns in an expression. -/
def Expression.located : Expression → Site → List (Pattern × Site)
  | .stringLiteral _ _, _ => []
  | .numberLiteral _ _, _ => []
  | .messageReference _, _ => []
  | .variableReference _ _, _ => []
  | .select selector variants _ _, site =>
    selectorLocated selector site.selector ++ variantsLocated variants site 0
  | .attribute _ _ _, _ => []
  | .variant _ _ _, _ => []
  | .call _ args _, site => argumentsLocated args site 0

/-- The patterns in a selector. -/
def selectorLocated : Option Expression → Site → List (Pattern × Site)
  | none, _ => []
  | some expression, site => expression.located site

/-- The patterns in variants from an index on. -/
def variantsLocated : List Variant → Site → Nat → List (Pattern × Site)
  | [], _, _ => []
  | variant :: rest, site, index =>
    variant.located (site.variant index) ++ variantsLocated rest site (index + 1)

/-- The patterns in a variant. -/
def Variant.located : Variant → Site → List (Pattern × Site)
  | ⟨_, value, _, _⟩, site => value.located site

/-- The patterns in call arguments from an index on. -/
def argumentsLocated : List CallArgument → Site → Nat → List (Pattern × Site)
  | [], _, _ => []
  | argument :: rest, site, index =>
    argument.located (site.part index) ++ argumentsLocated rest site (index + 1)

/-- The patterns in a call argument. -/
def CallArgument.located : CallArgument → Site → List (Pattern × Site)
  | .positional value, site => value.located site
  | .named _ value _, site => value.located site

end

mutual

/-- The messages and terms that a pattern refers to. -/
def Pattern.mentions : Pattern → List Root
  | ⟨elements, _⟩ => elementsMentions elements

/-- The messages and terms that pattern elements refer to. -/
def elementsMentions : List PatternElement → List Root
  | [] => []
  | element :: rest => element.mentions ++ elementsMentions rest

/-- The messages and terms that a pattern element refers to. -/
def PatternElement.mentions : PatternElement → List Root
  | .text _ _ => []
  | .placeable expression _ => expression.mentions

/-- The messages and terms that an expression refers to. -/
def Expression.mentions : Expression → List Root
  | .stringLiteral _ _ => []
  | .numberLiteral _ _ => []
  | .messageReference id => [id.root]
  | .variableReference _ _ => []
  | .select selector variants _ _ => selectorMentions selector ++ variantsMentions variants
  | .attribute id _ _ => [id.root]
  | .variant term _ _ => [term.root]
  | .call _ args _ => argumentsMentions args

/-- The messages and terms that a selector refers to. -/
def selectorMentions : Option Expression → List Root
  | none => []
  | some expression => expression.mentions

/-- The messages and terms that variants refer to. -/
def variantsMentions : List Variant → List Root
  | [] => []
  | variant :: rest => variant.mentions ++ variantsMentions rest

/-- The messages and terms that a variant refers to. -/
def Variant.mentions : Variant → List Root
  | ⟨_, value, _, _⟩ => value.mentions

/-- The messages and terms that call arguments refer to. -/
def argumentsMentions : List CallArgument → List Root
  | [] => []
  | argument :: rest => argument.mentions ++ argumentsMentions rest

/-- The messages and terms that a call argument refers to. -/
def CallArgument.mentions : CallArgument → List Root
  | .positional value => value.mentions
  | .named _ value _ => value.mentions

end

/-! ### Nested patterns -/

/-- A pattern in a tree at a site: it stands below that site, and what it holds and refers to is
held and referred to by the tree. -/
structure Inside (located : List (Pattern × Site)) (mentions : List Root) (site : Site)
    (inner : Pattern × Site) : Prop where
  root : inner.2.root = site.root
  depth : site.path.length ≤ inner.2.path.length
  mentions : inner.1.mentions ⊆ mentions
  located : inner.1.located inner.2 ⊆ located

/-- What is inside a pattern is inside whatever holds more patterns and mentions, further up. -/
theorem Inside.mono {located located' : List (Pattern × Site)} {mentions mentions' : List Root}
    {site site' : Site} {inner : Pattern × Site} (h : Inside located mentions site inner)
    (hlocated : located ⊆ located') (hmentions : mentions ⊆ mentions')
    (hroot : site.root = site'.root) (hdepth : site'.path.length ≤ site.path.length) :
    Inside located' mentions' site' inner :=
  ⟨h.root.trans hroot, Nat.le_trans hdepth h.depth, List.Subset.trans h.mentions hmentions,
    List.Subset.trans h.located hlocated⟩

mutual

/-- All patterns nested in a pattern are inside it: they stand below it, and their own patterns and
mentions are among those of the whole. -/
theorem Pattern.inside : ∀ (pattern : Pattern) (site : Site),
    ∀ inner ∈ pattern.located site, Inside (pattern.located site) pattern.mentions site inner
  | ⟨elements, span⟩, site => fun inner hinner => by
    rcases List.mem_cons.1 hinner with rfl | hinner
    · exact ⟨rfl, Nat.le_refl _, List.Subset.refl _, List.Subset.refl _⟩
    · exact (elements_inside elements site 0 inner hinner).mono
        (List.subset_cons_self _ _) (List.Subset.refl _) rfl (Nat.le_refl _)

theorem elements_inside : ∀ (elements : List PatternElement) (site : Site) (index : Nat),
    ∀ inner ∈ elementsLocated elements site index,
      Inside (elementsLocated elements site index) (elementsMentions elements) site inner
  | [], _, _ => fun _ hinner => by simp [elementsLocated] at hinner
  | element :: rest, site, index => fun inner hinner => by
    rcases List.mem_append.1 hinner with hinner | hinner
    · exact (element.inside (site.part index) inner hinner).mono
        (List.subset_append_left _ _) (List.subset_append_left _ _) rfl (Nat.le_succ _)
    · exact (elements_inside rest site (index + 1) inner hinner).mono
        (List.subset_append_right _ _) (List.subset_append_right _ _) rfl (Nat.le_refl _)

theorem PatternElement.inside : ∀ (element : PatternElement) (site : Site),
    ∀ inner ∈ element.located site, Inside (element.located site) element.mentions site inner
  | .text _ _, _ => fun _ hinner => by simp [PatternElement.located] at hinner
  | .placeable expression _, site => fun inner hinner => expression.inside site inner hinner

/-- All patterns nested in an expression are inside it. -/
theorem Expression.inside : ∀ (expression : Expression) (site : Site),
    ∀ inner ∈ expression.located site,
      Inside (expression.located site) expression.mentions site inner
  | .select selector variants _ _, site => fun inner hinner => by
    rcases List.mem_append.1 hinner with hinner | hinner
    · exact (selector_inside selector site.selector inner hinner).mono
        (List.subset_append_left _ _) (List.subset_append_left _ _) rfl (Nat.le_succ _)
    · exact (variants_inside variants site 0 inner hinner).mono
        (List.subset_append_right _ _) (List.subset_append_right _ _) rfl (Nat.le_refl _)
  | .call _ args _, site => fun inner hinner => arguments_inside args site 0 inner hinner
  | .stringLiteral _ _, _ => fun _ hinner => by simp [Expression.located] at hinner
  | .numberLiteral _ _, _ => fun _ hinner => by simp [Expression.located] at hinner
  | .messageReference _, _ => fun _ hinner => by simp [Expression.located] at hinner
  | .variableReference _ _, _ => fun _ hinner => by simp [Expression.located] at hinner
  | .attribute _ _ _, _ => fun _ hinner => by simp [Expression.located] at hinner
  | .variant _ _ _, _ => fun _ hinner => by simp [Expression.located] at hinner

theorem selector_inside : ∀ (selector : Option Expression) (site : Site),
    ∀ inner ∈ selectorLocated selector site,
      Inside (selectorLocated selector site) (selectorMentions selector) site inner
  | none, _ => fun _ hinner => by simp [selectorLocated] at hinner
  | some expression, site => fun inner hinner => expression.inside site inner hinner

theorem variants_inside : ∀ (variants : List Variant) (site : Site) (index : Nat),
    ∀ inner ∈ variantsLocated variants site index,
      Inside (variantsLocated variants site index) (variantsMentions variants) site inner
  | [], _, _ => fun _ hinner => by simp [variantsLocated] at hinner
  | variant :: rest, site, index => fun inner hinner => by
    rcases List.mem_append.1 hinner with hinner | hinner
    · exact (variant.inside (site.variant index) inner hinner).mono
        (List.subset_append_left _ _) (List.subset_append_left _ _) rfl (Nat.le_succ _)
    · exact (variants_inside rest site (index + 1) inner hinner).mono
        (List.subset_append_right _ _) (List.subset_append_right _ _) rfl (Nat.le_refl _)

theorem Variant.inside : ∀ (variant : Variant) (site : Site),
    ∀ inner ∈ variant.located site, Inside (variant.located site) variant.mentions site inner
  | ⟨_, value, _, _⟩, site => fun inner hinner => value.inside site inner hinner

theorem arguments_inside : ∀ (args : List CallArgument) (site : Site) (index : Nat),
    ∀ inner ∈ argumentsLocated args site index,
      Inside (argumentsLocated args site index) (argumentsMentions args) site inner
  | [], _, _ => fun _ hinner => by simp [argumentsLocated] at hinner
  | argument :: rest, site, index => fun inner hinner => by
    rcases List.mem_append.1 hinner with hinner | hinner
    · exact (argument.inside (site.part index) inner hinner).mono
        (List.subset_append_left _ _) (List.subset_append_left _ _) rfl (Nat.le_succ _)
    · exact (arguments_inside rest site (index + 1) inner hinner).mono
        (List.subset_append_right _ _) (List.subset_append_right _ _) rfl (Nat.le_refl _)

theorem CallArgument.inside : ∀ (argument : CallArgument) (site : Site),
    ∀ inner ∈ argument.located site, Inside (argument.located site) argument.mentions site inner
  | .positional value, site => fun inner hinner => value.inside site inner hinner
  | .named _ value _, site => fun inner hinner => value.inside site inner hinner

end

/-- The elements of a pattern stand strictly below it. -/
theorem elements_depth_lt (elements : List PatternElement) (site : Site) (index : Nat) :
    ∀ inner ∈ elementsLocated elements site index, site.path.length < inner.2.path.length := by
  induction elements generalizing index with
  | nil => intro inner hinner; simp [elementsLocated] at hinner
  | cons element rest ih =>
    intro inner hinner
    rcases List.mem_append.1 hinner with hinner | hinner
    · exact (element.inside (site.part index) inner hinner).depth
    · exact ih (index + 1) inner hinner

/-- The patterns below the elements of a pattern are among those of the pattern. -/
theorem located_subset_of_elements {content : Pattern} {site : Site} {inner : Pattern × Site}
    (h : inner ∈ elementsLocated content.elements site 0) :
    inner.1.located inner.2 ⊆ content.located site := by
  obtain ⟨elements, span⟩ := content
  exact List.Subset.trans (elements_inside elements site 0 inner h).located
    (List.subset_cons_self _ _)

/-- A pattern is listed at its own site. -/
theorem Pattern.mem_located_self (pattern : Pattern) (site : Site) :
    (pattern, site) ∈ pattern.located site := by
  cases pattern
  exact List.mem_cons_self

/-- What is listed of a variant is what is listed of its value. -/
theorem Variant.located_eq (variant : Variant) (site : Site) :
    variant.located site = variant.value.located site := by
  cases variant
  rfl

/-- A variant stands at its index. -/
theorem mem_variantsLocated {variants : List Variant} {variant : Variant} {index : Nat}
    (h : variants[index]? = some variant) (site : Site) (start : Nat) :
    (variant.value, site.variant (start + index)) ∈ variantsLocated variants site start := by
  induction variants generalizing index start with
  | nil => simp at h
  | cons first rest ih =>
    refine List.mem_append.2 ?_
    cases index with
    | zero =>
      obtain rfl : first = variant := by simpa using h
      left
      rw [first.located_eq]
      exact first.value.mem_located_self _
    | succ index =>
      right
      have hmem := ih (by simpa using h) (start + 1)
      rwa [Nat.add_assoc, Nat.add_comm 1] at hmem

/-! ### Counting -/

mutual

/-- As many sites are listed for a pattern as it has patterns. -/
theorem Pattern.length_located : ∀ (pattern : Pattern) (site : Site),
    (pattern.located site).length = pattern.patternCount
  | ⟨elements, _⟩, site => by
    rw [Pattern.located, Pattern.patternCount, List.length_cons, elements_length_located]

theorem elements_length_located : ∀ (elements : List PatternElement) (site : Site) (index : Nat),
    (elementsLocated elements site index).length = elementsCount elements
  | [], _, _ => rfl
  | element :: rest, site, index => by
    rw [elementsLocated, elementsCount, List.length_append, element.length_located,
      elements_length_located rest]

theorem PatternElement.length_located : ∀ (element : PatternElement) (site : Site),
    (element.located site).length = element.patternCount
  | .text _ _, _ => rfl
  | .placeable expression _, site => expression.length_located site

/-- As many sites are listed for an expression as it has patterns. -/
theorem Expression.length_located : ∀ (expression : Expression) (site : Site),
    (expression.located site).length = expression.patternCount
  | .select selector variants _ _, site => by
    rw [Expression.located, Expression.patternCount, List.length_append,
      selector_length_located selector, variants_length_located variants]
  | .call _ args _, site => arguments_length_located args site 0
  | .stringLiteral _ _, _ => rfl
  | .numberLiteral _ _, _ => rfl
  | .messageReference _, _ => rfl
  | .variableReference _ _, _ => rfl
  | .attribute _ _ _, _ => rfl
  | .variant _ _ _, _ => rfl

theorem selector_length_located : ∀ (selector : Option Expression) (site : Site),
    (selectorLocated selector site).length = selectorCount selector
  | none, _ => rfl
  | some expression, site => expression.length_located site

theorem variants_length_located : ∀ (variants : List Variant) (site : Site) (index : Nat),
    (variantsLocated variants site index).length = variantsCount variants
  | [], _, _ => rfl
  | variant :: rest, site, index => by
    rw [variantsLocated, variantsCount, List.length_append, variant.length_located,
      variants_length_located rest]

theorem Variant.length_located : ∀ (variant : Variant) (site : Site),
    (variant.located site).length = variant.patternCount
  | ⟨_, value, _, _⟩, site => value.length_located site

theorem arguments_length_located : ∀ (args : List CallArgument) (site : Site) (index : Nat),
    (argumentsLocated args site index).length = argumentsCount args
  | [], _, _ => rfl
  | argument :: rest, site, index => by
    rw [argumentsLocated, argumentsCount, List.length_append, argument.length_located,
      arguments_length_located rest]

theorem CallArgument.length_located : ∀ (argument : CallArgument) (site : Site),
    (argument.located site).length = argument.patternCount
  | .positional value, site => value.length_located site
  | .named _ value _, site => value.length_located site

end

/-! ### Messages -/

namespace Message

variable (message : Message) (root : Root)

/-- The patterns in attributes from an index on, with their sites. -/
def attributesLocated : List Attribute → Nat → List (Pattern × Site)
  | [], _ => []
  | named :: rest, index =>
    named.value.located (.attributeAt root index) ++ attributesLocated rest (index + 1)

/-- The patterns in a message, with their sites. -/
def located : List (Pattern × Site) :=
  (message.value.map (·.located (.value root))).getD [] ++
    attributesLocated root message.attributes 0

/-- The messages and terms that a message refers to. -/
def mentions : List Root :=
  (message.value.map Pattern.mentions).getD [] ++
    message.attributes.flatMap (·.value.mentions)

/-- All patterns in the attributes are inside what is listed and mentioned of the attributes. -/
theorem attributes_inside (attributes : List Attribute) (index : Nat) :
    ∀ inner ∈ attributesLocated root attributes index,
      Inside (attributesLocated root attributes index)
        (attributes.flatMap (·.value.mentions)) ⟨root, []⟩ inner := by
  induction attributes generalizing index with
  | nil => intro inner hinner; simp [attributesLocated] at hinner
  | cons named rest ih =>
    intro inner hinner
    rw [List.flatMap_cons]
    rcases List.mem_append.1 hinner with hinner | hinner
    · exact (named.value.inside _ inner hinner).mono (List.subset_append_left _ _)
        (List.subset_append_left _ _) rfl (Nat.zero_le _)
    · exact (ih (index + 1) inner hinner).mono (List.subset_append_right _ _)
        (List.subset_append_right _ _) rfl (Nat.le_refl _)

/-- The patterns in a message stand below it and refer to what it refers to. -/
theorem inside : ∀ inner ∈ message.located root,
    Inside (message.located root) message.mentions ⟨root, []⟩ inner := by
  intro inner hinner
  unfold located mentions at *
  rcases List.mem_append.1 hinner with hinner | hinner
  · cases hvalue : message.value with
    | none => simp [hvalue] at hinner
    | some pattern =>
      rw [hvalue] at hinner
      exact (pattern.inside _ inner hinner).mono (List.subset_append_left _ _)
        (List.subset_append_left _ _) rfl (Nat.zero_le _)
  · exact (attributes_inside root _ 0 inner hinner).mono (List.subset_append_right _ _)
      (List.subset_append_right _ _) rfl (Nat.le_refl _)

theorem attributes_length_located (attributes : List Attribute) (index : Nat) :
    (attributesLocated root attributes index).length =
      attributes.foldr (fun named count => named.value.patternCount + count) 0 := by
  induction attributes generalizing index with
  | nil => rfl
  | cons named rest ih =>
    rw [attributesLocated, List.length_append, ih, named.value.length_located, List.foldr_cons]

/-- As many sites are listed for a message as it has patterns. -/
theorem length_located : (message.located root).length = message.patternCount := by
  unfold located patternCount
  rw [List.length_append, attributes_length_located]
  cases message.value with
  | none => rfl
  | some pattern => simp [pattern.length_located]

variable {message root}

/-- The value of a message is listed at its site. -/
theorem value_mem_located {pattern : Pattern} (h : message.value = some pattern) :
    (pattern, Site.value root) ∈ message.located root := by
  unfold located
  rw [h]
  exact List.mem_append_left _ (pattern.mem_located_self _)

/-- Each attribute is listed under its index. -/
theorem attribute_mem_attributesLocated {attributes : List Attribute} {named : Attribute}
    {index : Nat} (h : attributes[index]? = some named) (start : Nat) :
    (named.value, Site.attributeAt root (start + index)) ∈
      attributesLocated root attributes start := by
  induction attributes generalizing index start with
  | nil => simp at h
  | cons first rest ih =>
    refine List.mem_append.2 ?_
    cases index with
    | zero =>
      obtain rfl : first = named := by simpa using h
      exact .inl (first.value.mem_located_self _)
    | succ index =>
      have hmem := ih (by simpa using h) (start + 1)
      rw [Nat.add_assoc, Nat.add_comm 1] at hmem
      exact .inr hmem

/-- The first attribute of a name stands at the index of that name. -/
theorem attribute_mem_located {name : String} {index : Nat} {named : Attribute}
    (hindex : message.attributeIndex? name = some index)
    (hnamed : message.attribute? name = some named) :
    (named.value, Site.attributeAt root index) ∈ message.located root := by
  have hget : message.attributes[index]? = some named := by
    obtain ⟨hlt, hname, hbefore⟩ := List.findIdx?_eq_some_iff_getElem.1 hindex
    rw [List.getElem?_eq_getElem hlt, ← hnamed]
    symm
    exact List.find?_eq_some_iff_getElem.2 ⟨hname, index, hlt, rfl,
      fun j hj => by simpa using hbefore j hj⟩
  have hmem : (named.value, Site.attributeAt root index) ∈ _ :=
    (Nat.zero_add index) ▸ attribute_mem_attributesLocated hget 0
  exact List.mem_append_right _ hmem

end Message

/-! ### Stores -/

namespace Store

variable (store : Store)

/-- The message or term of a root. -/
def find? : Root → Option Message
  | .message id => store.messages.get? id
  | .term id => store.terms.get? id
  | .loose => none

/-- The patterns of a store, with their sites. -/
def located : List (Pattern × Site) :=
  store.messages.entries.flatMap (fun entry => entry.2.located (.message entry.1)) ++
    store.terms.entries.flatMap (fun entry => entry.2.located (.term entry.1))

/-- A pattern of the store stands at a site. -/
def Stands (pattern : Pattern) (site : Site) : Prop :=
  ∃ message, store.find? site.root = some message ∧ (pattern, site) ∈ message.located site.root

variable {store} {root : Root} {message : Message}

/-- What is listed of a message that the store finds stands in the store. -/
theorem stands_of_mem {pattern : Pattern} {site : Site} (hfind : store.find? root = some message)
    (hmem : (pattern, site) ∈ message.located root) : store.Stands pattern site := by
  obtain rfl : site.root = root := (message.inside root _ hmem).root
  exact ⟨message, hfind, hmem⟩

theorem mem_entries_of_get? {α : Type} {table : Bindings α} {name : String} {value : α}
    (h : table.get? name = some value) : (name, value) ∈ table.entries := by
  obtain ⟨before, after, hentries, -⟩ := List.lookup_eq_some_iff.1 h
  rw [hentries]
  simp

/-- The sites of the store include those of each message that it finds. -/
theorem located_subset (hfind : store.find? root = some message) :
    message.located root ⊆ store.located := by
  intro inner hinner
  cases root with
  | message id =>
    exact List.mem_append_left _ (List.mem_flatMap.2 ⟨_, mem_entries_of_get? hfind, hinner⟩)
  | term id =>
    exact List.mem_append_right _ (List.mem_flatMap.2 ⟨_, mem_entries_of_get? hfind, hinner⟩)
  | loose => cases hfind

/-- What stands in the store is no loose pattern. -/
theorem Stands.ne_loose {pattern : Pattern} {site : Site} (h : store.Stands pattern site) :
    site.root ≠ .loose := by
  obtain ⟨message, hfind, -⟩ := h
  intro hroot
  rw [hroot] at hfind
  cases hfind

/-- What a pattern of the store holds stands in the store. -/
theorem Stands.nested {pattern : Pattern} {site : Site} {inner : Pattern × Site}
    (h : store.Stands pattern site) (hinner : inner ∈ pattern.located site) :
    store.Stands inner.1 inner.2 := by
  obtain ⟨message, hfind, hmem⟩ := h
  exact stands_of_mem hfind ((message.inside _ _ hmem).located hinner)

/-- What a pattern of the store holds is held by the store. -/
theorem Stands.located_subset {pattern : Pattern} {site : Site} (h : store.Stands pattern site) :
    pattern.located site ⊆ store.located := by
  obtain ⟨message, hfind, hmem⟩ := h
  exact List.Subset.trans (message.inside _ _ hmem).located (Store.located_subset hfind)

/-! ### References -/

variable (store) in
/-- A message or term of the store refers to another one, from its value, an attribute or a variant
in them. -/
def Parent (parent child : Root) : Prop :=
  ∃ message, store.find? parent = some message ∧ child ∈ message.mentions

variable (store) in
/-- A message or term that is reached by references from a pattern. -/
def Reaches (start : Pattern) (root : Root) : Prop :=
  ∃ first ∈ start.mentions, Relation.ReflTransGen store.Parent first root

variable (store) in
/-- A pattern that resolving may come to from another one: it stands in that pattern, or in a
message or term that is reached from there. -/
def Meets (start : Pattern) (site : Site) (inner : Pattern × Site) : Prop :=
  inner ∈ start.located site ∨ store.Stands inner.1 inner.2 ∧ store.Reaches start inner.2.root

section

variable {content content' : Pattern} {site site' : Site} {inner : Pattern × Site}

/-- What a pattern of the store refers to, its message refers to. -/
theorem Stands.parent (h : store.Stands content site) (hroot : root ∈ content.mentions) :
    store.Parent site.root root := by
  obtain ⟨message, hfind, hmem⟩ := h
  exact ⟨message, hfind, (message.inside _ _ hmem).mentions hroot⟩

/-- A pattern with more mentions reaches more entries. -/
theorem Reaches.mono (h : store.Reaches content root)
    (hmentions : content.mentions ⊆ content'.mentions) : store.Reaches content' root := by
  obtain ⟨first, hfirst, hleads⟩ := h
  exact ⟨first, hmentions hfirst, hleads⟩

/-- What a message or term leads to that a pattern refers to is reached from there. -/
theorem Stands.reaches (h : store.Stands content' site') (hroot : site'.root ∈ content.mentions)
    (hreaches : store.Reaches content' root) : store.Reaches content root := by
  obtain ⟨first, hfirst, hleads⟩ := hreaches
  exact ⟨site'.root, hroot, .head (h.parent hfirst) hleads⟩

/-- A run meets the pattern that it starts with. -/
theorem meets_self (store : Store) (content : Pattern) (site : Site) :
    store.Meets content site (content, site) := .inl (content.mem_located_self site)

/-- From a nested pattern nothing is met that is not met from the pattern around it. -/
theorem Meets.of_nested {nested : Pattern × Site} (h : store.Meets nested.1 nested.2 inner)
    (hnested : nested ∈ elementsLocated content.elements site 0) :
    store.Meets content site inner := by
  refine h.imp (located_subset_of_elements hnested ·) (And.imp_right fun hreaches => ?_)
  refine hreaches.mono ?_
  obtain ⟨elements, span⟩ := content
  exact (elements_inside elements site 0 nested hnested).mentions

/-- From a pattern that is referred to nothing is met that is not met from where it is. -/
theorem Meets.of_referred (h : store.Meets content' site' inner)
    (hroot : site'.root ∈ content.mentions) (hstands : store.Stands content' site') :
    store.Meets content site inner := by
  rcases h with hinner | ⟨hinner, hreaches⟩
  · have hinside : inner.2.root = site'.root := (content'.inside site' inner hinner).root
    exact .inr ⟨hstands.nested hinner, hinside ▸ ⟨site'.root, hroot, .refl⟩⟩
  · exact .inr ⟨hinner, hstands.reaches hroot hreaches⟩

/-- All that a run meets is listed, in the store or in the pattern that it starts with. -/
theorem Meets.mem (h : store.Meets content site inner) :
    inner ∈ store.located ++ content.located site := by
  rcases h with hinner | ⟨hstands, -⟩
  · exact List.mem_append_right _ hinner
  · exact List.mem_append_left _ (hstands.located_subset (inner.1.mem_located_self inner.2))

end

/-- A store has as many sites as patterns. -/
theorem length_located (store : Store) : store.located.length = store.patternCount := by
  have hcount : ∀ (root : String → Root) (entries : List (String × Message)),
      (entries.flatMap fun entry => entry.2.located (root entry.1)).length =
        entries.foldr (fun entry count => entry.2.patternCount + count) 0 := by
    intro root entries
    induction entries with
    | nil => rfl
    | cons entry rest ih =>
      rw [List.flatMap_cons, List.length_append, ih, Message.length_located, List.foldr_cons]
  unfold located patternCount
  rw [List.length_append, hcount .message, hcount .term]

end Store

end Localization
