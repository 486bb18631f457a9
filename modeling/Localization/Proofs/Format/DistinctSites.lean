import Localization.Proofs.Format.Sites
import Mathlib.Data.List.Nodup

/-!
# No two patterns at one site

The path of a site lists the choices on the way to it, the last one first, so what stands below
different parts of a tree has different paths. That is why a site tells apart all patterns of a
store, even those of the same text.

## Main definitions

* `Site.Below` — a site at or below another one
* `Apart` — patterns below a site, no two of them at one place

## Main statements

* `Pattern.apart`, `Message.apart` — the patterns of a tree stand at different sites
* `Store.Stands.unique` — at a site of a store stands one pattern
-/

namespace Localization

/-! ### Below a site -/

namespace Site

variable {site inner : Site} {i j : Nat}

/-- A site is the other one, or further down in the same tree. -/
def Below (site inner : Site) : Prop := inner.root = site.root ∧ site.path <:+ inner.path

theorem below_refl (site : Site) : site.Below site := ⟨rfl, List.suffix_refl _⟩

theorem Below.of_part (h : (site.part i).Below inner) : site.Below inner :=
  ⟨h.1, (List.suffix_cons i site.path).trans h.2⟩

/-- No site is below one of its own parts. -/
theorem not_below_part : ¬(site.part i).Below site := by
  intro h
  exact absurd h.2.length_le (Nat.not_succ_le_self _)

/-- A site is below one part only. -/
theorem Below.part_inj (hi : (site.part i).Below inner) (hj : (site.part j).Below inner) :
    i = j := by
  -- both paths end the path of the inner site, and they are of the same length
  have hsuffix : i :: site.path <:+ j :: site.path :=
    List.suffix_of_suffix_length_le hi.2 hj.2 (Nat.le_refl _)
  exact (List.cons.inj (hsuffix.eq_of_length rfl)).1

end Site

/-! ### Patterns that stand apart -/

/-- Patterns at or below a site, at different sites. -/
structure Apart (site : Site) (located : List (Pattern × Site)) : Prop where
  below : ∀ inner ∈ located, site.Below inner.2
  nodup : (located.map Prod.snd).Nodup

/-- Patterns below the parts of a site from an index on, at different sites. -/
structure ApartFrom (site : Site) (index : Nat) (located : List (Pattern × Site)) : Prop where
  below : ∀ inner ∈ located, ∃ i, index ≤ i ∧ (site.part i).Below inner.2
  nodup : (located.map Prod.snd).Nodup

variable {site : Site} {index : Nat} {first located : List (Pattern × Site)}

theorem Apart.nil (site : Site) : Apart site [] := ⟨nofun, .nil⟩

theorem ApartFrom.nil (site : Site) (index : Nat) : ApartFrom site index [] := ⟨nofun, .nil⟩

/-- What stands below one part stands apart from what stands below later ones. -/
theorem Apart.append (h : Apart (site.part index) first)
    (hrest : ApartFrom site (index + 1) located) : ApartFrom site index (first ++ located) := by
  constructor
  · intro inner hinner
    rcases List.mem_append.1 hinner with hinner | hinner
    · exact ⟨index, Nat.le_refl _, h.below inner hinner⟩
    · obtain ⟨i, hle, hbelow⟩ := hrest.below inner hinner
      exact ⟨i, Nat.le_of_succ_le hle, hbelow⟩
  · rw [List.map_append]
    refine h.nodup.append hrest.nodup fun shared hfirst hlater => ?_
    obtain ⟨inner, hinner, rfl⟩ := List.mem_map.1 hfirst
    obtain ⟨later, hmem, hsame⟩ := List.mem_map.1 hlater
    obtain ⟨i, hle, hbelow⟩ := hrest.below later hmem
    rw [hsame] at hbelow
    have heq : index = i := (h.below inner hinner).part_inj hbelow
    omega

/-- What stands apart from some part on stands apart. -/
theorem ApartFrom.apart (h : ApartFrom site index located) : Apart site located := by
  refine ⟨fun inner hinner => ?_, h.nodup⟩
  obtain ⟨_, -, hbelow⟩ := h.below inner hinner
  exact hbelow.of_part

/-- A pattern stands apart from those below its parts. -/
theorem ApartFrom.cons (h : ApartFrom site index located) (content : Pattern) :
    Apart site ((content, site) :: located) := by
  refine ⟨List.forall_mem_cons.2 ⟨site.below_refl, h.apart.below⟩, ?_⟩
  rw [List.map_cons]
  refine List.nodup_cons.2 ⟨fun hmem => ?_, h.nodup⟩
  obtain ⟨inner, hinner, hsame⟩ := List.mem_map.1 hmem
  obtain ⟨i, -, hbelow⟩ := h.below inner hinner
  rw [hsame] at hbelow
  exact Site.not_below_part hbelow

/-- At one site stands one pattern. -/
theorem Apart.eq_of_mem (h : Apart site located) {content content' : Pattern} {inner : Site}
    (hmem : (content, inner) ∈ located) (hmem' : (content', inner) ∈ located) :
    content = content' :=
  congrArg Prod.fst (List.inj_on_of_nodup_map h.nodup hmem hmem' rfl)

/-! ### Patterns in a tree -/

mutual

/-- Below a pattern no two patterns stand at the same site. -/
theorem Pattern.apart : ∀ (pattern : Pattern) (site : Site), Apart site (pattern.located site)
  | ⟨elements, _⟩, site => (elements_apart elements site 0).cons _

theorem elements_apart : ∀ (elements : List PatternElement) (site : Site) (index : Nat),
    ApartFrom site index (elementsLocated elements site index)
  | [], site, index => .nil site index
  | element :: rest, site, index =>
    (element.apart (site.part index)).append (elements_apart rest site (index + 1))

theorem PatternElement.apart : ∀ (element : PatternElement) (site : Site),
    Apart site (element.located site)
  | .text _ _, site => .nil site
  | .placeable expression _, site => expression.apart site

/-- Below an expression no two patterns stand at the same site. -/
theorem Expression.apart : ∀ (expression : Expression) (site : Site),
    Apart site (expression.located site)
  | .select selector variants _ _, site =>
    -- the selector is the first part of a choice, and its variants are the other ones
    ((selector_apart selector (site.part 0)).append (variants_apart variants site 0)).apart
  | .call _ args _, site => (arguments_apart args site 0).apart
  | .stringLiteral _ _, site => .nil site
  | .numberLiteral _ _, site => .nil site
  | .messageReference _, site => .nil site
  | .variableReference _ _, site => .nil site
  | .attribute _ _ _, site => .nil site
  | .variant _ _ _, site => .nil site

theorem selector_apart : ∀ (selector : Option Expression) (site : Site),
    Apart site (selectorLocated selector site)
  | none, site => .nil site
  | some expression, site => expression.apart site

theorem variants_apart : ∀ (variants : List Variant) (site : Site) (index : Nat),
    ApartFrom site (index + 1) (variantsLocated variants site index)
  | [], site, index => .nil site (index + 1)
  | variant :: rest, site, index =>
    (variant.apart (site.part (index + 1))).append (variants_apart rest site (index + 1))

theorem Variant.apart : ∀ (variant : Variant) (site : Site), Apart site (variant.located site)
  | ⟨_, value, _, _⟩, site => value.apart site

theorem arguments_apart : ∀ (args : List CallArgument) (site : Site) (index : Nat),
    ApartFrom site index (argumentsLocated args site index)
  | [], site, index => .nil site index
  | argument :: rest, site, index =>
    (argument.apart (site.part index)).append (arguments_apart rest site (index + 1))

theorem CallArgument.apart : ∀ (argument : CallArgument) (site : Site),
    Apart site (argument.located site)
  | .positional value, site => value.apart site
  | .named _ value _, site => value.apart site

end

/-! ### Patterns of a store -/

namespace Message

variable (root : Root)

/-- No two patterns of attributes stand at the same site, nor does one at that of the value. -/
theorem attributes_apart (attributes : List Attribute) (index : Nat) :
    ApartFrom ⟨root, []⟩ (index + 1) (attributesLocated root attributes index) := by
  induction attributes generalizing index with
  | nil => exact .nil _ _
  | cons named rest ih =>
    exact (named.value.apart (Site.part ⟨root, []⟩ (index + 1))).append (ih (index + 1))

/-- The patterns of a message stand at different sites. -/
theorem apart (message : Message) : Apart ⟨root, []⟩ (message.located root) := by
  have hvalue : Apart (.value root) ((message.value.map (·.located (.value root))).getD []) := by
    cases message.value with
    | none => exact .nil _
    | some pattern => exact pattern.apart _
  -- the value is the first part of a message, and its attributes are the other ones
  exact ApartFrom.apart (Apart.append hvalue (attributes_apart root message.attributes 0))

end Message

/-- At a site of a store stands one pattern. -/
theorem Store.Stands.unique {store : Store} {content content' : Pattern}
    (h : store.Stands content site) (h' : store.Stands content' site) : content = content' := by
  obtain ⟨message, hfind, hmem⟩ := h
  obtain ⟨message', hfind', hmem'⟩ := h'
  obtain rfl : message = message' := Option.some.inj (hfind.symm.trans hfind')
  exact (message.apart site.root).eq_of_mem hmem hmem'

end Localization
