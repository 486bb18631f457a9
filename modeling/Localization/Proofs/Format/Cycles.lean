import Localization.Proofs.Format.Nesting

/-!
# Cyclic references

A message or term is a parent of those that its patterns refer to. Where no parent can be reached
from itself, a pattern is never met again while it is being resolved: below it stand patterns of
longer paths in the same message, and what it refers to are other messages. Then resolving gives
what it gives without looking at the visited sites at all.

## Main definitions

* `Store.Acyclic` — no reference leads back to where it comes from
* `Resolver.unguarded` — resolving without visited sites
* `Environment.FailsAsCyclic` — a call that is made fails as a cyclic pattern does

## Main statements

* `Resolver.pattern_alike_unguarded` — without cycles the visited sites make no difference
* `Environment.format_acyclic` — without cycles no pattern is reported as cyclic, and the text and
  the errors are those without visited sites
-/

namespace Localization

open Relation (ReflTransGen TransGen)

/-! ### The graph of references -/

namespace Store

variable (store : Store)

/-- No message or term that is reached from the pattern leads back to itself. -/
def Acyclic (start : Pattern) : Prop :=
  ∀ root, store.Reaches start root → ¬TransGen store.Parent root root

variable {store} {start content : Pattern} {site : Site} {chain : List Site}

/-- On the way from the start to a pattern stand patterns that hold it and patterns of messages and
terms that lead to it. -/
structure Descends (store : Store) (start : Pattern) (chain : List Site) (content : Pattern)
    (site : Site) : Prop where
  above : ∀ entered ∈ chain,
    entered.root = site.root ∧ entered.path.length < site.path.length ∨
      store.Reaches start site.root ∧ site.root ≠ .loose ∧
        (entered.root = .loose ∨ TransGen store.Parent entered.root site.root)
  mentions : ∀ root ∈ content.mentions,
    store.Reaches start root ∧ (site.root = .loose ∨ store.Parent site.root root)

theorem descends_start (h : site.root = .loose ∨ store.Stands start site) :
    Descends store start [] start site where
  above := by simp
  mentions root hroot :=
    ⟨⟨root, hroot, .refl⟩, h.imp_right fun hstands => hstands.parent hroot⟩

/-- A pattern is not met again on the way. -/
theorem Descends.not_mem (h : Descends store start chain content site)
    (hacyclic : store.Acyclic start) : site ∉ chain := by
  intro hmem
  rcases h.above site hmem with ⟨-, hlt⟩ | ⟨hreaches, hloose, hroot | hcycle⟩
  · exact Nat.lt_irrefl _ hlt
  · exact hloose hroot
  · exact hacyclic _ hreaches hcycle

/-- The way to a nested pattern. -/
theorem Descends.nested (h : Descends store start chain content site) {inner : Pattern × Site}
    (hinner : inner ∈ elementsLocated content.elements site 0) :
    Descends store start (site :: chain) inner.1 inner.2 := by
  have hinside := elements_inside content.elements site 0 inner hinner
  have hdepth := elements_depth_lt content.elements site 0 inner hinner
  refine ⟨fun entered hentered => ?_, fun root hroot => ?_⟩
  · rw [hinside.root]
    rcases List.mem_cons.1 hentered with rfl | hentered
    · exact .inl ⟨rfl, hdepth⟩
    · exact (h.above entered hentered).imp_left fun ⟨hroot, hlt⟩ => ⟨hroot, Nat.lt_trans hlt hdepth⟩
  · rw [hinside.root]
    obtain ⟨elements, span⟩ := content
    exact h.mentions root (hinside.mentions hroot)

/-- The way to a pattern that is referred to. -/
theorem Descends.referred (h : Descends store start chain content site) {content' : Pattern}
    {site' : Site} (hroot : site'.root ∈ content.mentions) (hstands : store.Stands content' site') :
    Descends store start (site :: chain) content' site' := by
  obtain ⟨hreaches, hparent⟩ := h.mentions _ hroot
  have habove : site.root = .loose ∨ TransGen store.Parent site.root site'.root :=
    hparent.imp_right .single
  refine ⟨fun entered hentered => .inr ⟨hreaches, hstands.ne_loose, ?_⟩, fun root hmem => ⟨?_, ?_⟩⟩
  -- all that was entered leads to where this pattern stands, and so to what it refers to
  · rcases List.mem_cons.1 hentered with rfl | hentered
    · exact habove
    · rcases h.above entered hentered with ⟨heq, -⟩ | ⟨-, hloose, hentered⟩
      · rwa [heq]
      · exact hentered.imp_right fun hleads => hleads.tail (hparent.resolve_left hloose)
  · obtain ⟨first, hfirst, hleads⟩ := hreaches
    exact ⟨first, hfirst, hleads.tail (hstands.parent hmem)⟩
  · exact .inr (hstands.parent hmem)

end Store

/-! ### Resolving without visited sites -/

namespace Resolver

variable {env : Environment} {P : ResolveError → Prop}

/-- Resolving patterns up to a nesting depth without visited sites. Below that depth, `bottom`
takes over. -/
def unguarded (env : Environment) (bottom : Enter) (depth : Nat) (content : Pattern) (site : Site) :
    Resolver Value :=
  match content.simpleText? with
  | some text => return .string text
  | none =>
    match depth with
    | 0 => bottom content site
    | depth + 1 => joined env (unguarded env bottom depth) content site

/-- Without cycles the visited sites make no difference. -/
theorem pattern_alike_unguarded (hP : Reports env P) (bottom : Enter) {sites : List Site}
    (hstore : env.store.located.map Prod.snd ⊆ sites) {start : Pattern}
    (hacyclic : env.store.Acyclic start) :
    ∀ (room depth : Nat) (chain : List Site) (content : Pattern) (site : Site),
      Chain sites chain → (content.located site).map Prod.snd ⊆ sites →
      sites.length ≤ room + chain.length → sites.length ≤ depth + chain.length →
      env.store.Descends start chain content site →
      Alike P chain [] (pattern env room content site)
        (unguarded env bottom depth content site) := by
  intro room
  -- the chain holds the visited sites; with each of them there is one left less to enter
  induction room using Nat.strongRecOn with
  | ind room ih =>
    intro depth chain content site hchain hcontent hroom hdepth hdescends
    rw [pattern.eq_def, unguarded.eq_def]
    cases content.simpleText? with
    | some text => exact .pure _
    | none =>
      -- an acyclic store never leads back into the chain, so the guard lets the pattern through
      have hsite := hdescends.not_mem hacyclic
      have hchain' := hchain.cons hsite
        (hcontent (List.mem_map_of_mem (content.mem_located_self site)))
      obtain ⟨room, rfl, hroom'⟩ := hchain'.exists_succ hroom
      obtain ⟨depth, rfl, hdepth'⟩ := hchain'.exists_succ hdepth
      refine .ask_left hsite (.visit_left ?_)
      refine joined_alike hP (pattern_tidy room)
        ⟨fun inner hinner => ?_, fun content' site' hroot hstands => ?_⟩
      · exact ih room (Nat.lt_succ_self room) depth _ _ _ hchain'
          (List.Subset.trans (List.map_subset _ (located_subset_of_elements hinner)) hcontent)
          hroom' hdepth'
          (hdescends.nested hinner)
      · exact ih room (Nat.lt_succ_self room) depth _ _ _ hchain'
          (List.Subset.trans (List.map_subset _ hstands.located_subset) hstore) hroom' hdepth'
          (hdescends.referred hroot hstands)

end Resolver

/-! ### Errors of functions -/

namespace Builtin

variable {α β : Type}

theorem bind_ne_cyclic {x : Except ResolveError α} {k : α → Except ResolveError β}
    (hx : x ≠ .error .cyclic) (hk : ∀ a, k a ≠ .error .cyclic) : x >>= k ≠ .error .cyclic := by
  cases x with
  | error error => exact fun h => hx (by cases h; rfl)
  | ok a => exact hk a

theorem onlyArgument_ne_cyclic (name : String) (positional : List Value) :
    onlyArgument name positional ≠ .error .cyclic := by
  unfold onlyArgument
  split <;> simp

theorem digitsBound_ne_cyclic (named : Bindings Value) (name : String) :
    digitsBound named name ≠ .error .cyclic := by
  unfold digitsBound
  dsimp only
  split
  · simp
  · split <;> simp
  · simp

theorem bounded_ne_cyclic (n : Number) (named : Bindings Value) :
    bounded n named ≠ .error .cyclic := by
  refine bind_ne_cyclic (digitsBound_ne_cyclic _ _) fun minimum =>
    bind_ne_cyclic (digitsBound_ne_cyclic _ _) fun maximum => ?_
  split <;> nofun

/-- No built-in function fails as a cyclic pattern does. -/
theorem ofName?_ne_cyclic {name : String} {function : CallFunction}
    (h : ofName? name = some function) (positional : List Value) (named : Bindings Value) :
    function positional named ≠ .error .cyclic := by
  unfold ofName? at h
  split at h
  · cases h
    refine bind_ne_cyclic (onlyArgument_ne_cyclic _ _) fun argument => ?_
    split
    · nofun
    · exact bounded_ne_cyclic _ _
    · split
      · exact bounded_ne_cyclic _ _
      · nofun
    · nofun
  · split at h
    · cases h
      refine bind_ne_cyclic (onlyArgument_ne_cyclic _ _) fun argument => ?_
      split <;> nofun
    · cases h

end Builtin

/-- What stands in for the failure of a call, by its name and its arguments. -/
abbrev CallLabel := String → List Value → Bindings Value → ResolveError

/-- A function that fails with a label where another one fails as a cyclic pattern does. -/
def CallFunction.labeled (function : CallFunction)
    (label : List Value → Bindings Value → ResolveError) : CallFunction := fun positional named =>
  match function positional named with
  | .error .cyclic => .error (label positional named)
  | result => result

theorem CallFunction.labeled_cases (function : CallFunction)
    (label : List Value → Bindings Value → ResolveError) (positional : List Value)
    (named : Bindings Value) :
    function positional named = .error .cyclic ∧
        function.labeled label positional named = .error (label positional named) ∨
      function positional named ≠ .error .cyclic ∧
        function.labeled label positional named = function positional named := by
  unfold labeled
  split
  · next hfails => exact .inl ⟨hfails, rfl⟩
  · next hfails => exact .inr ⟨hfails, rfl⟩

namespace Environment

variable (env : Environment)

/-- The text of a pattern, resolved without visited sites. -/
def formatUnguarded (bottom : Resolver.Enter) (content : Pattern) (site : Site) :
    Resolver String := do
  return (← Resolver.unguarded env bottom (env.sites content site).length content site).format

/-- The environment in which a call that fails as a cyclic pattern does fails with its label
instead. -/
def labeling (label : CallLabel) : Environment :=
  let functions := env.store.functions.mapValues fun name function => function.labeled (label name)
  { env with store := { env.store with functions } }

/-- The label of a call that fails as a cyclic pattern does. -/
def Labels (label : CallLabel) (error : ResolveError) : Prop :=
  ∃ name function positional named, env.store.functions.get? name = some function ∧
    function positional named = .error .cyclic ∧ error = label name positional named

/-- Formatting makes a call that fails as a cyclic pattern does: whatever such calls are labeled
with, one of the labels is recorded. -/
def FailsAsCyclic (content : Pattern) (site : Site) : Prop :=
  ∀ label : CallLabel, ∃ error, env.Labels label error ∧
    error ∈ (Resolver.run ((env.labeling label).formatPattern content site)).2

theorem reports_labeling (label : CallLabel) :
    Resolver.Reports (env.labeling label) fun error =>
      error = .cyclic → env.Labels label error where
  own _ herror hcyclic := absurd hcyclic herror
  function name function hfunction positional named error herror hcyclic := by
    rw [hcyclic] at herror ⊢
    rcases Option.or_eq_some_iff.1 hfunction with hstore | ⟨-, hbuiltin⟩
    · have hlabeled := (Bindings.get?_mapValues env.store.functions _ name).symm.trans hstore
      obtain ⟨unlabeled, hunlabeled, rfl⟩ := Option.map_eq_some_iff.1 hlabeled
      rcases unlabeled.labeled_cases (label name) positional named with
        ⟨hfails, hlabel⟩ | ⟨hfails, hsame⟩
      · exact ⟨_, _, _, _, hunlabeled, hfails, Except.error.inj (herror.symm.trans hlabel)⟩
      · exact absurd (hsame.symm.trans herror) hfails
    · exact absurd herror (Builtin.ofName?_ne_cyclic hbuiltin positional named)

/-- Values are compared for equality until the label of a call is recorded. -/
def untilLabel (label : CallLabel) : Resolver.Comparison where
  ok _ := True
  bad := env.Labels label
  sound _ := True
  related := Eq
  used _ := True

theorem between_labeling (label : CallLabel) :
    (env.untilLabel label).Between (env.labeling label) env where
  locale := rfl
  args := rfl
  functions name := by
    unfold function? labeling
    rw [Bindings.get?_mapValues]
    cases hfunction : env.store.functions.get? name with
    | none => exact (env.untilLabel label).answers_of_eq rfl
    | some function =>
      refine .some fun positional named => ?_
      rcases function.labeled_cases (label name) positional named with
        ⟨hfails, hlabel⟩ | ⟨-, hsame⟩
      · exact .inl ⟨_, ⟨_, _, _, _, hfunction, hfails, rfl⟩, hlabel⟩
      · exact .inr hsame.symm
  found _ _ hfind := ⟨hfind, trivial⟩
  unknown _ hfind _ := hfind
  own _ _ _ := trivial
  literal _ _ := rfl
  number _ _ := rfl
  argument _ _ _ _ _ := rfl
  missing _ _ _ _ := rfl
  fallback _ _ := trivial
  eq_of_used _ _ h _ := h
  result _ _ _ _ _ _ _ _ := rfl
  failure _ _ _ _ _ _ _ _ := trivial

variable {env} {content : Pattern} {site : Site} {P : ResolveError → Prop}

/-- Without cycles all errors are reported outside of the guard. -/
theorem formatPattern_alike_unguarded (hP : Resolver.Reports env P) (bottom : Resolver.Enter)
    (hsite : site.root = .loose ∨ env.store.Stands content site)
    (hacyclic : env.store.Acyclic content) :
    Resolver.Alike P [] [] (env.formatPattern content site)
      (env.formatUnguarded bottom content site) := by
  obtain ⟨hstore, hcontent⟩ := env.located_subset_sites content site
  exact (Resolver.pattern_alike_unguarded hP bottom hstore hacyclic _ _ [] content site (.nil _)
    hcontent (env.length_sites_le content site) (Nat.le_refl _)
    (Store.descends_start hsite)).bind fun _ => .pure _

/-- Without cycles nothing but a call can be reported as cyclic. -/
theorem failsAsCyclic_of_mem (hsite : site.root = .loose ∨ env.store.Stands content site)
    (hacyclic : env.store.Acyclic content)
    (hcyclic : .cyclic ∈ (Resolver.run (env.formatPattern content site)).2) :
    env.FailsAsCyclic content site := by
  intro label
  by_contra hnone
  have hbad : ∀ error ∈ (Resolver.run ((env.labeling label).formatPattern content site)).2,
      ¬env.Labels label error := fun error herror hlabel => hnone ⟨error, hlabel, herror⟩
  -- with labels nothing else is reported as cyclic, and without a label the errors are the same
  have halike := formatPattern_alike_unguarded (env.reports_labeling label)
    (fun _ _ => Resolver.cyclic) hsite hacyclic
  have hfollows := (env.labeling label).formatIn_follows (env.between_labeling label)
    ((env.between_labeling label).displays_of_eq rfl rfl) (fun _ => trivial)
    (env.store.patternCount + content.patternCount) content site
    fun _ _ => ⟨fun _ _ => trivial, fun _ _ _ _ => trivial⟩
  have herrors : (Resolver.run (env.formatPattern content site)).2 =
      (Resolver.run ((env.labeling label).formatPattern content site)).2 :=
    (hfollows.run hbad).1
  rw [herrors] at hcyclic
  exact hbad _ hcyclic (halike.of_mem_errors hcyclic rfl)

variable (env)

/-- Where no message or term that the start reaches leads back to itself, formatting gives the text
and the errors that it gives without visited sites, and what is reported as cyclic is a call that
fails so. -/
theorem format_acyclic (content : Pattern) (site : Site) (bottom : Resolver.Enter)
    (hsite : site.root = .loose ∨ env.store.Stands content site)
    (hacyclic : env.store.Acyclic content) :
    Resolver.run (env.formatPattern content site) =
        Resolver.run (env.formatUnguarded bottom content site) ∧
      (.cyclic ∈ (Resolver.run (env.formatPattern content site)).2 →
        env.FailsAsCyclic content site) :=
  ⟨(formatPattern_alike_unguarded (Resolver.reports_true env) bottom hsite hacyclic).run_eq,
    failsAsCyclic_of_mem hsite hacyclic⟩

/-- A message that is referred to twice is resolved twice. -/
theorem format_acyclic_twice :
    ∃ (env : Environment) (message : Message) (content : Pattern),
      env.store.find? (.message "b") = some message ∧
      content.mentions = [.message "b", .message "b"] ∧ env.store.Acyclic content ∧
      Resolver.run (env.formatPattern content (.value .loose)) =
        Resolver.run (env.formatUnguarded (fun _ _ => Resolver.cyclic) content (.value .loose)) ∧
      (.cyclic ∈ (Resolver.run (env.formatPattern content (.value .loose))).2 →
        env.FailsAsCyclic content (.value .loose)) := by
  let message : Message :=
    ⟨⟨"b", ⟨0, 1⟩⟩, some ⟨[.text "B" ⟨4, 5⟩, .text "B" ⟨5, 6⟩], ⟨4, 6⟩⟩, [], none, ⟨0, 6⟩⟩
  let env : Environment :=
    ⟨⟨.ofList [("b", message)], .empty, .empty⟩, none, ⟨[], .default⟩, default⟩
  let content : Pattern :=
    ⟨[.placeable (.messageReference ⟨"b", ⟨2, 3⟩⟩) ⟨0, 5⟩,
      .placeable (.messageReference ⟨"b", ⟨7, 8⟩⟩) ⟨5, 10⟩], ⟨0, 10⟩⟩
  -- the message refers to nothing
  have hparent : ∀ parent child, ¬env.store.Parent parent child := by
    rintro (id | id | _) child ⟨found, hfind, hchild⟩
    · have hmem := Store.mem_entries_of_get? hfind
      obtain ⟨-, rfl⟩ : id = "b" ∧ found = message := by
        simpa [env, Bindings.ofList, Bindings.setAll, Bindings.set, Bindings.assign,
          Bindings.empty] using hmem
      simp [message, Message.mentions, Pattern.mentions, elementsMentions,
        PatternElement.mentions] at hchild
    · cases hfind
    · cases hfind
  have hacyclic : env.store.Acyclic content := by
    intro root _ hcycle
    obtain ⟨child, hfirst, -⟩ := Relation.TransGen.head'_iff.1 hcycle
    exact hparent _ _ hfirst
  exact ⟨env, message, content, rfl, rfl, hacyclic,
    env.format_acyclic content (.value .loose) _ (.inl rfl) hacyclic⟩

/-- Functions of the store can report what no pattern of it gives rise to. -/
theorem format_acyclic_functions :
    ¬∀ (env : Environment) (content : Pattern) (site : Site),
      (site.root = .loose ∨ env.store.Stands content site) → env.store.Acyclic content →
        .cyclic ∉ (Resolver.run (env.formatPattern content site)).2 := by
  intro hnone
  let env : Environment :=
    ⟨⟨.empty, .empty, .ofList [("FAIL", fun _ _ => .error .cyclic)]⟩, none, ⟨[], .default⟩, default⟩
  let content : Pattern :=
    ⟨[.placeable (.call ⟨"FAIL", ⟨2, 6⟩⟩ [] ⟨2, 8⟩) ⟨0, 10⟩], ⟨0, 10⟩⟩
  have hacyclic : env.store.Acyclic content := by
    rintro root ⟨first, hfirst, -⟩
    simp [content, Pattern.mentions, elementsMentions, PatternElement.mentions,
      Expression.mentions, argumentsMentions] at hfirst
  refine hnone env content (.value .loose) (.inl rfl) hacyclic ?_
  decide +kernel

end Environment

end Localization
