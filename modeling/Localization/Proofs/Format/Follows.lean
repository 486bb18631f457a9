import Localization.Proofs.Format.Tidy

/-!
# Resolvers that follow one another

Two resolvers are compared step by step: the second one follows the first if it gives a value that
stands for the first one's and records the same errors. The comparison may be broken off: after
certain errors of the first one nothing is asked of the second.

What two environments must have in common is collected once. Resolving an expression looks at
nothing but the texts it holds, the values its selectors and arguments have, and what its nested
patterns and its references resolve to. So expressions follow one another where patterns do, and
patterns follow one another by induction on the room. On the second side, placeables may show their
values some other way.

## Main definitions

* `Expression.texts`, `Expression.uses` — what an expression holds outside of its nested patterns
* `Resolver.Follows` — a computation follows another one
* `Resolver.Comparison`, `Resolver.Comparison.Between` — what two environments have in common
* `Resolver.Comparison.Displays` — what their texts have in common

## Main statements

* `Resolver.Comparison.expression_follows`, `Resolver.Comparison.elements_follows` — expressions and
  elements follow one another where patterns do
* `Resolver.Comparison.Between.pattern_follows` — patterns follow one another
-/

namespace Localization

/-! ### Texts and uses -/

mutual

/-- The texts and names in an expression, those in its nested patterns left out. -/
def Expression.texts : Expression → List String
  | .stringLiteral value _ => [value]
  | .numberLiteral value _ => [value]
  | .messageReference id => [id.name]
  | .variableReference id _ => [id.name]
  | .select selector variants _ _ => selectorTexts selector ++ variants.map (·.key.text)
  | .attribute id name _ => [id.name, name.name]
  | .variant term key _ => [term.name, key.text]
  | .call callee args _ => callee.name :: argumentsTexts args

/-- The texts and names in a selector. -/
def selectorTexts : Option Expression → List String
  | none => []
  | some expression => expression.texts

/-- The texts and names in call arguments. -/
def argumentsTexts : List CallArgument → List String
  | [] => []
  | argument :: rest => argument.texts ++ argumentsTexts rest

/-- The texts and names in a call argument. -/
def CallArgument.texts : CallArgument → List String
  | .positional value => value.texts
  | .named name value _ => name.name :: value.texts

end

mutual

/-- The selectors and arguments in an expression with their sites, those in its nested patterns
left out. -/
def Expression.uses : Expression → Site → List (Expression × Site)
  | .stringLiteral _ _, _ => []
  | .numberLiteral _ _, _ => []
  | .messageReference _, _ => []
  | .variableReference _ _, _ => []
  | .select selector _ _ _, site => selectorUses selector site.selector
  | .attribute _ _ _, _ => []
  | .variant _ _ _, _ => []
  | .call _ args _, site => argumentsUses args site 0

/-- A selector, and those in it. -/
def selectorUses : Option Expression → Site → List (Expression × Site)
  | none, _ => []
  | some expression, site => (expression, site) :: expression.uses site

/-- Call arguments from an index on, and those in them. -/
def argumentsUses : List CallArgument → Site → Nat → List (Expression × Site)
  | [], _, _ => []
  | argument :: rest, site, index =>
    argument.uses (site.part index) ++ argumentsUses rest site (index + 1)

/-- A call argument, and those in it. -/
def CallArgument.uses : CallArgument → Site → List (Expression × Site)
  | .positional value, site => (value, site) :: value.uses site
  | .named _ value _, site => (value, site) :: value.uses site

end

/-- The texts and names in pattern elements, those in nested patterns left out. -/
def elementsTexts : List PatternElement → List String
  | [] => []
  | .text text _ :: rest => text :: elementsTexts rest
  | .placeable expression _ :: rest => expression.texts ++ elementsTexts rest

/-- The selectors and arguments in pattern elements from an index on. -/
def elementsUses : List PatternElement → Site → Nat → List (Expression × Site)
  | [], _, _ => []
  | .text _ _ :: rest, site, index => elementsUses rest site (index + 1)
  | .placeable expression _ :: rest, site, index =>
    expression.uses (site.part index) ++ elementsUses rest site (index + 1)

/-- The texts and names in a pattern, those in nested patterns left out. -/
def Pattern.texts (pattern : Pattern) : List String := elementsTexts pattern.elements

/-- The selectors and arguments in a pattern, those in nested patterns left out. -/
def Pattern.uses (pattern : Pattern) (site : Site) : List (Expression × Site) :=
  elementsUses pattern.elements site 0

/-- A pattern of a single text is one element. -/
theorem Pattern.elements_of_simpleText? {pattern : Pattern} {text : String}
    (h : pattern.simpleText? = some text) : ∃ span, pattern.elements = [.text text span] := by
  unfold simpleText? at h
  split at h
  · next value span helements =>
    obtain rfl := Option.some.inj h
    exact ⟨span, helements⟩
  · cases h

/-- The text of a pattern that is a single piece of text is one of its texts. -/
theorem Pattern.simpleText?_mem_texts {pattern : Pattern} {text : String}
    (h : pattern.simpleText? = some text) : text ∈ pattern.texts := by
  obtain ⟨span, helements⟩ := elements_of_simpleText? h
  simp [texts, helements, elementsTexts]

namespace Resolver

/-! ### Following a computation -/

section

variable {α β γ δ : Type} {bad sound : ResolveError → Prop} {V W : List Site} {R : α → β → Prop}
  {S : γ → δ → Prop}

/-- A computation follows another one: unless that records a bad error, it gives a related result
and records the same errors, all of which are sound. Both leave the visited sites as they were. -/
def Follows (bad sound : ResolveError → Prop) (V W : List Site) (R : α → β → Prop)
    (x : Resolver α) (y : Resolver β) : Prop :=
  ∀ errors, ∃ a recorded, StateT.run x ⟨V, errors⟩ = (a, ⟨V, errors ++ recorded⟩) ∧
    ((∀ error ∈ recorded, ¬bad error) → (∀ error ∈ recorded, sound error) ∧
      ∃ b, StateT.run y ⟨W, errors⟩ = (b, ⟨W, errors ++ recorded⟩) ∧ R a b)

/-- Related results follow one another. -/
theorem Follows.pure {a : α} {b : β} (h : R a b) :
    Follows bad sound V W R (Pure.pure a) (Pure.pure b) :=
  fun errors => ⟨a, [], by rw [List.append_nil]; rfl, fun _ =>
    ⟨by simp, b, by rw [List.append_nil]; rfl, h⟩⟩

/-- What is known of the first result may be assumed. -/
theorem Follows.and {x : Resolver α} {y : Resolver β} {P : α → Prop}
    (h : Follows bad sound V W R x y) (hP : ∀ errors, P (StateT.run x ⟨V, errors⟩).1) :
    Follows bad sound V W (fun a b => R a b ∧ P a) x y := by
  intro errors
  obtain ⟨a, recorded, hx, hy⟩ := h errors
  have hPa : P (StateT.run x ⟨V, errors⟩).1 := hP errors
  rw [hx] at hPa
  refine ⟨a, recorded, hx, fun hbad => ?_⟩
  obtain ⟨hsound, b, hy, hab⟩ := hy hbad
  exact ⟨hsound, b, hy, hab, hPa⟩

/-- After a bad error it is enough that the first computation goes on tidily. -/
theorem Follows.bind {x : Resolver α} {y : Resolver β} {f : α → Resolver γ} {g : β → Resolver δ}
    (h : Follows bad sound V W R x y) (hf : ∀ a, Tidy (f a))
    (hfg : ∀ a b, R a b → Follows bad sound V W S (f a) (g b)) :
    Follows bad sound V W S (x >>= f) (y >>= g) := by
  intro errors
  obtain ⟨a, recorded, hx, hy⟩ := h errors
  by_cases hbad : ∀ error ∈ recorded, ¬bad error
  · obtain ⟨hsound, b, hy, hab⟩ := hy hbad
    obtain ⟨c, recorded', hfa, hgb⟩ := hfg a b hab (errors ++ recorded)
    rw [List.append_assoc] at hfa hgb
    refine ⟨c, recorded ++ recorded', ?_, fun hbad' => ?_⟩
    · rw [StateT.run_bind, hx]
      exact hfa
    · obtain ⟨hsound', d, hgb, hcd⟩ := hgb fun error herror =>
        hbad' error (List.mem_append_right _ herror)
      refine ⟨fun error herror => ?_, d, ?_, hcd⟩
      · exact (List.mem_append.1 herror).elim (hsound error) (hsound' error)
      · rw [StateT.run_bind, hy]
        exact hgb
  · obtain ⟨c, recorded', hfa⟩ := hf a V
    refine ⟨c, recorded ++ recorded', ?_, fun hbad' => absurd ?_ hbad⟩
    · rw [StateT.run_bind, hx, ← List.append_assoc]
      exact hfa _
    · exact fun error herror => hbad' error (List.mem_append_left _ herror)

/-- Behind a bad error nothing is asked. -/
theorem Follows.of_bad {error : ResolveError} {x : Resolver α} {y : Resolver β}
    (hbad : bad error) (hx : Tidy x) :
    Follows bad sound V W R (report error >>= fun _ => x) y := by
  intro errors
  obtain ⟨a, recorded, hx⟩ := hx V
  refine ⟨a, error :: recorded, ?_, fun hnone => absurd hbad (hnone error List.mem_cons_self)⟩
  rw [List.append_cons]
  exact hx (errors ++ [error])

/-- After a report on both sides, the second computation follows if the error is bad or if what
comes behind follows. -/
theorem Follows.report_bind {error : ResolveError} {x : Resolver α} {y : Resolver β}
    (hx : Tidy x) (h : ¬bad error → sound error ∧ Follows bad sound V W R x y) :
    Follows bad sound V W R (report error >>= fun _ => x) (report error >>= fun _ => y) := by
  by_cases hbad : bad error
  · exact .of_bad hbad hx
  · intro errors
    obtain ⟨hsound, h⟩ := h hbad
    obtain ⟨a, recorded, hx, hy⟩ := h (errors ++ [error])
    refine ⟨a, error :: recorded, by rw [List.append_cons]; exact hx, fun hnone => ?_⟩
    obtain ⟨hsound', b, hy, hab⟩ := hy fun error' herror' =>
      hnone error' (List.mem_cons_of_mem _ herror')
    refine ⟨List.forall_mem_cons.2 ⟨hsound, hsound'⟩, b, ?_, hab⟩
    rw [List.append_cons]
    exact hy

/-- What the first run records and gives from the empty scope, the second one does. -/
theorem Follows.run {x : Resolver α} {y : Resolver β} (h : Follows bad sound [] [] R x y)
    (hbad : ∀ error ∈ (Resolver.run x).2, ¬bad error) :
    (Resolver.run y).2 = (Resolver.run x).2 ∧ R (Resolver.run x).1 (Resolver.run y).1 := by
  obtain ⟨a, recorded, hx, hy⟩ := h []
  unfold Resolver.run at *
  rw [show StateT.run x Scope.empty = (a, ⟨[], recorded⟩) from hx] at *
  obtain ⟨-, b, hy, hab⟩ := hy hbad
  rw [show StateT.run y Scope.empty = (b, ⟨[], recorded⟩) from hy]
  exact ⟨rfl, hab⟩

end

/-! ### Visiting a pattern -/

section

variable {bad sound : ResolveError → Prop} {V W : List Site} {R : Value → Value → Prop}
  {site : Site}

/-- What runs within a site is followed as it is with that site visited. -/
theorem Follows.within_left {x y : Resolver Value} (h : Follows bad sound (site :: V) W R x y) :
    Follows bad sound V W R (within site x) y := by
  intro errors
  obtain ⟨a, recorded, hx, hy⟩ := h errors
  exact ⟨a, recorded, run_within hx, hy⟩

/-- What runs within a site follows as it does with that site visited. -/
theorem Follows.within_right {x y : Resolver Value} (h : Follows bad sound V (site :: W) R x y) :
    Follows bad sound V W R x (within site y) := by
  intro errors
  obtain ⟨a, recorded, hx, hy⟩ := h errors
  refine ⟨a, recorded, hx, fun hbad => ?_⟩
  obtain ⟨hsound, b, hy, hab⟩ := hy hbad
  exact ⟨hsound, b, run_within hy, hab⟩

/-- Both ask whether a site is visited, and get the same answer. -/
theorem Follows.ask {seen unseen seen' unseen' : Resolver Value}
    (hseen : site ∈ V → Follows bad sound V V R seen seen')
    (hunseen : site ∉ V → Follows bad sound V V R unseen unseen') :
    Follows bad sound V V R (do if site ∈ (← get).visiting then seen else unseen)
      (do if site ∈ (← get).visiting then seen' else unseen') := by
  intro errors
  by_cases hsite : site ∈ V
  · rw [run_ask_of_mem hsite, run_ask_of_mem hsite]
    exact hseen hsite errors
  · rw [run_ask_of_not_mem hsite, run_ask_of_not_mem hsite]
    exact hunseen hsite errors

end

/-! ### Variants -/

/-- The variant that is selected is the one at the index that is returned. -/
theorem selectVariant?_getElem {env : Environment} {variants : List Variant} {value : Value}
    {variant : Variant} {index : Nat}
    (hselect : selectVariant? env variants value = some (variant, index)) :
    variants[index]? = some variant :=
  List.mem_zipIdx_iff_getElem?.1 (List.mem_of_find?_eq_some hselect)

/-- A variant of a bare list of variants stands in its message. -/
theorem variantList?_mem_located {message : Message} {root : Root} {variants : List Variant}
    {variant : Variant} {index : Nat} (hlist : variantList? message = some variants)
    (hget : variants[index]? = some variant) :
    (variant.value, ((Site.value root).part 0).variant index) ∈ message.located root := by
  unfold variantList? at hlist
  split at hlist
  · next variants' defaultIndex span span' span'' hvalue =>
    cases hlist
    refine (message.inside root _ (Message.value_mem_located hvalue)).located ?_
    have hmem := mem_variantsLocated hget ((Site.value root).part 0) 0
    rw [Nat.zero_add] at hmem
    simpa [Pattern.located, elementsLocated, PatternElement.located, Expression.located,
      selectorLocated] using Or.inr hmem
  · cases hlist

/-! ### What two environments have in common -/

/-- What resolving in two environments is compared by. -/
structure Comparison where
  /-- Texts and names that patterns may hold. -/
  ok : String → Prop
  /-- Errors after which nothing is asked. -/
  bad : ResolveError → Prop
  /-- What is said of all other errors. -/
  sound : ResolveError → Prop
  /-- Values that stand for one another. -/
  related : Value → Value → Prop
  /-- Values that selectors and arguments may have. -/
  used : Value → Prop

namespace Comparison

/-- A function gives what another one gives, unless that one fails with a bad error. -/
def Answers (C : Comparison) (function function' : CallFunction) : Prop :=
  ∀ positional named, (∃ error, C.bad error ∧ function positional named = .error error) ∨
    function' positional named = function positional named

/-- Where a function is the same, it answers alike. -/
theorem answers_of_eq (C : Comparison) {found found' : Option CallFunction}
    (h : found' = found) : Option.Rel C.Answers found found' := by
  subst h
  cases found' with
  | none => exact .none
  | some function => exact .some fun _ _ => .inr rfl

/-- What is asked of two environments so that resolving in the second one follows resolving in the
first one. -/
structure Between (C : Comparison) (env env' : Environment) : Prop where
  locale : env'.locale = env.locale
  args : env'.args = env.args
  functions : ∀ name, Option.Rel C.Answers (env.function? name) (env'.function? name)
  found : ∀ root message, env.store.find? root = some message →
    env'.store.find? root = some message ∧ C.ok message.id.name
  unknown : ∀ id : Identifier, env.store.find? id.root = none → ¬C.bad id.unknown →
    env'.store.find? id.root = none
  own : ∀ error, error ≠ .cyclic → ¬C.bad error → C.sound error
  literal : ∀ text, C.ok text → C.related (.string text) (.string text)
  number : ∀ text, C.ok text → C.related (.ofNumberText text) (.ofNumberText text)
  argument : ∀ name argument value, env.args.bind (·.get? name) = some argument →
    argument.toValue? = some value → C.related value value
  missing : ∀ error name, ¬C.bad error → (∀ text ∈ name, C.ok text) →
    C.related (.none name) (.none name)
  fallback : ∀ name, C.ok name → C.ok (name ++ "()")
  /-- What is used is the same on both sides. -/
  eq_of_used : ∀ v w, C.related v w → C.used v → v = w
  result : ∀ name function positional named value, env.function? name = some function →
    (∀ v ∈ positional, C.related v v ∧ C.used v) → function positional named = .ok value →
      C.related value value
  failure : ∀ name function positional named error, env.function? name = some function →
    function positional named = .error error → ¬C.bad error → C.sound error

/-- A pattern of which resolving can be followed: its texts are permitted, and so are the values
that its selectors and arguments have. -/
structure Admits (C : Comparison) (env : Environment) (inner : Pattern × Site) : Prop where
  texts : ∀ text ∈ inner.1.texts, C.ok text
  uses : ∀ use ∈ inner.1.uses inner.2, ∀ room scope,
    C.used (StateT.run (expression env (pattern env room) use.1 use.2) scope).1

/-- Ways to resolve patterns in two environments of which one follows the other on nested patterns,
and on all patterns of the messages and terms that are referred to; texts and uses are permitted. -/
structure Agrees (C : Comparison) (env env' : Environment) (V W : List Site) (f g : Enter)
    (located : List (Pattern × Site)) (mentions : List Root) (texts : List String)
    (uses : List (Expression × Site)) : Prop where
  between : C.Between env env'
  nested : ∀ inner ∈ located,
    Follows C.bad C.sound V W C.related (f inner.1 inner.2) (g inner.1 inner.2)
  referred : ∀ pattern site, site.root ∈ mentions → env.store.Stands pattern site →
    Follows C.bad C.sound V W C.related (f pattern site) (g pattern site)
  texts : ∀ text ∈ texts, C.ok text
  uses : ∀ use ∈ uses, ∀ errors,
    C.used (StateT.run (expression env f use.1 use.2) ⟨V, errors⟩).1

variable {C : Comparison} {env env' : Environment} {V W : List Site} {f g : Enter}

/-- Environments that agree on more agree on less. -/
theorem Agrees.mono {located located' : List (Pattern × Site)} {mentions mentions' : List Root}
    {texts texts' : List String} {uses uses' : List (Expression × Site)}
    (h : C.Agrees env env' V W f g located mentions texts uses) (hlocated : located' ⊆ located)
    (hmentions : mentions' ⊆ mentions) (htexts : texts' ⊆ texts) (huses : uses' ⊆ uses) :
    C.Agrees env env' V W f g located' mentions' texts' uses' :=
  ⟨h.between, fun inner hinner => h.nested inner (hlocated hinner),
    fun pattern site hsite => h.referred pattern site (hmentions hsite),
    fun text htext => h.texts text (htexts htext), fun use huse => h.uses use (huses huse)⟩

section

variable {located located' : List (Pattern × Site)} {mentions mentions' : List Root}
  {texts texts' : List String} {uses uses' : List (Expression × Site)}

theorem Agrees.left (h : C.Agrees env env' V W f g (located ++ located') (mentions ++ mentions')
    (texts ++ texts') (uses ++ uses')) : C.Agrees env env' V W f g located mentions texts uses :=
  h.mono (List.subset_append_left _ _) (List.subset_append_left _ _)
    (List.subset_append_left _ _) (List.subset_append_left _ _)

theorem Agrees.right (h : C.Agrees env env' V W f g (located ++ located') (mentions ++ mentions')
    (texts ++ texts') (uses ++ uses')) :
    C.Agrees env env' V W f g located' mentions' texts' uses' :=
  h.mono (List.subset_append_right _ _) (List.subset_append_right _ _)
    (List.subset_append_right _ _) (List.subset_append_right _ _)

end

/-- Something is missing, which is an error. -/
theorem Between.report_none (H : C.Between env env') {error : ResolveError} {name : Option String}
    (herror : error ≠ .cyclic) (hname : ∀ text ∈ name, C.ok text) :
    Follows C.bad C.sound V W C.related (report error >>= fun _ => Pure.pure (.none name))
      (report error >>= fun _ => Pure.pure (.none name)) :=
  .report_bind (.pure _) fun hbad =>
    ⟨H.own error herror hbad, .pure (H.missing error name hbad hname)⟩

/-- Both environments select the same variant. -/
theorem Between.selectVariant?_eq (H : C.Between env env') :
    selectVariant? env' = selectVariant? env := by
  funext variants value
  unfold selectVariant?
  rw [H.locale]

/-! ### References -/

/-- Both environments find the same entry, or report the same unknown name. -/
theorem Between.lookup_bind_follows (H : C.Between env env') {id : Identifier} (hid : C.ok id.name)
    {F G : Option (Message × Root) → Resolver Value}
    (hsome : ∀ message, env.store.find? id.root = some message →
      Follows C.bad C.sound V W C.related (F (some (message, id.root)))
        (G (some (message, id.root))))
    (hnone : F none = Pure.pure (.none id.name) ∧ G none = Pure.pure (.none id.name)) :
    Follows C.bad C.sound V W C.related (lookup env id >>= F) (lookup env' id >>= G) := by
  rw [lookup_eq, lookup_eq]
  cases hfind : env.store.find? id.root with
  | some message =>
    rw [(H.found _ _ hfind).1]
    exact hsome message hfind
  | none =>
    simp only [bind_assoc, pure_bind]
    rw [hnone.1]
    -- what the first store has not got, the second one may have; then the error is a bad one
    by_cases hbad : C.bad id.unknown
    · exact .of_bad hbad (.pure _)
    · rw [H.unknown id hfind hbad]
      simp only [bind_assoc, pure_bind, hnone.2]
      exact H.report_none id.unknown_ne_cyclic (by simpa using hid)

section References

variable {id : Identifier} (h : C.Agrees env env' V W f g [] [id.root] [] [])
include h

/-- The value of a message that both environments find is formatted alike. -/
theorem messageValue_follows {message : Message} (hfind : env.store.find? id.root = some message) :
    Follows C.bad C.sound V W C.related (messageValue f message id.root)
      (messageValue g message id.root) := by
  unfold messageValue
  cases hvalue : message.value with
  | none =>
    exact h.between.report_none (by simp) (by simpa using (h.between.found _ _ hfind).2)
  | some pattern =>
    exact h.referred pattern _ (by simp [Site.value])
      (Store.stands_of_mem hfind (Message.value_mem_located hvalue))

/-- References to messages and terms are formatted alike. -/
theorem messageReference_follows (hid : C.ok id.name) :
    Follows C.bad C.sound V W C.related (messageReference env f id)
      (messageReference env' g id) :=
  h.between.lookup_bind_follows hid (fun _ => messageValue_follows h) ⟨rfl, rfl⟩

variable (hf : ∀ content site, Tidy (f content site))
include hf

/-- References to attributes are formatted alike. -/
theorem attributeReference_follows (hid : C.ok id.name) (name : Identifier) :
    Follows C.bad C.sound V W C.related (attributeReference env f id name)
      (attributeReference env' g id name) := by
  refine h.between.lookup_bind_follows hid (fun message hfind => ?_) ⟨rfl, rfl⟩
  dsimp only
  split
  · next index named hindex hnamed =>
    exact h.referred _ _ (by simp [Site.attributeAt])
      (Store.stands_of_mem hfind (Message.attribute_mem_located hindex hnamed))
  · exact .report_bind (messageValue_tidy hf _ _) fun hbad =>
      ⟨h.between.own _ (by simp) hbad, messageValue_follows h hfind⟩

/-- References to variants of terms are formatted alike. -/
theorem variantReference_follows (hid : C.ok id.name) (key : VariantKey) :
    Follows C.bad C.sound V W C.related (variantReference env f id key)
      (variantReference env' g id key) := by
  unfold variantReference
  rw [h.between.selectVariant?_eq]
  refine h.between.lookup_bind_follows hid (fun message hfind => ?_) ⟨rfl, rfl⟩
  dsimp only
  split
  · next variant index hselected =>
    obtain ⟨variants, hlist, hselect⟩ := Option.bind_eq_some_iff.1 hselected
    exact h.referred _ _ (by simp [Site.value, Site.part, Site.variant])
      (Store.stands_of_mem hfind (variantList?_mem_located hlist (selectVariant?_getElem hselect)))
  · exact .report_bind (messageValue_tidy hf _ _) fun hbad =>
      ⟨h.between.own _ (by simp) hbad, messageValue_follows h hfind⟩

end References

/-- References to variables are formatted alike. -/
theorem Between.variableReference_follows (H : C.Between env env') {name : String}
    (hname : C.ok name) :
    Follows C.bad C.sound V W C.related (variableReference env name)
      (variableReference env' name) := by
  unfold variableReference
  rw [H.args]
  split
  · exact H.report_none (by simp) (by simpa using hname)
  · next argument hargument =>
    split
    · next value hvalue => exact .pure (H.argument _ _ _ hargument hvalue)
    · exact H.report_none (by simp) (by simpa using hname)

/-! ### Choices and calls -/

/-- Both environments choose the same variant and go on with it. -/
theorem Between.choose_follows (H : C.Between env env') {variants : List Variant} {site : Site}
    (selector : Option Value) (defaultIndex : Nat)
    (h : ∀ variant index, variants[index]? = some variant →
      Follows C.bad C.sound V W C.related (f variant.value (site.variant index))
        (g variant.value (site.variant index))) :
    Follows C.bad C.sound V W C.related (choose env f selector variants defaultIndex site)
      (choose env' g selector variants defaultIndex site) := by
  unfold choose
  rw [H.selectVariant?_eq]
  split
  · next variant index hselected =>
    obtain ⟨value, -, hselect⟩ := Option.bind_eq_some_iff.1 hselected
    exact h variant index (selectVariant?_getElem hselect)
  · unfold defaultVariant
    split
    · next variant hget => exact h variant defaultIndex hget
    · exact H.report_none (by simp) (by simp)

/-- Either neither environment knows the function, or both do and the two functions answer alike. -/
theorem Between.function_cases (H : C.Between env env') (name : String) :
    env.function? name = none ∧ env'.function? name = none ∨
      ∃ function function', env.function? name = some function ∧
        env'.function? name = some function' ∧ C.Answers function function' := by
  have hfunctions := H.functions name
  generalize env.function? name = found, env'.function? name = found' at hfunctions
  cases hfunctions with
  | none => exact .inl ⟨rfl, rfl⟩
  | some hanswers => exact .inr ⟨_, _, rfl, rfl, hanswers⟩

/-- Functions that answer alike are called alike on values that show no difference. -/
theorem Between.apply_follows (H : C.Between env env') {name : String}
    {function function' : CallFunction} (hname : C.ok name)
    (hfunction : env.function? name = some function) (hanswers : C.Answers function function')
    {positional : List Value}
    (hpositional : ∀ value ∈ positional, C.related value value ∧ C.used value)
    (named : Bindings Value) :
    Follows C.bad C.sound V W C.related (apply name function positional named)
      (apply name function' positional named) := by
  unfold apply
  rcases hanswers positional named with ⟨error, hbad, herror⟩ | heq
  · rw [herror]
    exact .of_bad hbad (.pure _)
  · rw [heq]
    split
    · next value hvalue => exact .pure (H.result _ _ _ _ _ hfunction hpositional hvalue)
    · next error herror =>
      exact .report_bind (.pure _) fun hbad => ⟨H.failure _ _ _ _ _ hfunction herror hbad,
        .pure (H.missing error _ hbad (by simpa using H.fallback name hname))⟩

/-! ### Expressions -/

mutual

/-- Expressions follow one another where their nested patterns and their references do. -/
theorem expression_follows (hf : ∀ content site, Tidy (f content site)) :
    ∀ (content : Expression) (site : Site),
    C.Agrees env env' V W f g (content.located site) content.mentions content.texts
      (content.uses site) →
    Follows C.bad C.sound V W C.related (expression env f content site)
      (expression env' g content site)
  | .stringLiteral value _, _, h =>
    .pure (h.between.literal value (h.texts _ List.mem_cons_self))
  | .numberLiteral value _, _, h =>
    .pure (h.between.number value (h.texts _ List.mem_cons_self))
  | .messageReference _, _, h =>
    messageReference_follows (h.mono (List.nil_subset _) (List.Subset.refl _) (List.nil_subset _)
      (List.nil_subset _)) (h.texts _ List.mem_cons_self)
  | .variableReference _ _, _, h =>
    h.between.variableReference_follows (h.texts _ List.mem_cons_self)
  | .select selector variants defaultIndex _, site, h => by
    refine (selectorValue_follows hf selector site.selector (h.mono (List.subset_append_left _ _)
      (List.subset_append_left _ _) (List.subset_append_left _ _) (List.Subset.refl _))).bind
      (fun selected => choose_tidy hf selected variants defaultIndex site) ?_
    -- both sides choose by one value, so they choose the same variant
    rintro selected _ rfl
    refine h.between.choose_follows selected defaultIndex fun variant index hget => ?_
    have hmem := mem_variantsLocated hget site 0
    rw [Nat.zero_add] at hmem
    exact h.nested _ (List.mem_append_right _ hmem)
  | .attribute _ name _, _, h =>
    attributeReference_follows (h.mono (List.nil_subset _) (List.Subset.refl _)
      (List.nil_subset _) (List.nil_subset _)) hf (h.texts _ List.mem_cons_self) name
  | .variant _ key _, _, h =>
    variantReference_follows (h.mono (List.nil_subset _) (List.Subset.refl _)
      (List.nil_subset _) (List.nil_subset _)) hf (h.texts _ List.mem_cons_self) key
  | .call callee args _, site, h => by
    have hname : C.ok callee.name := h.texts _ List.mem_cons_self
    unfold expression
    -- functions of one name are found on both sides, or none
    rcases h.between.function_cases callee.name with
      ⟨hnone, hnone'⟩ | ⟨function, function', hfunction, hfunction', hanswers⟩
    · rw [hnone, hnone']
      exact h.between.report_none (by simp) (by simpa using h.between.fallback _ hname)
    · rw [hfunction, hfunction']
      refine (arguments_follows hf args site 0 ([], .empty) (by simp) (h.mono (List.Subset.refl _)
        (List.Subset.refl _) (List.subset_cons_self _ _) (List.Subset.refl _))).bind
        (fun (positional, named) => apply_tidy callee.name function positional named) ?_
      rintro ⟨positional, named⟩ _ ⟨rfl, hpositional⟩
      exact h.between.apply_follows hname hfunction hanswers hpositional named

/-- A selector is evaluated alike. -/
theorem selectorValue_follows (hf : ∀ content site, Tidy (f content site)) :
    ∀ (selector : Option Expression) (site : Site),
    C.Agrees env env' V W f g (selectorLocated selector site) (selectorMentions selector)
      (selectorTexts selector) (selectorUses selector site) →
    Follows C.bad C.sound V W Eq (selectorValue env f selector site)
      (selectorValue env' g selector site)
  | none, _, _ => .pure rfl
  | some content, site, h => by
    have hfollows := (expression_follows hf content site (h.mono (List.Subset.refl _)
      (List.Subset.refl _) (List.Subset.refl _) (List.subset_cons_self _ _))).and
      (h.uses _ List.mem_cons_self)
    exact hfollows.bind (fun _ => .pure _) fun v w hvw =>
      .pure (congrArg some (h.between.eq_of_used v w hvw.1 hvw.2))

/-- The arguments of a call are evaluated alike, one after the other. -/
theorem arguments_follows (hf : ∀ content site, Tidy (f content site)) :
    ∀ (args : List CallArgument) (site : Site) (index : Nat)
    (before : List Value × Bindings Value),
    (∀ value ∈ before.1, C.related value value ∧ C.used value) →
    C.Agrees env env' V W f g (argumentsLocated args site index) (argumentsMentions args)
      (argumentsTexts args) (argumentsUses args site index) →
    Follows C.bad C.sound V W
      (fun a b => b = a ∧ ∀ value ∈ a.1, C.related value value ∧ C.used value)
      (arguments env f args site index before) (arguments env' g args site index before)
  | [], _, _, _, hbefore, _ => .pure ⟨rfl, hbefore⟩
  | argument :: rest, site, index, before, hbefore, h => by
    refine (argumentValue_follows hf argument (site.part index) before hbefore h.left).bind
      (fun before => arguments_tidy hf rest site (index + 1) before) ?_
    rintro _ before ⟨rfl, hbefore⟩
    exact arguments_follows hf rest site (index + 1) before hbefore h.right

/-- An argument is evaluated alike, behind those evaluated before. -/
theorem argumentValue_follows (hf : ∀ content site, Tidy (f content site)) :
    ∀ (argument : CallArgument) (site : Site) (before : List Value × Bindings Value),
    (∀ value ∈ before.1, C.related value value ∧ C.used value) →
    C.Agrees env env' V W f g (argument.located site) argument.mentions argument.texts
      (argument.uses site) →
    Follows C.bad C.sound V W
      (fun a b => b = a ∧ ∀ value ∈ a.1, C.related value value ∧ C.used value)
      (argumentValue env f argument site before) (argumentValue env' g argument site before)
  | .positional content, site, (positional, named), hbefore, h => by
    refine ((expression_follows hf content site (h.mono (List.Subset.refl _)
      (List.Subset.refl _) (List.Subset.refl _) (List.subset_cons_self _ _))).and
      (h.uses _ List.mem_cons_self)).bind (fun _ => .pure _) fun v w ⟨hrelated, hused⟩ => ?_
    obtain rfl := h.between.eq_of_used v w hrelated hused
    refine .pure ⟨rfl, fun value hvalue => ?_⟩
    rcases List.mem_append.1 hvalue with hvalue | hvalue
    · exact hbefore value hvalue
    · obtain rfl := List.mem_singleton.1 hvalue
      exact ⟨hrelated, hused⟩
  | .named name content _, site, (positional, named), hbefore, h => by
    refine ((expression_follows hf content site (h.mono (List.Subset.refl _)
      (List.Subset.refl _) (List.subset_cons_self _ _) (List.subset_cons_self _ _))).and
      (h.uses _ List.mem_cons_self)).bind (fun _ => .pure _) fun v w ⟨hrelated, hused⟩ => ?_
    obtain rfl := h.between.eq_of_used v w hrelated hused
    exact .pure ⟨rfl, hbefore⟩

end

/-! ### Patterns -/

/-- What the texts of two environments have in common, the second of which may show values some
other way: those of elements, and those that are joined of them. -/
structure Displays (C : Comparison) (env env' : Environment) (display : Display)
    (shows : List Char → List Char → Prop) : Prop where
  nil : shows [] []
  append : ∀ {s s' t t'}, shows s s' → shows t t' → shows (s ++ t) (s' ++ t')
  text : ∀ text, C.ok text → shows text.toList text.toList
  shown : ∀ V W beside v w, C.related v w →
    Follows C.bad C.sound V W shows (shown env beside v) (display beside w)
  joined : ∀ {s s'}, shows s s' → C.related (.string (String.ofList s)) (.string (String.ofList s'))

variable {display : Display} {shows : List Char → List Char → Prop}

/-- Where values are equal, so are the texts that they are shown as. -/
theorem Between.displays_of_eq (H : C.Between env env') (hrelated : C.related = Eq)
    (hoptions : env'.options = env.options) : C.Displays env env' (shown env') Eq where
  nil := rfl
  append hs ht := by rw [hs, ht]
  text _ _ := rfl
  shown V W beside v w hvw := by
    obtain rfl : v = w := by rwa [hrelated] at hvw
    have hcut : Follows C.bad C.sound V W Eq (cut env v.format.toList)
        (cut env' v.format.toList) := by
      unfold cut
      rw [hoptions]
      dsimp only
      split
      · exact .report_bind (.pure _) fun hbad => ⟨H.own _ (by simp) hbad, .pure rfl⟩
      · exact .pure rfl
    unfold Resolver.shown
    rw [hoptions]
    refine hcut.bind (fun _ => .pure _) ?_
    rintro s _ rfl
    exact .pure rfl
  joined h := by rw [hrelated, h]

/-- The elements of a pattern follow one another where their nested patterns and their references
do. -/
theorem elements_follows (D : C.Displays env env' display shows)
    (hf : ∀ content site, Tidy (f content site)) (beside : Bool) (site : Site)
    (content : List PatternElement) (index : Nat)
    (h : C.Agrees env env' V W f g (elementsLocated content site index) (elementsMentions content)
      (elementsTexts content) (elementsUses content site index)) :
    Follows C.bad C.sound V W shows
      (elementsBy env f (shown env beside) site content index)
      (elementsBy env' g (display beside) site content index) := by
  induction content generalizing index with
  | nil => exact .pure D.nil
  | cons element rest ih =>
    cases element with
    | text text _ =>
      refine (ih (index + 1) (h.mono (List.Subset.refl _) (List.Subset.refl _)
        (List.subset_cons_self _ _) (List.Subset.refl _))).bind (fun _ => .pure _)
        fun s s' hs => .pure (D.append (D.text text (h.texts _ List.mem_cons_self)) hs)
    | placeable content _ =>
      have hcontent := expression_follows hf content (site.part index) h.left
      have hrest := ih (index + 1) h.right
      have htidy : ∀ index, Tidy (elementsBy env f (shown env beside) site rest index) := by
        intro index
        rw [← elements_eq]
        exact elements_tidy hf _ _ _ _
      refine hcontent.bind (fun _ => (shown_tidy _ _).bind fun _ =>
        (htidy _).bind fun _ => .pure _) fun v w hvw => ?_
      refine (D.shown V W beside v w hvw).bind (fun _ => (htidy _).bind fun _ => .pure _)
        fun s s' hs => ?_
      exact hrest.bind (fun _ => .pure _) fun t t' ht => .pure (D.append hs ht)

/-- The elements of a pattern are formatted and joined alike, apart from how values are shown. -/
theorem joined_follows (D : C.Displays env env' display shows)
    (hf : ∀ content site, Tidy (f content site)) (content : Pattern) (site : Site)
    (h : C.Agrees env env' V W f g (elementsLocated content.elements site 0) content.mentions
      content.texts (content.uses site)) :
    Follows C.bad C.sound V W C.related (joined env f content site)
      (joinedBy env' g display content site) := by
  obtain ⟨content, span⟩ := content
  rw [joined_eq]
  exact (elements_follows D hf _ site content 0 h).bind (fun _ => .pure _) fun s s' hs =>
    .pure (D.joined hs)

/-- Patterns follow one another, whatever room there is, if all that may be met is admitted. -/
theorem Between.pattern_follows (H : C.Between env env') (D : C.Displays env env' display shows)
    (hcyclic : ¬C.bad .cyclic → C.sound .cyclic) :
    ∀ (room : Nat) (V : List Site) (content : Pattern) (site : Site),
      (∀ inner, env.store.Meets content site inner → C.Admits env inner) →
      Follows C.bad C.sound V V C.related (pattern env room content site)
        (patternBy env' display room content site) := by
  have hseen : ∀ V, Follows C.bad C.sound V V C.related cyclic cyclic := fun V =>
    .report_bind (.pure _) fun hbad => ⟨hcyclic hbad, .pure (H.missing _ _ hbad (by simp))⟩
  intro room
  induction room with
  -- without room a pattern that is no plain text fails as if it had been entered already
  | zero =>
    intro V content site hcontent
    rw [pattern.eq_def, patternBy.eq_def]
    cases hsimple : content.simpleText? with
    | some text =>
      exact .pure (H.literal text ((hcontent _ (env.store.meets_self content site)).texts text
        (Pattern.simpleText?_mem_texts hsimple)))
    | none => exact .ask (fun _ => hseen V) fun _ => hseen V
  | succ room ih =>
    intro V content site hcontent
    have hself := hcontent _ (env.store.meets_self content site)
    rw [pattern.eq_def, patternBy.eq_def]
    cases hsimple : content.simpleText? with
    | some text => exact .pure (H.literal text (hself.texts text
        (Pattern.simpleText?_mem_texts hsimple)))
    | none =>
      refine .ask (fun _ => hseen V) fun _ => ?_
      dsimp only
      rw [visit_eq]
      -- both sides are at the same site now, and `ih` is about what is nested in the pattern and
      -- about what it refers to
      refine .within_left (.within_right ?_)
      refine joined_follows D (pattern_tidy room) content site
        ⟨H, fun inner hinner => ?_, fun content' site' hroot hstands => ?_, hself.texts,
          fun use huse errors => hself.uses use huse room _⟩
      · exact ih _ _ _ fun other hother => hcontent other (hother.of_nested hinner)
      · exact ih _ _ _ fun other hother => hcontent other (hother.of_referred hroot hstands)

end Comparison

end Resolver

end Localization
