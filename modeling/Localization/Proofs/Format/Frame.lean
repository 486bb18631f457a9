import Localization.Proofs.Format.Nesting

/-!
# What resolving leaves of a scope

Resolving leaves the visited sites as they were and adds errors behind those that are there. What
it gives and which errors it adds is decided by the set of visited sites alone. So requests that are
made through one scope do not disturb one another, and neither do the elements of a pattern.

## Main definitions

* `Resolver.outcome` — the result and the errors of a computation, by the visited sites
* `Resolver.Frames` — computations that the outcome is all that is known about
* `Request` — a pattern or a message to format
* `Resolver.contribution` — what one element adds to the text of a pattern

## Main statements

* `Resolver.Frames.mapM` — computations one after another keep their outcomes
* `Resolver.outcome_pattern` — the elements of a pattern contribute to it one by one
* `Environment.resolution_frames` — resolving leaves the scope as it was
-/

namespace Localization

namespace Resolver

variable {α β : Type} {V W : List Site}

/-! ### Outcomes -/

/-- The result of a computation and the errors that it records while some sites are visited. -/
def outcome (x : Resolver α) (visiting : List Site) : α × List ResolveError :=
  let (result, scope) := StateT.run x ⟨visiting, []⟩
  (result, scope.errors)

theorem run_eq_outcome (x : Resolver α) : run x = outcome x [] := rfl

/-- The outcome of a computation is all that it does to a scope, and it depends on which sites are
visited, but neither on their order nor on earlier errors. -/
structure Frames (x : Resolver α) : Prop where
  run_eq : ∀ visiting errors, StateT.run x ⟨visiting, errors⟩ =
    ((outcome x visiting).1, ⟨visiting, errors ++ (outcome x visiting).2⟩)
  congr : ∀ visiting visiting', (∀ site, site ∈ visiting ↔ site ∈ visiting') →
    outcome x visiting = outcome x visiting'

theorem Tidy.run_eq {x : Resolver α} (hx : Tidy x) (V : List Site) (errors : List ResolveError) :
    StateT.run x ⟨V, errors⟩ = ((outcome x V).1, ⟨V, errors ++ (outcome x V).2⟩) := by
  obtain ⟨result, recorded, hrun⟩ := hx V
  have houtcome : outcome x V = (result, recorded) := by
    unfold outcome
    rw [hrun]
    rfl
  rw [hrun, houtcome]

theorem outcome_pure (result : α) (V : List Site) :
    outcome (Pure.pure result : Resolver α) V = (result, []) := rfl

/-- The outcome of one computation after another is put together from both. -/
theorem Tidy.outcome_bind {x : Resolver α} (hx : Tidy x) {f : α → Resolver β}
    (hf : ∀ a, Tidy (f a)) (V : List Site) :
    outcome (x >>= f) V =
      ((outcome (f (outcome x V).1) V).1,
        (outcome x V).2 ++ (outcome (f (outcome x V).1) V).2) := by
  conv_lhs => unfold outcome
  rw [StateT.run_bind, hx.run_eq]
  change ((StateT.run (f (outcome x V).1) _).1, (StateT.run (f (outcome x V).1) _).2.errors) = _
  rw [(hf _).run_eq, List.nil_append]

theorem Tidy.outcome_map {x : Resolver α} (hx : Tidy x) (f : α → β) (V : List Site) :
    outcome (do return f (← x)) V = (f (outcome x V).1, (outcome x V).2) := by
  rw [hx.outcome_bind fun _ => .pure _]
  simp only [outcome_pure, List.append_nil]

/-- The outcome within a site is the outcome with that site visited. -/
theorem Tidy.outcome_within {x : Resolver α} (hx : Tidy x) (site : Site) (V : List Site) :
    outcome (within site x) V = outcome x (site :: V) := by
  conv_lhs => unfold outcome
  rw [run_within (hx.run_eq (site :: V) []), List.nil_append]

/-- Asking whether a site is visited decides between two outcomes. -/
theorem outcome_ask (site : Site) (seen unseen : Resolver Value) (V : List Site) :
    outcome (do if site ∈ (← get).visiting then seen else unseen) V =
      if site ∈ V then outcome seen V else outcome unseen V := by
  split
  · next hsite =>
    unfold outcome
    rw [run_ask_of_mem hsite]
  · next hsite =>
    unfold outcome
    rw [run_ask_of_not_mem hsite]

/-- Computations that are alike have the same outcome. -/
theorem Alike.outcome_eq {P : ResolveError → Prop} {x y : Resolver α} (h : Alike P V W x y) :
    outcome x V = outcome y W := by
  obtain ⟨result, recorded, -, hx, hy⟩ := h []
  unfold outcome
  rw [hx, hy]

theorem Frames.tidy {x : Resolver α} (h : Frames x) : Tidy x :=
  fun V => ⟨(outcome x V).1, (outcome x V).2, h.run_eq V⟩

theorem Frames.pure (result : α) : Frames (Pure.pure result) :=
  ⟨(Tidy.pure result).run_eq, fun _ _ _ => rfl⟩

/-- Two parts in sequence leave the frame alone if each of them does. -/
theorem Frames.bind {x : Resolver α} {f : α → Resolver β} (hx : Frames x)
    (hf : ∀ a, Frames (f a)) : Frames (x >>= f) := by
  refine ⟨(hx.tidy.bind fun a => (hf a).tidy).run_eq, fun V W hsame => ?_⟩
  rw [hx.tidy.outcome_bind fun a => (hf a).tidy, hx.tidy.outcome_bind fun a => (hf a).tidy,
    hx.congr V W hsame, (hf _).congr V W hsame]

theorem report_frames (error : ResolveError) : Frames (report error) :=
  ⟨(report_tidy error).run_eq, fun _ _ _ => rfl⟩

/-- Computations that are done one after another have the results and the errors that each of them
has on its own. -/
theorem Frames.mapM {x : α → Resolver β} (hx : ∀ a, Frames (x a)) (content : List α) :
    Frames (content.mapM x) ∧ ∀ V, outcome (content.mapM x) V =
      (content.map fun a => (outcome (x a) V).1, content.flatMap fun a => (outcome (x a) V).2) := by
  induction content with
  | nil => exact ⟨.pure _, fun _ => rfl⟩
  | cons a rest ih =>
    obtain ⟨hrest, houtcome⟩ := ih
    rw [List.mapM_cons]
    have hlast : ∀ b, Frames (do return b :: (← rest.mapM x)) := fun b =>
      hrest.bind fun _ => .pure _
    refine ⟨(hx a).bind hlast, fun V => ?_⟩
    rw [(hx a).tidy.outcome_bind fun b => (hlast b).tidy, hrest.tidy.outcome_map, houtcome]
    rfl

/-! ### Expressions and patterns -/

variable (env : Environment)

/-- The order in which sites have been visited makes no difference for a pattern. -/
theorem pattern_alike_self (room : Nat) (content : Pattern) (site : Site)
    (hsame : ∀ site, site ∈ V ↔ site ∈ W) :
    Alike (fun _ => True) V W (pattern env room content site) (pattern env room content site) := by
  have hcyclic : ∀ V W, Alike (fun _ => True) V W cyclic cyclic := fun V W =>
    (Alike.report trivial).bind fun _ => .pure _
  -- the visited sites grow by the same site on both sides, so they stay the same set
  induction room generalizing V W content site with
  | zero =>
    rw [pattern.eq_def]
    cases content.simpleText? with
    | some text => exact .pure _
    | none =>
      by_cases hsite : site ∈ V
      · exact .ask_seen hsite ((hsame site).1 hsite) (hcyclic V W)
      · exact .ask_left hsite (.ask_right (fun h => hsite ((hsame site).2 h)) (hcyclic V W))
  | succ room ih =>
    rw [pattern.eq_def]
    cases content.simpleText? with
    | some text => exact .pure _
    | none =>
      by_cases hsite : site ∈ V
      · exact .ask_seen hsite ((hsame site).1 hsite) (hcyclic V W)
      · refine .ask_left hsite (.ask_right (fun h => hsite ((hsame site).2 h)) ?_)
        have hsame' : ∀ other, other ∈ site :: V ↔ other ∈ site :: W := fun other => by
          rw [List.mem_cons, List.mem_cons, hsame]
        exact .visit_left (.visit_right (joined_alike (reports_true env) (pattern_tidy room)
          ⟨fun inner _ => ih _ _ hsame', fun content site _ _ => ih content site hsame'⟩))

/-- Formatting a pattern leaves the frame alone. -/
theorem pattern_frames (room : Nat) (content : Pattern) (site : Site) :
    Frames (pattern env room content site) :=
  ⟨(pattern_tidy room content site).run_eq, fun _ _ hsame =>
    (pattern_alike_self env room content site hsame).outcome_eq⟩

/-- Evaluating an expression leaves the frame alone. -/
theorem expression_frames (room : Nat) (content : Expression) (site : Site) :
    Frames (expression env (pattern env room) content site) := by
  refine ⟨(expression_tidy (pattern_tidy room) content site).run_eq, fun V W hsame => ?_⟩
  have hpattern : ∀ content site, Follows (fun _ => False) (fun _ => True) V W Eq
      (pattern env room content site) (pattern env room content site) := fun content site =>
    alike_iff_follows.1 (pattern_alike_self env room content site hsame)
  have hfollows := Comparison.expression_follows (pattern_tidy room) content site
    ⟨(reports_true env).between, fun inner _ => hpattern inner.1 inner.2,
      fun content site _ _ => hpattern content site, fun _ _ => trivial, fun _ _ _ => trivial⟩
  exact (alike_iff_follows.2 hfollows).outcome_eq

/-! ### Elements -/

/-- A text is shown up to the limit, and one that is longer is reported. -/
theorem outcome_cut (text : List Char) :
    outcome (cut env text) V = (text.take env.options.maxLength,
      if env.options.maxLength < text.length then [.tooLong text.length env.options.maxLength]
      else []) := by
  unfold cut
  dsimp only
  split
  · rfl
  · rfl

/-- What the element at an index adds to the text of a pattern, and the errors on the way, while
some sites and that of the pattern are visited. -/
def contribution (room : Nat) (isolated : Bool) (site : Site) (visiting : List Site)
    (element : PatternElement × Nat) : List Char × List ResolveError :=
  outcome (elements env (pattern env room) isolated site [element.1] element.2) (site :: visiting)

variable {f : Enter}

/-- The first element of a list, and then the others. -/
theorem elements_cons (isolated : Bool) (site : Site) (element : PatternElement)
    (rest : List PatternElement) (index : Nat) :
    elements env f isolated site (element :: rest) index = (do
      let text ← elements env f isolated site [element] index
      return text ++ (← elements env f isolated site rest (index + 1))) := by
  cases element with
  | text text _ =>
    simp only [elements, pure_bind, List.append_nil]
  | placeable content _ =>
    simp only [elements, pure_bind, bind_assoc, List.append_nil]

theorem outcome_elements (room : Nat) (isolated : Bool) (site : Site) (visiting : List Site)
    (content : List PatternElement) (index : Nat) :
    outcome (elements env (pattern env room) isolated site content index) (site :: visiting) =
      ((content.zipIdx index).flatMap fun element =>
          (contribution env room isolated site visiting element).1,
        (content.zipIdx index).flatMap fun element =>
          (contribution env room isolated site visiting element).2) := by
  have htidy : ∀ content index,
      Tidy (elements env (pattern env room) isolated site content index) :=
    elements_tidy (pattern_tidy room) isolated site
  induction content generalizing index with
  | nil => rfl
  | cons element rest ih =>
    rw [elements_cons, (htidy [element] index).outcome_bind fun _ =>
      (htidy rest (index + 1)).bind fun _ => .pure _, (htidy rest (index + 1)).outcome_map, ih]
    rfl

/-- A pattern that is neither a single text nor visited already is made up of what each of its
elements contributes. -/
theorem outcome_pattern (room : Nat) (content : Pattern) (site : Site) (visiting : List Site) :
    outcome (pattern env (room + 1) content site) visiting =
      match content.simpleText? with
      | some text => (.string text, [])
      | none =>
        if site ∈ visiting then (.none none, [.cyclic])
        else
          let isolated := env.options.isolating && decide (1 < content.elements.length)
          let contributions :=
            content.elements.zipIdx.map (contribution env room isolated site visiting)
          (.string (String.ofList (contributions.flatMap Prod.fst)),
            contributions.flatMap Prod.snd) := by
  rw [pattern.eq_def]
  cases content.simpleText? with
  | some text => rfl
  | none =>
    by_cases hsite : site ∈ visiting
    · rw [outcome_ask, if_pos hsite, if_pos hsite]
      rfl
    -- entering the site only adds it to the visited ones, under which the elements are resolved
    · have htidy : Tidy (joined env (pattern env room) content site) :=
        joined_tidy (pattern_tidy room) content site
      rw [outcome_ask, if_neg hsite, if_neg hsite]
      dsimp only
      rw [visit_eq, htidy.outcome_within, joined,
        (elements_tidy (pattern_tidy room) _ site _ 0).outcome_map, outcome_elements,
        List.flatMap_map, List.flatMap_map]

end Resolver

/-! ### Requests -/

/-- A pattern or a message to format. -/
inductive Request where
  | pattern (content : Pattern) (site : Site)
  | message (found : Message) (root : Root)

namespace Request

/-- The text that is asked for. -/
def format (env : Environment) : Request → Resolver String
  | .pattern content site => env.formatPattern content site
  | .message found root => env.formatMessage found root

theorem format_frames (env : Environment) :
    ∀ request : Request, Resolver.Frames (request.format env)
  | .pattern content site =>
    (Resolver.pattern_frames env _ content site).bind fun _ => .pure _
  | .message found root => by
    change Resolver.Frames (env.formatMessage found root)
    unfold Environment.formatMessage
    cases found.value with
    | some content => exact (Resolver.pattern_frames env _ content _).bind fun _ => .pure _
    | none => exact (Resolver.report_frames _).bind fun _ => .pure _

end Request

namespace Environment

open Resolver

variable (env : Environment)

/-- Resolving a pattern or an expression leaves the scope as it was but for errors that it adds at
the end; the set of visited sites decides on them and on the value. So requests that share a scope
get the texts and the errors that each of them gets in a scope of its own, and each element of a
pattern contributes to it what it would contribute without the others. -/
theorem resolution_frames :
    (∀ room content site, Frames (pattern env room content site)) ∧
    (∀ room content site, Frames (expression env (pattern env room) content site)) ∧
    (∀ (requests : List Request) (errors : List ResolveError),
      StateT.run (requests.mapM (Request.format env)) ⟨[], errors⟩ =
        (requests.map fun request => (run (request.format env)).1,
          ⟨[], errors ++ requests.flatMap fun request => (run (request.format env)).2⟩)) ∧
    ∀ room content site visiting, outcome (pattern env (room + 1) content site) visiting =
      match content.simpleText? with
      | some text => (.string text, [])
      | none =>
        if site ∈ visiting then (.none none, [.cyclic])
        else
          let isolated := env.options.isolating && decide (1 < content.elements.length)
          let contributions :=
            content.elements.zipIdx.map (contribution env room isolated site visiting)
          (.string (String.ofList (contributions.flatMap Prod.fst)),
            contributions.flatMap Prod.snd) := by
  refine ⟨pattern_frames env, expression_frames env, fun requests errors => ?_, outcome_pattern env⟩
  obtain ⟨hframes, houtcome⟩ := Frames.mapM (Request.format_frames env) requests
  rw [hframes.run_eq, houtcome]
  rfl

end Environment

end Localization
