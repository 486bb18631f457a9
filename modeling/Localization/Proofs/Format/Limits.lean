import Localization.Proofs.Format.Frame
import Mathlib.Algebra.Ring.Nat

/-!
# How much a pattern shows

A pattern shows its own texts in full and of each placeable no more than a limit, so its length is
bounded whatever its placeables refer to. A placeable that is longer is cut, and the report of it
stands between the errors of that placeable and those of the next one.

## Main definitions

* `Pattern.ownLength`, `Pattern.placeableCount` — what is counted of a pattern
* `Resolver.placed` — the value of a placeable, with the errors on the way to it
* `Resolver.shownAt`, `Resolver.reportedAt` — what an element shows and what it reports

## Main statements

* `Resolver.contribution_eq` — what an element adds to a pattern
* `Resolver.length_shownAt_le` — an element shows no more than it may
* `Environment.format_within_limit` — what a pattern shows and reports, and how much at most
-/

namespace Localization

/-! ### What is counted of a pattern -/

/-- The number of characters that an element has of its own. -/
def PatternElement.ownLength : PatternElement → Nat
  | .text value _ => value.length
  | .placeable _ _ => 0

/-- Whether an element is a placeable. -/
def PatternElement.isPlaceable : PatternElement → Bool
  | .text _ _ => false
  | .placeable _ _ => true

namespace Pattern

variable (pattern : Pattern)

/-- The number of characters in the texts of a pattern, those in nested patterns left out. -/
def ownLength : Nat := (pattern.elements.map PatternElement.ownLength).sum

/-- The number of placeables of a pattern, those in nested patterns left out. -/
def placeableCount : Nat := pattern.elements.countP PatternElement.isPlaceable

end Pattern

namespace Resolver

/-- The number of characters that isolation adds to a placeable. -/
def marksLength (isolated : Bool) : Nat := if isolated then 2 else 0

theorem length_isolate (isolated : Bool) (text : List Char) :
    (isolate isolated text).length = text.length + marksLength isolated := by
  cases isolated
  · rfl
  · simp [isolate, marksLength]

/-! ### What elements add to a pattern -/

/-- The report that a text is longer than the limit, if it is. -/
def excess (limit : Nat) (text : List Char) : List ResolveError :=
  if limit < text.length then [.tooLong text.length limit] else []

variable (env : Environment) (room : Nat) (site : Site) (visiting : List Site)

/-- The value of the placeable at an index of a pattern, with the errors on the way to it, while
some sites and that of the pattern are visited. -/
def placed (content : Expression) (index : Nat) : Value × List ResolveError :=
  outcome (expression env (pattern env room) content (site.part index)) (site :: visiting)

/-- What the element at an index shows: its own text, or the first characters of its value. -/
def shownAt (isolated : Bool) : PatternElement × Nat → List Char
  | (.text text _, _) => text.toList
  | (.placeable content _, index) =>
    isolate isolated
      ((placed env room site visiting content index).1.format.toList.take env.options.maxLength)

/-- What the element at an index reports: the errors on the way to its value, and behind them that
the value is too long, if it is. -/
def reportedAt : PatternElement × Nat → List ResolveError
  | (.text _ _, _) => []
  | (.placeable content _, index) =>
    let (value, errors) := placed env room site visiting content index
    errors ++ excess env.options.maxLength value.format.toList

/-- An element adds what it shows and what it reports. -/
theorem contribution_eq (isolated : Bool) (element : PatternElement × Nat) :
    contribution env room isolated site visiting element =
      (shownAt env room site visiting isolated element,
        reportedAt env room site visiting element) := by
  obtain ⟨element, index⟩ := element
  unfold contribution
  cases element with
  | text text span =>
    simp only [elements, pure_bind, List.append_nil]
    rfl
  | placeable content span =>
    have hexpression : Tidy (expression env (pattern env room) content (site.part index)) :=
      expression_tidy (pattern_tidy room) content _
    have hcut : ∀ value : Value, Tidy (do
        return isolate isolated (← cut env value.format.toList) : Resolver (List Char)) :=
      fun value => (cut_tidy _).bind fun _ => .pure _
    simp only [elements, pure_bind, List.append_nil]
    rw [hexpression.outcome_bind hcut, (cut_tidy _).outcome_map, outcome_cut]
    rfl

/-- An element shows its own text, or a placeable up to the limit and the marks around it. -/
theorem length_shownAt_le (isolated : Bool) (element : PatternElement) (index : Nat) :
    (shownAt env room site visiting isolated (element, index)).length ≤
      element.ownLength + (if element.isPlaceable then 1 else 0) *
        (env.options.maxLength + marksLength isolated) := by
  cases element with
  | text text span =>
    exact Nat.le_trans (Nat.le_of_eq String.length_toList) (Nat.le_add_right _ _)
  | placeable content span =>
    have hcut := List.length_take_le env.options.maxLength
      (placed env room site visiting content index).1.format.toList
    simp only [shownAt, length_isolate, PatternElement.ownLength, PatternElement.isPlaceable,
      if_true, Nat.one_mul, Nat.zero_add]
    exact Nat.add_le_add_right hcut _

/-- Elements show their own texts, and of each placeable no more than the limit and the marks. -/
theorem length_flatMap_shownAt_le (isolated : Bool) (content : List PatternElement)
    (index : Nat) :
    ((content.zipIdx index).flatMap (shownAt env room site visiting isolated)).length ≤
      (content.map PatternElement.ownLength).sum + content.countP PatternElement.isPlaceable *
        (env.options.maxLength + marksLength isolated) := by
  induction content generalizing index with
  | nil => exact Nat.zero_le _
  | cons element rest ih =>
    have hfirst := length_shownAt_le env room site visiting isolated element index
    have hrest := ih (index + 1)
    rw [List.zipIdx_cons, List.flatMap_cons, List.length_append, List.map_cons, List.sum_cons,
      List.countP_cons, Nat.add_mul]
    omega

theorem marksLength_le (isolated beside : Bool) :
    marksLength (isolated && beside) ≤ marksLength isolated := by
  cases isolated <;> cases beside <;> decide

/-- A pattern that is not being resolved already shows what its elements show and reports what they
report. -/
theorem outcome_pattern_elements (content : Pattern) (hsite : site ∉ visiting) :
    let isolated := env.options.isolating && decide (1 < content.elements.length)
    outcome (pattern env (room + 1) content site) visiting =
      (.string (String.ofList
          (content.elements.zipIdx.flatMap (shownAt env room site visiting isolated))),
        content.elements.zipIdx.flatMap (reportedAt env room site visiting)) := by
  intro isolated
  have hpattern := outcome_pattern env room content site visiting
  cases htext : content.simpleText? with
  | some text =>
    rw [htext] at hpattern
    rw [hpattern]
    -- a single text is shown whole, and it is the only element
    obtain ⟨span, helements⟩ := Pattern.elements_of_simpleText? htext
    simp [helements, shownAt, reportedAt]
  | none =>
    rw [htext] at hpattern
    simp only [if_neg hsite, List.flatMap_map, contribution_eq] at hpattern
    exact hpattern

end Resolver

/-! ### Formatting -/

namespace Environment

open Resolver

variable (env : Environment)

/-- The most characters that a pattern shows. -/
def mostLength (content : Pattern) : Nat :=
  content.ownLength +
    content.placeableCount * (env.options.maxLength + marksLength env.options.isolating)

theorem length_shown_le (room : Nat) (site : Site) (visiting : List Site) (content : Pattern)
    (beside : Bool) :
    (content.elements.zipIdx.flatMap
      (shownAt env room site visiting (env.options.isolating && beside))).length ≤
        env.mostLength content := by
  refine Nat.le_trans (length_flatMap_shownAt_le env room site visiting _ content.elements 0) ?_
  have hmarks := marksLength_le env.options.isolating beside
  exact Nat.add_le_add_left (Nat.mul_le_mul_left _ (Nat.add_le_add_left hmarks _)) _

/-- A pattern that is not being resolved already, with room left, is resolved to what its elements
show, in their order, and reports what they report, in the same order. Of each placeable that are
the first characters of its value up to the limit, and one report behind the errors of the value if
it is longer. So whatever the placeables refer to, the text is not longer than the texts of the
pattern, the limit for each placeable, and the marks around it. -/
theorem format_within_limit :
    (∀ room content site visiting errors, site ∉ visiting →
      let isolated := env.options.isolating && decide (1 < content.elements.length)
      ∃ text recorded, StateT.run (pattern env (room + 1) content site) ⟨visiting, errors⟩ =
          (.string text, ⟨visiting, errors ++ recorded⟩) ∧
        text.toList = content.elements.zipIdx.flatMap (shownAt env room site visiting isolated) ∧
        recorded = content.elements.zipIdx.flatMap (reportedAt env room site visiting) ∧
        text.length ≤ content.ownLength + content.placeableCount *
          (env.options.maxLength + if env.options.isolating then 2 else 0)) ∧
    ∀ content site, (run (env.formatPattern content site)).1.length ≤
      content.ownLength + content.placeableCount *
        (env.options.maxLength + if env.options.isolating then 2 else 0) := by
  have hbounded : ∀ room content site visiting errors, site ∉ visiting →
      ∃ text recorded, StateT.run (pattern env (room + 1) content site) ⟨visiting, errors⟩ =
          (.string text, ⟨visiting, errors ++ recorded⟩) ∧
        text.toList = content.elements.zipIdx.flatMap (shownAt env room site visiting
          (env.options.isolating && decide (1 < content.elements.length))) ∧
        recorded = content.elements.zipIdx.flatMap (reportedAt env room site visiting) ∧
        text.length ≤ env.mostLength content := by
    intro room content site visiting errors hsite
    have htidy : Tidy (pattern env (room + 1) content site) := pattern_tidy _ content site
    have hrun := htidy.run_eq visiting errors
    rw [outcome_pattern_elements env room site visiting content hsite] at hrun
    refine ⟨_, _, hrun, String.toList_ofList, rfl, ?_⟩
    rw [String.length_ofList]
    exact env.length_shown_le room site visiting content _
  refine ⟨hbounded, fun content site => ?_⟩
  -- formatting starts with room for the pattern itself
  have hroom : env.store.patternCount + content.patternCount =
      env.store.patternCount + elementsCount content.elements + 1 := by
    cases content
    rfl
  rw [run_eq_outcome, formatPattern, hroom, (pattern_tidy _ _ _).outcome_map,
    outcome_pattern_elements env _ site [] content List.not_mem_nil]
  change (String.ofList _).length ≤ _
  rw [String.length_ofList]
  exact env.length_shown_le _ site [] content _

/-- Both placeables of `x{ "abcd" }{ $name }` are longer than two characters. The second one has an
error of its own, and its report comes behind that. -/
theorem format_within_limit_cut :
    ∃ (env : Environment) (content : Pattern) (text : String),
      Site.value .loose ∉ ([] : List Site) ∧
      StateT.run (pattern env 1 content (.value .loose)) ⟨[], []⟩ =
        (.string text, ⟨[], [.tooLong 4 2, .unknownVariable "name", .tooLong 4 2]⟩) ∧
      text = "x\u2068ab\u2069\u2068na\u2069" ∧ text.length ≤ 1 + 2 * (2 + 2) := by
  let env : Environment := ⟨.empty, none, ⟨[], .default⟩, ⟨true, 2⟩⟩
  let content : Pattern :=
    ⟨[.text "x" default, .placeable (.stringLiteral "abcd" default) default,
      .placeable (.variableReference ⟨"name", default⟩ default) default], default⟩
  obtain ⟨text, recorded, hrun, htext, hrecorded, hlength⟩ :=
    env.format_within_limit.1 0 content (.value .loose) [] [] List.not_mem_nil
  have hreports : recorded = [.tooLong 4 2, .unknownVariable "name", .tooLong 4 2] :=
    hrecorded.trans (by decide +kernel)
  refine ⟨env, content, text, List.not_mem_nil, ?_, ?_, hlength⟩
  · rw [hrun, hreports]
    rfl
  · exact String.toList_inj.1 (htext.trans (by decide +kernel))

end Environment

end Localization
