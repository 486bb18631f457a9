import Localization.Proofs.Format.Builtin
import Localization.Proofs.Format.Follows

/-!
# No silent fallback

Something may be shown in place of a value that is missing, and a placeable may be cut. Neither
happens without an error: where none is recorded, all values are there and shown as a whole. So
resolving goes the same with a watch on what placeables show, up to the first error.

## Main definitions

* `Resolver.watched` — a watch on fallbacks and cuts
* `Resolver.Warns` — a computation records an error, or goes the same as a watched one

## Main statements

* `Environment.no_silent_fallback` — without an error there is a value, and nothing is missing
-/

namespace Localization

theorem Value.ofNumberText_isNone (text : String) : (ofNumberText text).isNone = false := by
  unfold ofNumberText
  split <;> rfl

namespace Resolver

variable {V W : List Site}

/-- A placeable shows its value as it is. If there is none, or if its text would have to be cut,
it raises the alarm. -/
def watched (env : Environment) (alarm : Resolver (List Char)) : Display := fun beside value => do
  if value.isNone || decide (env.options.maxLength < value.format.toList.length) then alarm
  else return isolate (env.options.isolating && beside) value.format.toList

variable {env : Environment}

/-- Up to the first error, values are compared for equality, and they are there. -/
def presence : Comparison where
  ok _ := True
  bad _ := True
  sound _ := True
  related v w := v = w ∧ v.isNone = false
  used _ := True

theorem presence_between (hfunctions : env.store.functions = .empty)
    (hargs : ∀ name fallback, env.args.bind (·.get? name) ≠ some (.value (.none fallback))) :
    presence.Between env env where
  locale := rfl
  args := rfl
  functions _ := Comparison.answers_of_eq _ rfl
  found _ _ h := ⟨h, trivial⟩
  unknown _ _ hbad := absurd trivial hbad
  own _ _ _ := trivial
  literal _ _ := ⟨rfl, rfl⟩
  number text _ := ⟨rfl, Value.ofNumberText_isNone text⟩
  argument name argument value hargument hvalue := by
    refine ⟨rfl, ?_⟩
    cases argument with
    | value v =>
      obtain rfl : v = value := by simpa [Argument.toValue?] using hvalue
      cases v with
      | none fallback => exact absurd hargument (hargs name fallback)
      | _ => rfl
    | bool _ => cases hvalue
    | list _ => cases hvalue
    | _ => cases hvalue; rfl
  missing _ _ hbad := absurd trivial hbad
  fallback _ _ := trivial
  eq_of_used _ _ h _ := h.1
  result name function positional named value hfunction hpositional hok := by
    rw [Environment.function?_of_empty hfunctions] at hfunction
    obtain ⟨argument, rfl, hreturns⟩ := Builtin.returns_of_ok hfunction hok
    exact ⟨rfl, hreturns.isNone (hpositional argument List.mem_cons_self).1.2⟩
  failure _ _ _ _ _ _ _ hbad := absurd trivial hbad

/-- A value that is there is shown as it is, or an error is recorded. -/
theorem watched_displays (alarm : Resolver (List Char)) :
    presence.Displays env env (watched env alarm) Eq where
  nil := rfl
  append hs ht := by rw [hs, ht]
  text _ _ := rfl
  shown V W beside v w := by
    rintro ⟨rfl, hvalue⟩
    unfold shown cut watched
    dsimp only
    split
    · rw [bind_assoc]
      exact .of_bad trivial (.pure _)
    · next hlength =>
      rw [if_neg (by simpa [hvalue] using hlength),
        List.take_of_length_le (Nat.le_of_not_lt hlength)]
      exact .pure rfl
  joined h := ⟨by rw [h], rfl⟩

/-! ### Warnings -/

/-- A computation has a value and does what another one does, leaving the scope as it is, or it
records an error. -/
def Warns (x y : Resolver Value) : Prop :=
  ∀ scope, ∃ value recorded,
    StateT.run x scope = (value, ⟨scope.visiting, scope.errors ++ recorded⟩) ∧
      (recorded = [] → value.isNone = false ∧ StateT.run y scope = (value, scope))

theorem Warns.of_follows {bad sound : ResolveError → Prop} {R : Value → Value → Prop}
    {x y : Resolver Value} (h : ∀ V, Follows bad sound V V R x y)
    (hR : ∀ v w, R v w → v = w ∧ v.isNone = false) : Warns x y := by
  rintro ⟨visiting, errors⟩
  obtain ⟨value, recorded, hx, hy⟩ := h visiting errors
  refine ⟨value, recorded, hx, ?_⟩
  rintro rfl
  obtain ⟨-, w, hy, hvalue⟩ := hy (by simp)
  obtain ⟨rfl, hnone⟩ := hR _ _ hvalue
  rw [List.append_nil] at hy
  exact ⟨hnone, hy⟩

end Resolver

namespace Environment

open Resolver (watched)

variable (env : Environment)

/-- Whatever is missing or cut, there is an error. Without functions of the store and arguments that
stand for a missing value, resolving a pattern or an expression that records no error gives a value,
and no placeable on the way raises the alarm, whatever it would do. -/
theorem no_silent_fallback (hfunctions : env.store.functions = .empty)
    (hargs : ∀ name fallback, env.args.bind (·.get? name) ≠ some (.value (.none fallback)))
    (alarm : Resolver (List Char)) (room : Nat) (site : Site) :
    (∀ content : Pattern, Resolver.Warns (Resolver.pattern env room content site)
      (Resolver.patternBy env (watched env alarm) room content site)) ∧
    ∀ content : Expression, Resolver.Warns
      (Resolver.expression env (Resolver.pattern env room) content site)
      (Resolver.expression env (Resolver.patternBy env (watched env alarm) room) content site) := by
  -- both parts compare the run with the one that raises the alarm: as long as there is no error,
  -- related values are equal and there
  let C := Resolver.presence
  have hbetween : C.Between env env := Resolver.presence_between hfunctions hargs
  have hadmits : ∀ inner, C.Admits env inner := fun _ =>
    ⟨fun _ _ => trivial, fun _ _ _ _ => trivial⟩
  have hpattern : ∀ V content site, Resolver.Follows C.bad C.sound V V C.related
      (Resolver.pattern env room content site)
      (Resolver.patternBy env (watched env alarm) room content site) := fun V content site =>
    hbetween.pattern_follows (Resolver.watched_displays alarm) (fun _ => trivial)
      room V content site fun inner _ => hadmits inner
  have hexpression : ∀ V content, Resolver.Follows C.bad C.sound V V C.related
      (Resolver.expression env (Resolver.pattern env room) content site)
      (Resolver.expression env (Resolver.patternBy env (watched env alarm) room) content site) :=
    fun V content => Resolver.Comparison.expression_follows (Resolver.pattern_tidy room)
      content site ⟨hbetween, fun inner _ => hpattern V _ _, fun _ _ _ _ => hpattern V _ _,
        fun _ _ => trivial, fun _ _ _ => trivial⟩
  exact ⟨fun content => .of_follows (hpattern · content site) fun _ _ => id,
    fun content => .of_follows (hexpression · content) fun _ _ => id⟩

/-- A selector, a function and a reference that all have values: there is no error, and no
placeable raises the alarm. -/
theorem no_silent_fallback_plural :
    ∃ (env : Environment) (content : Pattern) (alarm : Resolver (List Char)) (scope : Scope),
      env.store.functions = .empty ∧
      (∀ name fallback, env.args.bind (·.get? name) ≠ some (.value (.none fallback))) ∧
      (StateT.run (Resolver.pattern env 4 content (.value .loose)) scope).1.format = "one fox" ∧
      (StateT.run (Resolver.pattern env 4 content (.value .loose)) scope).2.errors =
        scope.errors ∧
      StateT.run (Resolver.patternBy env (watched env alarm) 4 content (.value .loose)) scope =
        StateT.run (Resolver.pattern env 4 content (.value .loose)) scope := by
  let span : Span := ⟨0, 0⟩
  let variants : List Variant :=
    [⟨.name "one" span, ⟨[.text "one " span, .placeable (.messageReference ⟨"b", span⟩) span],
      span⟩, false, span⟩,
      ⟨.name "other" span, ⟨[.text "foxes" span], span⟩, true, span⟩]
  let selector : Expression :=
    .call ⟨"NUMBER", span⟩ [.positional (.variableReference ⟨"n", span⟩ span)] span
  let content : Pattern := ⟨[.placeable (.select (some selector) variants 1 span) span], span⟩
  let referred : Message := ⟨⟨"b", span⟩, some ⟨[.text "fox" span], span⟩, [], none, span⟩
  let env : Environment :=
    ⟨⟨.ofList [("b", referred)], .empty, .empty⟩, some (.ofList [("n", .number (.ofInt 1))]),
      ⟨["en"], .default⟩, ⟨false, 7⟩⟩
  have hargs : ∀ name fallback, env.args.bind (·.get? name) ≠ some (.value (.none fallback)) := by
    intro name fallback
    simp only [env, Option.bind_some, Bindings.ofList, Bindings.setAll, List.foldl,
      Bindings.get?_set, Bindings.get?_empty]
    split <;> simp
  let scope : Scope := ⟨[.value (.message "a")], [.missingDefault]⟩
  have htext : (StateT.run (Resolver.pattern env 4 content (.value .loose)) scope).1.format =
      "one fox" := by
    decide +kernel
  have herrors : (StateT.run (Resolver.pattern env 4 content (.value .loose)) scope).2.errors =
      scope.errors := by
    decide +kernel
  obtain ⟨value, recorded, hrun, hwatched⟩ :=
    (env.no_silent_fallback rfl hargs (pure ['!']) 4 (.value .loose)).1 content scope
  obtain rfl : recorded = [] := by simpa [hrun] using herrors
  exact ⟨env, content, pure ['!'], scope, rfl, hargs, htext, herrors, by
    rw [(hwatched rfl).2, hrun, List.append_nil]⟩

/-- A variable that is not bound raises the alarm. -/
example :
    let env : Environment := ⟨.empty, none, ⟨["en"], .default⟩, default⟩
    let content : Pattern :=
      ⟨[.placeable (.variableReference ⟨"x", ⟨1, 2⟩⟩ ⟨0, 2⟩) ⟨0, 2⟩], ⟨0, 2⟩⟩
    (StateT.run (Resolver.patternBy env (watched env (pure ['!'])) 1 content (.value .loose))
      Scope.empty).1.format = "!" := by
  decide +kernel

end Environment

end Localization
