import Localization.Proofs.Format.Follows

/-!
# Resolvers that agree

Two ways to resolve patterns in one environment that agree on the nested patterns of an expression
and on what it refers to agree on the expression, too: they give the same value, record the same
errors, and leave the sites that are visited as they were. This is how one computation follows
another one with nothing broken off and equal values.

## Main definitions

* `Resolver.Alike` — computations that give the same result and record the same errors
* `Resolver.Reports` — a property of all errors that are recorded outside of patterns
* `Resolver.alikeness` — the comparison of values for equality

## Main statements

* `Resolver.joined_alike` — the elements of a pattern agree where the patterns in them do
-/

namespace Localization.Resolver

variable {α β : Type} {P : ResolveError → Prop} {V W : List Site}

/-- Starting with the same errors, but with visited sites of their own, two computations give the
same result and record the same errors; they leave the visited sites as they were. -/
def Alike (P : ResolveError → Prop) (V W : List Site) (x y : Resolver α) : Prop :=
  ∀ errors, ∃ result recorded, (∀ error ∈ recorded, P error) ∧
    StateT.run x ⟨V, errors⟩ = (result, ⟨V, errors ++ recorded⟩) ∧
    StateT.run y ⟨W, errors⟩ = (result, ⟨W, errors ++ recorded⟩)

/-! ### Computations -/

/-- Two computations are alike if one follows the other on equal values, whatever errors there are.
-/
theorem alike_iff_follows {x y : Resolver α} :
    Alike P V W x y ↔ Follows (fun _ => False) P V W Eq x y := by
  constructor
  · intro h errors
    obtain ⟨result, recorded, hrecorded, hx, hy⟩ := h errors
    exact ⟨result, recorded, hx, fun _ => ⟨hrecorded, result, hy, rfl⟩⟩
  · intro h errors
    obtain ⟨result, recorded, hx, hfollows⟩ := h errors
    obtain ⟨hrecorded, _, hy, rfl⟩ := hfollows fun _ _ => id
    exact ⟨result, recorded, hrecorded, hx, hy⟩

theorem Alike.pure (result : α) : Alike P V W (Pure.pure result) (Pure.pure result) :=
  alike_iff_follows.2 (.pure rfl)

/-- Two parts in sequence are alike if each of them is. -/
theorem Alike.bind {x y : Resolver α} {f g : α → Resolver β} (h : Alike P V W x y)
    (hfg : ∀ result, Alike P V W (f result) (g result)) :
    Alike P V W (x >>= f) (y >>= g) := by
  intro errors
  obtain ⟨result, recorded, hrecorded, hx, hy⟩ := h errors
  obtain ⟨result', recorded', hrecorded', hf, hg⟩ := hfg result (errors ++ recorded)
  rw [List.append_assoc] at hf hg
  refine ⟨result', recorded ++ recorded', ?_, ?_, ?_⟩
  · exact fun error herror => (List.mem_append.1 herror).elim (hrecorded error) (hrecorded' error)
  · rw [StateT.run_bind, hx]
    exact hf
  · rw [StateT.run_bind, hy]
    exact hg

theorem Alike.report {error : ResolveError} (herror : P error) :
    Alike P V W (report error) (report error) :=
  fun _ => ⟨(), [error], by simpa using herror, rfl, rfl⟩

/-! ### Patterns -/

/-- A property of all errors that are recorded while patterns are resolved, other than that a
pattern is cyclic. -/
structure Reports (env : Environment) (P : ResolveError → Prop) : Prop where
  own : ∀ error, error ≠ .cyclic → P error
  function : ∀ name function, env.function? name = some function →
    ∀ positional named error, function positional named = .error error → P error

/-- Nothing is asked of errors. -/
theorem reports_true (env : Environment) : Reports env fun _ => True :=
  ⟨fun _ _ => trivial, fun _ _ _ _ _ _ _ => trivial⟩

/-- Two ways to resolve patterns agree on nested patterns, and on all patterns of the messages and
terms that are referred to. -/
structure Agree (store : Store) (P : ResolveError → Prop) (V W : List Site) (f g : Enter)
    (located : List (Pattern × Site)) (mentions : List Root) : Prop where
  nested : ∀ inner ∈ located, Alike P V W (f inner.1 inner.2) (g inner.1 inner.2)
  referred : ∀ pattern site, site.root ∈ mentions → store.Stands pattern site →
    Alike P V W (f pattern site) (g pattern site)

variable {env : Environment} {f g : Enter}

/-- Values are compared for equality, and nothing is broken off. -/
def alikeness (P : ResolveError → Prop) : Comparison where
  ok _ := True
  bad _ := False
  sound := P
  related := Eq
  used _ := True

theorem Reports.between (hP : Reports env P) : (alikeness P).Between env env where
  locale := rfl
  args := rfl
  functions _ := (alikeness P).answers_of_eq rfl
  found _ _ h := ⟨h, trivial⟩
  unknown _ h _ := h
  own error herror _ := hP.own error herror
  literal _ _ := rfl
  number _ _ := rfl
  argument _ _ _ _ _ := rfl
  missing _ _ _ _ := rfl
  fallback _ _ := trivial
  eq_of_used _ _ h _ := h
  result _ _ _ _ _ _ _ _ := rfl
  failure name function positional named error hfunction herror _ :=
    hP.function name function hfunction positional named error herror

/-- A pattern is formatted alike if the patterns in it and those it refers to are entered alike. -/
theorem joined_alike (hP : Reports env P) (hf : ∀ content site, Tidy (f content site))
    {content : Pattern} {site : Site}
    (h : Agree env.store P V W f g (elementsLocated content.elements site 0) content.mentions) :
    Alike P V W (joined env f content site) (joined env g content site) := by
  rw [joined_eq content site (f := g)]
  exact alike_iff_follows.2 (Comparison.joined_follows
    (hP.between.displays_of_eq rfl rfl) hf content site
    ⟨hP.between, fun inner hinner => alike_iff_follows.1 (h.nested inner hinner),
      fun pattern site hroot hstands => alike_iff_follows.1 (h.referred pattern site hroot hstands),
      fun _ _ => trivial, fun _ _ _ => trivial⟩)

end Localization.Resolver
