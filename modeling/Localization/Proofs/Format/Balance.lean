import Localization.Proofs.Format.Isolation

/-!
# Balanced marks

The mark that ends an isolated placeable stands behind the one that starts it. Placeables nest, and
each is cut before it is isolated, so in front of any place there are no more ends than starts.
There are as many of both unless a placeable was cut that holds isolated ones.

## Main definitions

* `Nested` — no more ends than starts in front of any place
* `Balanced` — and as many of both

## Main statements

* `Environment.format_balanced` — formatted texts are nested, and balanced if nothing is too long
-/

namespace Localization

open Resolver (isolate isolateStart isolateEnd)

/-- In front of any place in a text there are no more ends than starts. -/
def Nested (text : List Char) : Prop :=
  ∀ front, front <+: text → front.count isolateEnd ≤ front.count isolateStart

/-- A nested text with as many starts as ends. -/
structure Balanced (text : List Char) : Prop where
  nested : Nested text
  settled : text.count isolateStart = text.count isolateEnd

variable {s t : List Char}

theorem Unmarked.count_eq_zero (h : Unmarked s) {c : Char} (hmark : isMark c = true) :
    s.count c = 0 :=
  List.count_eq_zero.2 fun hmem => by
    rw [h c hmem] at hmark
    cases hmark

theorem Unmarked.nested (h : Unmarked s) : Nested s := fun front hfront => by
  rw [(h.mono hfront.subset).count_eq_zero (by decide)]
  exact Nat.zero_le _

theorem Unmarked.balanced (h : Unmarked s) : Balanced s :=
  ⟨h.nested, by rw [h.count_eq_zero (by decide), h.count_eq_zero (by decide)]⟩

/-- A front of two texts is one of the first text, or holds all of it. -/
theorem prefix_of_append {front : List Char} (h : front <+: s ++ t) :
    front <+: s ∨ ∃ rest, rest <+: t ∧ front = s ++ rest := by
  rcases List.prefix_or_prefix_of_prefix h (List.prefix_append s t) with hfront | ⟨rest, rfl⟩
  · exact .inl hfront
  · exact .inr ⟨rest, (List.prefix_append_right_inj s).1 h, rfl⟩

theorem Nested.append (hs : Nested s) (ht : Nested t) : Nested (s ++ t) := by
  intro front hfront
  rcases prefix_of_append hfront with hfront | ⟨rest, hrest, rfl⟩
  · exact hs front hfront
  · rw [List.count_append, List.count_append]
    exact Nat.add_le_add (hs s List.prefix_rfl) (ht rest hrest)

theorem Balanced.append (hs : Balanced s) (ht : Balanced t) : Balanced (s ++ t) :=
  ⟨hs.nested.append ht.nested, by
    rw [List.count_append, List.count_append, hs.settled, ht.settled]⟩

theorem Nested.take (h : Nested s) (n : Nat) : Nested (s.take n) :=
  fun front hfront => h front (hfront.trans (List.take_prefix n s))

/-- Behind a start there is room for one more end. -/
theorem Nested.isolate (h : Nested s) (isolated : Bool) : Nested (isolate isolated s) := by
  cases isolated with
  | false => exact h
  | true =>
    intro front hfront
    rcases List.prefix_cons_iff.1 hfront with rfl | ⟨rest, rfl, hrest⟩
    · simp
    · have hstart : isolateStart ≠ isolateEnd := by decide
      rw [List.count_cons_self, List.count_cons_of_ne hstart]
      -- the mark in front makes up for the one at the end, which only the whole text has
      rcases List.prefix_concat_iff.1 hrest with rfl | hrest
      · have hs := h s List.prefix_rfl
        simp only [List.count_append, List.count_singleton]
        split <;> omega
      · exact Nat.le_succ_of_le (h rest hrest)

theorem Balanced.isolate (h : Balanced s) (isolated : Bool) : Balanced (isolate isolated s) := by
  refine ⟨h.nested.isolate isolated, ?_⟩
  cases isolated with
  | false => exact h.settled
  | true =>
    have hstart : isolateStart ≠ isolateEnd := by decide
    simp [Resolver.isolate, List.count_append, hstart, hstart.symm, h.settled]

/-- A property of texts without marks that survives joining and isolating, and cutting before a bad
error, marks equal texts. -/
theorem marking_kept (isolating : Bool) {bad : ResolveError → Prop} {P : List Char → Prop}
    (hunmarked : ∀ {s}, Unmarked s → P s) (happend : ∀ {s t}, P s → P t → P (s ++ t))
    (hisolate : ∀ {s}, P s → ∀ isolated, P (isolate isolated s))
    (hcut : (∀ length limit, bad (.tooLong length limit)) ∨ ∀ {s}, P s → ∀ n, P (s.take n)) :
    Resolver.Marking isolating isolating bad fun s t => s = t ∧ P s where
  unmarked h := ⟨rfl, hunmarked h⟩
  append := by
    rintro s _ t _ ⟨rfl, hs⟩ ⟨rfl, ht⟩
    exact ⟨rfl, happend hs ht⟩
  isolate := by
    rintro beside s _ ⟨rfl, hs⟩
    exact ⟨rfl, hisolate hs _⟩
  length_le := by
    rintro s _ ⟨rfl, -⟩
    exact Nat.le_refl _
  cut := hcut.imp_right fun htake => by
    rintro s _ ⟨rfl, hs⟩
    exact ⟨rfl, fun n => ⟨rfl, htake hs n⟩⟩

namespace Environment

variable (env : Environment) (content : Pattern) (site : Site)

/-- What is said of texts without marks and survives joining, isolating and cutting is said of what
a pattern is formatted to, unless a bad error is reported. -/
theorem format_kept {bad : ResolveError → Prop} {P : List Char → Prop}
    (hunmarked : ∀ {s}, Unmarked s → P s) (happend : ∀ {s t}, P s → P t → P (s ++ t))
    (hisolate : ∀ {s}, P s → ∀ isolated, P (isolate isolated s))
    (hcut : (∀ length limit, bad (.tooLong length limit)) ∨ ∀ {s}, P s → ∀ n, P (s.take n))
    (hfunctions : env.store.functions = .empty) (hfree : env.MarkFree content site)
    (hbad : ∀ error ∈ (Resolver.run (env.formatPattern content site)).2, ¬bad error) :
    P (Resolver.run (env.formatPattern content site)).1.toList :=
  -- related texts are equal, so no value that is used differs between the sides
  ((marking_kept env.options.isolating hunmarked happend hisolate hcut).run_formatPattern env
    content site hfunctions hfree
    (fun _ _ _ _ _ _ _ hshows => hshows.eq fun _ _ _ hequal => hequal.1) hbad).2.2

/-- Where no text has marks from elsewhere, a pattern is formatted to a nested text, and to a
balanced one if no placeable is too long. -/
theorem format_balanced (hfunctions : env.store.functions = .empty)
    (hfree : env.MarkFree content site) :
    Nested (Resolver.run (env.formatPattern content site)).1.toList ∧
      ((∀ error ∈ (Resolver.run (env.formatPattern content site)).2, ¬error.IsTooLong) →
        Balanced (Resolver.run (env.formatPattern content site)).1.toList) := by
  constructor
  · exact env.format_kept content site Unmarked.nested Nested.append
      Nested.isolate (.inr Nested.take) hfunctions hfree fun _ _ => id
  · exact env.format_kept content site Unmarked.balanced Balanced.append Balanced.isolate
      (.inl fun _ _ => trivial) hfunctions hfree

/-- A placeable in a placeable, both next to other elements: there are marks around both. -/
theorem format_balanced_nested :
    ∃ (env : Environment) (content : Pattern),
      env.store.functions = .empty ∧ env.MarkFree content (.value .loose) ∧
      (∀ error ∈ (Resolver.run (env.formatPattern content (.value .loose))).2,
        ¬error.IsTooLong) ∧
      (Resolver.run (env.formatPattern content (.value .loose))).1 =
        "x \u2068y \u2068lo\u2069\u2069" ∧
      Balanced (Resolver.run (env.formatPattern content (.value .loose))).1.toList := by
  let span : Span := ⟨0, 0⟩
  let referred : Message := ⟨⟨"b", span⟩,
    some ⟨[.text "y " span, .placeable (.variableReference ⟨"n", span⟩ span) span], span⟩,
    [], none, span⟩
  let content : Pattern :=
    ⟨[.text "x " span, .placeable (.messageReference ⟨"b", span⟩) span], span⟩
  let env : Environment :=
    ⟨⟨.ofList [("b", referred)], .empty, .empty⟩, some (.ofList [("n", .string "lo")]),
      ⟨["en"], .default⟩, ⟨true, 6⟩⟩
  have hfree : env.MarkFree content (.value .loose) := by
    unfold MarkFree
    decide +kernel
  have herrors : (Resolver.run (env.formatPattern content (.value .loose))).2 = [] := by
    decide +kernel
  have hlength : ∀ error ∈ (Resolver.run (env.formatPattern content (.value .loose))).2,
      ¬error.IsTooLong := by
    rw [herrors]
    simp
  exact ⟨env, content, rfl, hfree, hlength, by decide +kernel,
    (env.format_balanced content (.value .loose) rfl hfree).2 hlength⟩

/-- A placeable that is cut behind the start of an isolated one loses its end. -/
theorem format_unbalanced_cut :
    ¬∀ (env : Environment) (content : Pattern) (site : Site), env.options.isolating = true →
      env.store.functions = .empty → env.MarkFree content site →
        Balanced (Resolver.run (env.formatPattern content site)).1.toList := by
  intro hbalanced
  let span : Span := ⟨0, 0⟩
  let referred : Message := ⟨⟨"b", span⟩,
    some ⟨[.text "y " span, .placeable (.stringLiteral "lo" span) span], span⟩, [], none, span⟩
  let content : Pattern :=
    ⟨[.text "x " span, .placeable (.messageReference ⟨"b", span⟩) span], span⟩
  let env : Environment :=
    ⟨⟨.ofList [("b", referred)], .empty, .empty⟩, none, ⟨["en-US"], .default⟩, ⟨true, 3⟩⟩
  have hfree : env.MarkFree content (.value .loose) := by
    unfold MarkFree
    decide +kernel
  have htext : (Resolver.run (env.formatPattern content (.value .loose))).1 =
      "x \u2068y \u2068\u2069" := by
    decide +kernel
  have hsettled := (hbalanced env content (.value .loose) rfl rfl hfree).settled
  rw [htext] at hsettled
  revert hsettled
  decide

end Environment

end Localization
