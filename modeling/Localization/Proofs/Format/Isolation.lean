import Localization.Proofs.Format.Marks
import Localization.Proofs.Format.Nesting

/-!
# What isolating does

Texts that are joined, isolated and cut on two sides, with isolating on or off, stay related as long
as the relation survives these three. So what is said of such texts is said of what a pattern is
formatted to, unless a value that is used for a choice or in a call differs between the two sides.

One such relation is that the second text is the first one without its marks. A selector or an
argument can be a text with marks, which no variant key spells and which reads as no number; there
isolating shows in more than the marks.

## Main definitions

* `Value.Shows` — values that are shown as related texts
* `Resolver.Marking` — a relation between texts that survives joining, isolating and cutting
* `eraseMarks` — a text with its marks left out
* `Environment.PlainUses` — no text with marks is a selector or an argument on the way

## Main statements

* `Resolver.Marking.run_formatPattern` — patterns are formatted to related texts
* `Environment.format_withIsolating` — isolating only adds marks, as long as uses are plain
-/

namespace Localization

open Resolver (isolate isolateStart isolateEnd)

/-- The error that a placeable is too long. -/
def ResolveError.IsTooLong : ResolveError → Prop
  | tooLong _ _ => True
  | _ => False

/-- Values that are shown as related texts. All but texts are equal and have no marks. -/
inductive Value.Shows (shows : List Char → List Char → Prop) : Value → Value → Prop
  | string {s t : String} (h : shows s.toList t.toList) : Shows shows (.string s) (.string t)
  | number {n : Number} (h : Unmarked n.raw.toList) : Shows shows (.number n) (.number n)
  | dateTime (t : DateTime) : Shows shows (.dateTime t) (.dateTime t)
  | symbol {name : String} (h : Unmarked name.toList) : Shows shows (.symbol name) (.symbol name)
  | none {name : Option String} (h : ∀ text ∈ name, Unmarked text.toList) :
    Shows shows (.none name) (.none name)

/-- Values are equal if their texts are. -/
theorem Value.Shows.eq {shows : List Char → List Char → Prop} {v w : Value}
    (h : Value.Shows shows v w)
    (htext : ∀ text t, v = .string text → shows text.toList t → text.toList = t) : v = w := by
  cases h with
  | string h => rw [String.toList_inj.1 (htext _ _ rfl h)]
  | _ => rfl

/-- What a built-in function makes of a value is related to itself if the value is. -/
theorem Value.Shows.of_returns {shows : List Char → List Char → Prop} {argument value : Value}
    (h : Builtin.Returns argument value) (hargument : Value.Shows shows argument argument) :
    Value.Shows shows value value := by
  cases h with
  | none name => exact hargument
  | number n bounds =>
    cases hargument with
    | number h => exact .number h
  | text hparse bounds =>
    have hraw := Number.unmarked_of_parse? hparse
    exact .number hraw
  | dateTime t => exact .dateTime t

namespace Resolver

/-- Values are compared by what they show. A value may be used if there is no other one that it is
related to. -/
def showing (bad : ResolveError → Prop) (shows : List Char → List Char → Prop) : Comparison where
  ok text := Unmarked text.toList
  bad := bad
  sound _ := True
  related := Value.Shows shows
  used v := ∀ w, Value.Shows shows v w → v = w

/-- A relation between texts with isolating on or off on either side. It holds of texts without
marks, and it survives joining, isolating and cutting; it need not survive cutting if nothing is
asked after that. -/
structure Marking (isolating isolating' : Bool) (bad : ResolveError → Prop)
    (shows : List Char → List Char → Prop) : Prop where
  unmarked : ∀ {s}, Unmarked s → shows s s
  append : ∀ {s s' t t'}, shows s s' → shows t t' → shows (s ++ t) (s' ++ t')
  isolate : ∀ beside {s s'}, shows s s' →
    shows (isolate (isolating && beside) s) (isolate (isolating' && beside) s')
  length_le : ∀ {s s'}, shows s s' → s'.length ≤ s.length
  cut : (∀ length limit, bad (.tooLong length limit)) ∨
    ∀ {s s'}, shows s s' → s'.length = s.length ∧ ∀ n, shows (s.take n) (s'.take n)

end Resolver

/-- An environment with isolating on or off. -/
def Environment.withIsolating (env : Environment) (isolating : Bool) : Environment :=
  { env with options := { env.options with isolating } }

namespace Resolver.Marking

variable {env : Environment} {isolating : Bool} {bad : ResolveError → Prop}
  {shows : List Char → List Char → Prop} (M : Marking env.options.isolating isolating bad shows)
include M

theorem shows_format {v w : Value} (h : Value.Shows shows v w) :
    shows v.format.toList w.format.toList := by
  cases h with
  | string h => exact h
  | number h => exact M.unmarked (Number.unmarked_format h)
  | dateTime t => exact M.unmarked t.unmarked_text
  | symbol h => exact M.unmarked h
  | none h =>
    rename_i name
    cases name with
    | none => exact M.unmarked (by decide)
    | some name => exact M.unmarked (h name rfl)

/-- A value is related to itself if its texts have no marks. -/
theorem shows_self {v : Value} (h : ∀ text ∈ v.texts, Unmarked text.toList) :
    Value.Shows shows v v := by
  cases v with
  | string text => exact .string (M.unmarked (h text List.mem_cons_self))
  | number n => exact .number (h n.raw List.mem_cons_self)
  | dateTime t => exact .dateTime t
  | symbol name => exact .symbol (h name List.mem_cons_self)
  | none name => exact .none fun text htext => h text (by simpa [Value.texts] using htext)

theorem shows_ofNumberText {text : String} (h : Unmarked text.toList) :
    Value.Shows shows (.ofNumberText text) (.ofNumberText text) := by
  unfold Value.ofNumberText
  split
  · next n hparse => exact .number (Number.unmarked_of_parse? hparse)
  · exact .string (M.unmarked h)

variable {content : Pattern} {site : Site}

theorem between (hfunctions : env.store.functions = .empty) (hfree : env.MarkFree content site) :
    (showing bad shows).Between env (env.withIsolating isolating) where
  locale := rfl
  args := rfl
  functions _ := Comparison.answers_of_eq _ rfl
  found _ _ hfind := ⟨hfind, hfree.name hfind⟩
  unknown _ hfind _ := hfind
  own _ _ _ := trivial
  literal _ htext := .string (M.unmarked htext)
  number _ htext := M.shows_ofNumberText htext
  argument _ _ _ hargument hvalue :=
    M.shows_self fun _ htext => hfree.argument hargument hvalue htext
  missing _ _ _ hname := .none hname
  fallback name hname := by
    change Unmarked (name ++ "()").toList
    rw [String.toList_append, unmarked_append]
    exact ⟨hname, by decide⟩
  eq_of_used v w hshows hused := hused w hshows
  result name function positional named value hfunction hpositional hok := by
    rw [Environment.function?_of_empty hfunctions] at hfunction
    obtain ⟨argument, rfl, hreturns⟩ := Builtin.returns_of_ok hfunction hok
    exact .of_returns hreturns (hpositional argument List.mem_cons_self).1
  failure _ _ _ _ _ _ _ _ := trivial

theorem displays : (showing bad shows).Displays env (env.withIsolating isolating)
    (shown (env.withIsolating isolating)) shows where
  nil := M.unmarked unmarked_nil
  append := M.append
  text _ := M.unmarked
  shown V W beside v w hshows := by
    have hformat := M.shows_format hshows
    unfold shown Resolver.cut
    dsimp only [Environment.withIsolating]
    split
    -- too long: either that is a bad error, or both texts are cut at the same place
    · rcases M.cut with hbad | hcut
      · rw [bind_assoc]
        exact .of_bad (hbad _ _) (.pure _)
      · obtain ⟨hlength, htake⟩ := hcut hformat
        rw [hlength, if_pos ‹_›]
        simp only [bind_assoc, pure_bind]
        exact .report_bind (.pure _) fun _ => ⟨trivial, .pure (M.isolate beside (htake _))⟩
    -- within the limit: the other text is no longer than this one
    · next hlimit =>
      have hlimit' := Nat.le_trans (M.length_le hformat) (Nat.le_of_not_lt hlimit)
      rw [if_neg (Nat.not_lt.2 hlimit'), List.take_of_length_le (Nat.le_of_not_lt hlimit),
        List.take_of_length_le hlimit']
      exact .pure (M.isolate beside hformat)
  joined hs := .string (by rwa [String.toList_ofList, String.toList_ofList])

variable (env content site) in
/-- Patterns are formatted to related texts with the same errors, unless an error is a bad one. -/
theorem run_formatPattern (hfunctions : env.store.functions = .empty)
    (hfree : env.MarkFree content site)
    (huses : ∀ inner, env.store.Meets content site inner →
      ∀ use ∈ inner.1.uses inner.2, ∀ room scope w,
        Value.Shows shows
          (StateT.run (expression env (pattern env room) use.1 use.2) scope).1 w →
        (StateT.run (expression env (pattern env room) use.1 use.2) scope).1 = w)
    (hbad : ∀ error ∈ (run (env.formatPattern content site)).2, ¬bad error) :
    (run ((env.withIsolating isolating).formatPattern content site)).2 =
        (run (env.formatPattern content site)).2 ∧
      shows (run (env.formatPattern content site)).1.toList
        (run ((env.withIsolating isolating).formatPattern content site)).1.toList := by
  have hfollows := env.formatIn_follows (M.between hfunctions hfree) M.displays
    (fun _ => trivial) (env.store.patternCount + content.patternCount) content site
    fun inner hinner => ⟨fun _ htext => hfree.pattern hinner.mem htext, huses inner hinner⟩
  obtain ⟨herrors, v, w, hshows, hv, hw⟩ := hfollows.run hbad
  refine ⟨herrors, ?_⟩
  have hformat := M.shows_format hshows
  rw [← hv, ← hw] at hformat
  exact hformat

end Resolver.Marking

/-! ### Texts without their marks -/

/-- A text with its marks left out. -/
def eraseMarks (text : List Char) : List Char := text.filter (!isMark ·)

theorem eraseMarks_of_unmarked {text : List Char} (h : Unmarked text) : eraseMarks text = text :=
  List.filter_eq_self.2 fun c hc => by rw [h c hc]; rfl

theorem eraseMarks_isolate (isolated : Bool) (text : List Char) :
    eraseMarks (isolate isolated text) = eraseMarks text := by
  cases isolated with
  | true =>
    have hstart : isMark isolateStart = true := by decide
    have hend : isMark isolateEnd = true := by decide
    simp [isolate, eraseMarks, List.filter_append, hstart, hend]
  | false => rfl

/-- Without isolating there are the same texts without marks, until one of them is too long. -/
theorem marking_eraseMarks (isolating : Bool) :
    Resolver.Marking isolating false ResolveError.IsTooLong fun s t => t = eraseMarks s where
  unmarked h := (eraseMarks_of_unmarked h).symm
  append hs ht := by rw [hs, ht, eraseMarks, eraseMarks, eraseMarks, List.filter_append]
  isolate beside s s' h := by rw [eraseMarks_isolate, h]; rfl
  length_le h := by rw [h]; exact List.length_filter_le _ _
  cut := .inl fun _ _ => trivial

namespace Environment

variable (env : Environment) (content : Pattern) (site : Site)

/-- In whatever scope it is resolved, no selector and no argument comes to a text with marks, of
those that a pattern holds or that stand in the messages and terms it leads to. -/
def PlainUses : Prop :=
  ∀ inner, env.store.Meets content site inner → ∀ use ∈ inner.1.uses inner.2,
    ∀ room scope text,
      (StateT.run (Resolver.expression env (Resolver.pattern env room) use.1 use.2) scope).1 =
        .string text → Unmarked text.toList

/-- Isolating only adds marks: without it, a pattern is formatted to the same text without marks,
with the same errors. This is so as long as no placeable is too long with its marks, and no text
with marks is used as a selector or as an argument on the way. -/
theorem format_withIsolating (hfunctions : env.store.functions = .empty)
    (hfree : env.MarkFree content site) (huses : (env.withIsolating true).PlainUses content site)
    (hlength : ∀ error ∈ (Resolver.run ((env.withIsolating true).formatPattern content site)).2,
      ¬error.IsTooLong) :
    (Resolver.run ((env.withIsolating false).formatPattern content site)).1.toList =
        eraseMarks (Resolver.run ((env.withIsolating true).formatPattern content site)).1.toList ∧
      (Resolver.run ((env.withIsolating false).formatPattern content site)).2 =
        (Resolver.run ((env.withIsolating true).formatPattern content site)).2 := by
  obtain ⟨herrors, htext⟩ := (marking_eraseMarks true).run_formatPattern (env.withIsolating true)
    content site hfunctions hfree
    (fun inner hinner use huse room scope w hshows => hshows.eq fun text t hvalue ht => by
      rw [ht, eraseMarks_of_unmarked (huses inner hinner use huse room scope text hvalue)])
    hlength
  exact ⟨htext, herrors⟩

/-- A choice by an attribute of a single text, next to nested placeables. -/
theorem format_withIsolating_choice :
    ∃ (env : Environment) (content : Pattern),
      env.store.functions = .empty ∧ env.MarkFree content (.value .loose) ∧
      (env.withIsolating true).PlainUses content (.value .loose) ∧
      (∀ error ∈ (Resolver.run
        ((env.withIsolating true).formatPattern content (.value .loose))).2, ¬error.IsTooLong) ∧
      (Resolver.run ((env.withIsolating true).formatPattern content (.value .loose))).1 =
        "\u2068his\u2069 \u2068Fire\u2068fox\u2069\u2069" ∧
      (Resolver.run ((env.withIsolating false).formatPattern content (.value .loose))).1.toList =
        eraseMarks
          (Resolver.run ((env.withIsolating true).formatPattern content (.value .loose))).1.toList ∧
      (Resolver.run ((env.withIsolating false).formatPattern content (.value .loose))).2 =
        (Resolver.run ((env.withIsolating true).formatPattern content (.value .loose))).2 := by
  let span : Span := ⟨0, 0⟩
  let term : Message := ⟨⟨"-brand", span⟩,
    some ⟨[.text "Fire" span, .placeable (.stringLiteral "fox" span) span], span⟩,
    [⟨⟨"gender", span⟩, ⟨[.text "masculine" span], span⟩, span⟩], none, span⟩
  let selector : Expression := .attribute ⟨"-brand", span⟩ ⟨"gender", span⟩ span
  let variants : List Variant :=
    [⟨.name "masculine" span, ⟨[.text "his" span], span⟩, false, span⟩,
      ⟨.name "other" span, ⟨[.text "its" span], span⟩, true, span⟩]
  let content : Pattern :=
    ⟨[.placeable (.select (some selector) variants 1 span) span, .text " " span,
      .placeable (.messageReference ⟨"-brand", span⟩) span], span⟩
  let env : Environment :=
    ⟨⟨.empty, .ofList [("-brand", term)], .empty⟩, none, ⟨["en"], .default⟩, default⟩
  have hfree : env.MarkFree content (.value .loose) := by
    unfold MarkFree
    decide +kernel
  have huses : (env.withIsolating true).PlainUses content (.value .loose) := by
    have hselector : ∀ room scope site, (StateT.run (Resolver.expression (env.withIsolating true)
        (Resolver.pattern (env.withIsolating true) room) selector site) scope).1 =
          .string "masculine" := by
      intro room scope site
      have hfind : (env.withIsolating true).store.find? (.term "-brand") = some term := by rfl
      have hroot : Identifier.root ⟨"-brand", span⟩ = .term "-brand" := by decide
      have hindex : term.attributeIndex? "gender" = some 0 := by decide +kernel
      have hattribute : term.attribute? "gender" =
        some ⟨⟨"gender", span⟩, ⟨[.text "masculine" span], span⟩, span⟩ := by rfl
      simp only [selector, Resolver.expression, Resolver.attributeReference, Resolver.lookup_eq,
        hroot, hfind, hindex, hattribute, pure_bind]
      cases room <;> rfl
    have hall : ((env.withIsolating true).store.located ++ content.located (.value .loose)).flatMap
        (fun inner => inner.1.uses inner.2) =
          [(selector, ((Site.value .loose).part 0).selector)] := rfl
    intro inner hinner use huse room scope text htext
    have hmem : use ∈ _ := hall ▸ List.mem_flatMap.2 ⟨inner, hinner.mem, huse⟩
    rw [List.mem_singleton] at hmem
    rw [hmem, hselector] at htext
    cases htext
    decide
  have herrors : (Resolver.run
      ((env.withIsolating true).formatPattern content (.value .loose))).2 = [] := by
    decide +kernel
  have hlength : ∀ error ∈ (Resolver.run
      ((env.withIsolating true).formatPattern content (.value .loose))).2, ¬error.IsTooLong := by
    rw [herrors]
    simp
  exact ⟨env, content, rfl, hfree, huses, hlength, by decide +kernel,
    env.format_withIsolating content (.value .loose) rfl hfree huses hlength⟩

/-- A text with marks is not spelled by the key of a variant. -/
theorem format_isolating_choice :
    ¬∀ (env : Environment) (content : Pattern) (site : Site), env.store.functions = .empty →
      env.MarkFree content site →
      (∀ isolating, ∀ error ∈ (Resolver.run
        ((env.withIsolating isolating).formatPattern content site)).2, ¬error.IsTooLong) →
      (Resolver.run ((env.withIsolating false).formatPattern content site)).1.toList =
          eraseMarks (Resolver.run ((env.withIsolating true).formatPattern content site)).1.toList ∧
        (Resolver.run ((env.withIsolating false).formatPattern content site)).2 =
          (Resolver.run ((env.withIsolating true).formatPattern content site)).2 := by
  intro hsame
  let span : Span := ⟨0, 0⟩
  let term : Message := ⟨⟨"-brand", span⟩,
    some ⟨[.text "Fire" span, .placeable (.stringLiteral "fox" span) span], span⟩, [], none, span⟩
  let variants : List Variant :=
    [⟨.name "Firefox" span, ⟨[.text "A" span], span⟩, false, span⟩,
      ⟨.name "other" span, ⟨[.text "B" span], span⟩, true, span⟩]
  let content : Pattern := ⟨[.placeable
    (.select (some (.messageReference ⟨"-brand", span⟩)) variants 1 span) span], span⟩
  let env : Environment :=
    ⟨⟨.empty, .ofList [("-brand", term)], .empty⟩, none, ⟨["en"], .default⟩, default⟩
  have hfree : env.MarkFree content (.value .loose) := by
    unfold MarkFree
    decide +kernel
  have herrors : ∀ isolating,
      (Resolver.run ((env.withIsolating isolating).formatPattern content (.value .loose))).2 =
        [] := by
    decide +kernel
  have htext := (hsame env content (.value .loose) rfl hfree (by simp [herrors])).1
  revert htext
  decide +kernel

end Environment

end Localization
