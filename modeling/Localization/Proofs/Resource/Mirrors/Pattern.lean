import Localization.Proofs.Resource.Mirrors.Expression
import Localization.Proofs.Resource.Spelling.Trim

/-!
# Patterns side by side

A pattern and the choices in it read line breaks only where the next line with content goes on with
them, and such a line is part of the text. Only behind the last variant of a choice the blank lines
are read to their end.

## Main statements

* `Parser.placeableExpression_mirrors` — the runs between the braces of a placeable
* `Parser.pattern_alike` — the runs on a pattern mirror each other
-/

namespace Localization.Parser

open Text (IsBlanks)

variable {A : Alignment} {c d : Cursor}

/-! ### Choices -/

theorem expectIndent_alike : Alike A id expectIndent expectIndent := by
  intro c d h
  unfold expectIndent
  dsimp only
  refine Mirrors.skipInlineBlanks_bind ?_
  have h₁ := h.skipInlineBlanks
  refine Mirrors.current_bind h₁.current
    (Mirrors.ite (fun _ => Mirrors.fail_bind h₁.toFollowed _ _) fun hnewline => ?_)
  have h₂ := A.abuts_skipBlankLines (A.beside_break h₁ (not_not.1 hnewline))
  refine Mirrors.modify_bind (Mirrors.offset_bind h₂.toFollowed ?_)
  have h₃ := A.abuts_skipInlineBlanks h₂
  obtain ⟨hmoved, hindented⟩ := A.abuts_indented h₂
  refine Mirrors.skipInlineBlanks_bind (Mirrors.offset_bind h₃.toFollowed ?_)
  simp only [hmoved]
  exact Mirrors.ite (fun _ => Mirrors.fail h₃.toFollowed _ _)
    fun hne => Mirrors.pure (S := fun _ => A.Beside) (hindented hne) rfl

section Pattern

variable {pattern pattern' : Parser Pattern}
  (hpattern : Alike A (Pattern.mapOffsets A.shift) pattern pattern')
include hpattern

/-- A variant is mirrored if its pattern is. -/
theorem variant_alike (hasDefault : Bool) :
    Alike A (Variant.mapOffsets A.shift) (variant pattern hasDefault)
      (variant pattern' hasDefault) := by
  -- from the bracket on a default variant is read as any other, one character later
  have hkey : ∀ (isDefault : Bool) (start : Nat) (c d : Cursor), A.Beside c d →
      Mirrors A (fun _ => A.Beside) (Variant.mapOffsets A.shift)
        (do
          expectChar '['
          skipInlineBlanks
          let key ← variantKey
          skipInlineBlanks
          expectChar ']'
          if !(← ask Cursor.isValueStart) then fail .missingValue []
          skipIndent
          let value ← pattern
          return ⟨key, value, isDefault, ⟨start, value.span.stop⟩⟩)
        (do
          expectChar '['
          skipInlineBlanks
          let key ← variantKey
          skipInlineBlanks
          expectChar ']'
          if !(← ask Cursor.isValueStart) then fail .missingValue []
          skipIndent
          let value ← pattern'
          return ⟨key, value, isDefault, ⟨A.shift start, value.span.stop⟩⟩) c d := by
    intro isDefault start c d h
    dsimp only
    refine (expectChar_alike (by decide) c d h).bind fun _ c₁ d₁ h₁ => ?_
    refine Mirrors.skipInlineBlanks_bind ?_
    refine (variantKey_alike _ _ h₁.skipInlineBlanks).bind fun key c₂ d₂ h₂ => ?_
    refine Mirrors.skipInlineBlanks_bind ?_
    refine (expectChar_alike (by decide) _ _ h₂.skipInlineBlanks).bind fun _ c₃ d₃ h₃ => ?_
    refine Mirrors.ask_bind h₃.left.isValueStart h₃.isValueStart ?_
    refine Mirrors.ite (fun _ => Mirrors.fail_bind h₃.toFollowed _ _) fun hvalue => ?_
    refine Mirrors.skipIndent_bind ?_
    refine (hpattern _ _ (A.beside_value h₃ (by simpa using hvalue))).bind
      fun value c₄ d₄ h₄ => Mirrors.pure h₄ ?_
    rw [Pattern.span_mapOffsets]
    rfl
  intro c d h
  unfold variant
  dsimp only
  refine Mirrors.offset_bind h.toFollowed (Mirrors.current_bind h.current ?_)
  refine Mirrors.ite (fun hstar => ?_) fun _ => hkey _ _ c d h
  -- a star where there is a default already is the error of both
  refine Mirrors.ite (fun _ => Mirrors.fail_bind h.toFollowed _ _) fun _ => ?_
  exact Mirrors.modify_bind (hkey _ _ _ _ (h.next hstar (by decide)))

theorem variantRound_alike (state : List Variant × Option Nat) :
    Alike A
      (Round.map (Prod.map (List.map (Variant.mapOffsets A.shift)) id)
        (Prod.map (List.map (Variant.mapOffsets A.shift)) id))
      (variantRound pattern state)
      (variantRound pattern' (state.map (List.map (Variant.mapOffsets A.shift)) id)) := by
  intro c d h
  obtain ⟨before, default?⟩ := state
  unfold variantRound
  dsimp only [Prod.map]
  refine (expectIndent_alike c d h).bind fun _ c₁ d₁ h₁ => ?_
  refine (variant_alike hpattern _ c₁ d₁ h₁).bind fun next c₂ d₂ h₂ => ?_
  refine Mirrors.ask_bind h₂.left.isNextLineVariant h₂.isNextLineVariant ?_
  rw [Variant.isDefault_mapOffsets, List.length_map]
  refine Mirrors.ite (fun _ => Mirrors.pure h₂ rfl) fun _ => ?_
  dsimp only [id]
  split
  · refine Mirrors.pure h₂ ?_
    rw [Round.map, Prod.map, List.map_reverse, List.map_cons]
    rfl
  · exact Mirrors.fail h₂.toFollowed _ _

theorem variants_alike :
    Alike A (Prod.map (List.map (Variant.mapOffsets A.shift)) id) (variants pattern)
      (variants pattern') :=
  Alike.rounds (variantRound_alike hpattern) ([], none)

/-- Behind a choice nothing may be left of the text. -/
theorem choice_mirrors (selector : Option Expression) (start : Nat) (h : A.Beside c d) :
    Mirrors A (fun _ => A.Abuts) (Expression.mapOffsets A.shift)
      (choice pattern selector start)
      (choice pattern' (selector.map (Expression.mapOffsets A.shift)) (A.shift start)) c d := by
  unfold choice
  refine (variants_alike hpattern c d h).bind fun found c₁ d₁ h₁ => ?_
  refine Mirrors.skipIndent_bind ?_
  have h₂ := A.beside_skipIndent h₁
  refine Mirrors.spanFrom_bind h₂.toFollowed (Mirrors.pure h₂ ?_)
  rw [Expression.mapOffsets, selectorMapOffsets_eq_map, variantsMapOffsets_eq_map]
  rfl

omit hpattern in
/-- Behind an arrow that was looked for the cursors are side by side again. -/
theorem isArrow_bind {α α' : Type} {S : α → Cursor → Cursor → Prop} {f : α → α'}
    {k : Bool → Parser α} {k' : Bool → Parser α'} (h : A.Beside c d)
    (hk : ∀ c₁ d₁, A.Followed c₁ d₁ → c₁.resetPeek = c → d₁.resetPeek = d →
      (Text.startsArrow c.here.rest → A.Beside c₁.next.next d₁.next.next) →
      Mirrors A S f (k (Text.startsArrow c.here.rest)) (k' (Text.startsArrow c.here.rest))
        c₁ d₁) :
    Mirrors A S f (ask Cursor.isArrow >>= k) (ask Cursor.isArrow >>= k') c d := by
  have hd := isArrow_run h.right
  rw [A.startsArrow h, h.current] at hd
  unfold Mirrors
  rw [bind_ok (isArrow_run h.left), bind_ok hd]
  -- only a minus moves the peek, and only then is there an arrow to step over
  by_cases hminus : c.current = some '-'
  · rw [if_pos hminus, if_pos hminus]
    refine hk _ _ (A.followed_congr h.toFollowed rfl rfl) h.left.resetPeek h.right.resetPeek ?_
    intro harrow
    rw [peek_next hminus, peek_next (h.current.trans hminus)]
    have hnext := h.next hminus (by decide)
    rw [Mark.step_rest_of_head? (by decide) hminus, Text.startsArrow_minus,
      decide_eq_true_iff, ← Cursor.next_here hminus] at harrow
    have hgreater : c.next.current = some '>' :=
      (Mark.char?_eq_some_iff_head? (by decide)).2 harrow
    exact hnext.next hgreater (by decide)
  · rw [if_neg hminus, if_neg hminus]
    refine hk _ _ h.toFollowed h.left.resetPeek h.right.resetPeek fun harrow => ?_
    rw [Text.startsArrow_of_head?_ne fun hhead =>
      hminus ((Mark.char?_eq_some_iff_head? (by decide)).2 hhead)] at harrow
    cases harrow

/-- Between the braces of a placeable nothing may be left of the text at the end. -/
theorem placeableExpression_mirrors (h : A.Beside c d) :
    Mirrors A (fun _ => A.Abuts) (Expression.mapOffsets A.shift) (placeableExpression pattern)
      (placeableExpression pattern') c d := by
  unfold placeableExpression
  dsimp only
  refine Mirrors.offset_bind h.toFollowed ?_
  refine Mirrors.ask_bind h.left.isNextLineVariant h.isNextLineVariant ?_
  refine Mirrors.ite (fun _ => ?_) fun _ => ?_
  · exact choice_mirrors hpattern none _ h
  · refine Mirrors.skipInlineBlanks_bind ?_
    refine (selectorExpression_alike _ _ h.skipInlineBlanks).bind fun selector c₁ d₁ h₁ => ?_
    refine Mirrors.skipInlineBlanks_bind (isArrow_bind h₁.skipInlineBlanks ?_)
    -- with an arrow the selector is checked and variants follow; without one it stands alone
    intro c₂ d₂ hfollowed hc hd hnext
    refine Mirrors.ite (fun harrow => ?_) fun _ => ?_
    · rw [selectorError?_mapOffsets]
      cases selectorError? selector with
      | some code => exact Mirrors.fail_bind hfollowed _ _
      | none =>
        dsimp only
        refine Mirrors.modify_bind (Mirrors.skipInlineBlanks_bind ?_)
        have h₃ := (hnext harrow).skipInlineBlanks
        refine Mirrors.ask_bind h₃.left.isNextLineVariant h₃.isNextLineVariant ?_
        refine Mirrors.ite (fun _ => Mirrors.fail_bind h₃.toFollowed _ _) fun _ => ?_
        rw [Expression.span_mapOffsets]
        exact choice_mirrors hpattern (some selector) _ h₃
    · refine Mirrors.modify_bind ?_
      rw [hc, hd, isTermAttribute_mapOffsets]
      have h₃ := h₁.skipInlineBlanks
      exact Mirrors.ite (fun _ => Mirrors.fail_bind h₃.toFollowed _ _)
        fun _ => Mirrors.pure h₃.toAbuts rfl

/-! ### Patterns -/

omit hpattern in
theorem textRound_alike (taken : List Char) :
    Alike A (Round.map id id) (textRound taken) (textRound (id taken)) := by
  intro c d h
  unfold textRound
  refine Mirrors.current_bind h.current ?_
  split
  · exact Mirrors.pure h rfl
  · exact Mirrors.pure h rfl
  · refine Mirrors.ask_bind h.left.isNextLinePattern h.isNextLinePattern ?_
    exact Mirrors.ite (fun hgoes => Mirrors.pure (A.beside_nextLine h hgoes) rfl)
      fun _ => Mirrors.pure h rfl
  · next hslash =>
    have h₁ := h.next hslash (by decide)
    refine Mirrors.next_bind h₁.current ?_
    split
    · next ch hescape =>
      refine Mirrors.ite (fun hpair => ?_) fun _ => Mirrors.pure h₁ rfl
      refine Mirrors.pure (h₁.next hescape ?_) rfl
      rintro rfl
      exact absurd hpair (by decide)
    · exact Mirrors.pure h₁ rfl
  · next ch hbrace hbreak hslash hcurrent =>
    exact Mirrors.pure (h.next hcurrent fun heq => hbreak (by rw [heq])) rfl

omit hpattern in
theorem textElement_alike :
    Alike A (PatternElement.mapOffsets A.shift) textElement textElement := by
  intro c d h
  unfold textElement
  refine Mirrors.offset_bind h.toFollowed ?_
  refine (Alike.rounds textRound_alike [] c d h).bind fun value c₁ d₁ h₁ => ?_
  exact Mirrors.spanFrom_bind h₁.toFollowed (Mirrors.pure h₁ rfl)

omit hpattern in
/-- A text is mirrored, and the blanks at its end can be cut before or after the shift. -/
theorem textElement_mirrors (h : A.Beside c d) :
    Mirrors A (fun element c d => A.Beside c d ∧ Trims A.shift element)
      (PatternElement.mapOffsets A.shift) textElement textElement c d := by
  refine (textElement_alike c d h).mono fun element c' d' hrun h' => ⟨h', ?_⟩
  obtain ⟨raw, value, next, htakes, hspells, -, -, rfl⟩ := textElement_returns h.left hrun
  have hblanks : IsBlanks (value.rtakeWhile isInlineBlank) := Text.isBlanks_rtakeWhile
  rw [← List.rdropWhile_append_rtakeWhile (p := isInlineBlank) (l := value)] at hspells
  obtain ⟨kept, rfl⟩ := hspells.exists_kept hblanks
  have htrims := A.beside_blanks h h' htakes hblanks
  rw [hblanks.byteLength, htakes.offset, List.rtakeWhile, List.length_reverse] at htrims
  rwa [Trims, String.toList_ofList, spanOf]

theorem placeable_mirrors (h : A.Beside c d) :
    Mirrors A (fun element c d => A.Beside c d ∧ Trims A.shift element)
      (PatternElement.mapOffsets A.shift) (placeable (placeableExpression pattern))
      (placeable (placeableExpression pattern')) c d := by
  unfold placeable
  refine Mirrors.offset_bind h.toFollowed ?_
  refine (expectChar_alike (by decide) c d h).bind fun _ c₁ d₁ h₁ => ?_
  refine (placeableExpression_mirrors hpattern h₁).bind fun expression c₂ d₂ h₂ => ?_
  refine (expectChar_mirrors h₂ (by decide) (by decide)).bind fun _ c₃ d₃ h₃ => ?_
  exact Mirrors.spanFrom_bind h₃.toFollowed (Mirrors.pure ⟨h₃, trivial⟩ rfl)

theorem patternRound_mirrors (before : List PatternElement)
    (hbefore : ∀ element ∈ before.head?, Trims A.shift element) (h : A.Beside c d) :
    Mirrors A
      (fun result c d => A.Beside c d ∧ result.Holds
        (fun elements => ∀ element ∈ elements.head?, Trims A.shift element)
        fun elements => ∀ element ∈ elements.head?, Trims A.shift element)
      (Round.map (List.map (PatternElement.mapOffsets A.shift))
        (List.map (PatternElement.mapOffsets A.shift)))
      (patternRound (placeableExpression pattern) before)
      (patternRound (placeableExpression pattern')
        (before.map (PatternElement.mapOffsets A.shift))) c d := by
  unfold patternRound
  refine Mirrors.current_bind h.current ?_
  cases hcurrent : c.current with
  | none => exact Mirrors.pure ⟨h, hbefore⟩ rfl
  | some ch =>
    dsimp only
    -- a line break is looked at first; what follows it is read as any other element
    have helement : Mirrors A
        (fun result c d => A.Beside c d ∧ result.Holds
          (fun elements => ∀ element ∈ elements.head?, Trims A.shift element)
          fun elements => ∀ element ∈ elements.head?, Trims A.shift element)
        (Round.map (List.map (PatternElement.mapOffsets A.shift))
          (List.map (PatternElement.mapOffsets A.shift)))
        (if ch = '{' then do return .again ((← placeable (placeableExpression pattern)) :: before)
          else do return .again ((← textElement) :: before))
        (if ch = '{' then do
            return .again ((← placeable (placeableExpression pattern')) ::
              before.map (PatternElement.mapOffsets A.shift))
          else do
            return .again ((← textElement) :: before.map (PatternElement.mapOffsets A.shift)))
        c d := by
      refine Mirrors.ite (fun _ => ?_) fun _ => ?_
      · refine (placeable_mirrors hpattern h).bind fun element c₁ d₁ h₁ =>
          Mirrors.pure ⟨h₁.1, ?_⟩ rfl
        rintro _ ⟨⟩
        exact h₁.2
      · refine (textElement_mirrors h).bind fun element c₁ d₁ h₁ => Mirrors.pure ⟨h₁.1, ?_⟩ rfl
        rintro _ ⟨⟩
        exact h₁.2
    refine Mirrors.ite (fun _ => ?_) fun _ => ?_
    · refine Mirrors.ask_bind h.left.isNextLinePattern h.isNextLinePattern ?_
      exact Mirrors.ite (fun _ => Mirrors.pure ⟨h, hbefore⟩ rfl) fun _ => helement
    · exact Mirrors.pure_bind helement

omit hpattern in
/-- A pattern can be assembled before or after its elements are shifted. -/
theorem assemble_map (start : Nat) (elements : List PatternElement) :
    assemble (A.shift start) (elements.map (PatternElement.mapOffsets A.shift)) =
      (assemble start elements).mapOffsets A.shift := by
  unfold assemble
  rw [List.getLast?_map, List.head?_map]
  cases elements.getLast? <;> cases elements.head? <;>
    simp only [Option.map_none, Option.map_some, Pattern.mapOffsets, elementsMapOffsets_eq_map,
      List.map_reverse, List.map_nil, PatternElement.span_mapOffsets,
      Span.mapOffsets_merge _ (A.monotone)]
  all_goals rfl

theorem patternBody_alike :
    Alike A (Pattern.mapOffsets A.shift) (patternBody (placeableExpression pattern))
      (patternBody (placeableExpression pattern')) := by
  intro c d h
  unfold patternBody
  refine Mirrors.offset_bind h.toFollowed ?_
  refine (Alike.rounds_holds
    (fun before hbefore c d => patternRound_mirrors hpattern before hbefore)
    (by simp) h).bind fun elements c₁ d₁ h₁ => ?_
  exact Mirrors.pure h₁.1 (by rw [trimLast_map A.monotone h₁.2, assemble_map])

end Pattern

/-- Patterns are mirrored at any depth. -/
theorem pattern_alike : Alike A (Pattern.mapOffsets A.shift) pattern pattern :=
  Alike.nested fun _ _ h => patternBody_alike h

end Localization.Parser
