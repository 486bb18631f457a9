import Localization.Proofs.Resource.Spelling.Layout
import Localization.Proofs.Resource.Spelling.Selector

/-!
# Patterns are read as they are spelled

What follows a pattern must not go on with it: nothing, or a line break before a line that starts
something else.

## Main statements

* `Parser.pattern_yields` — what is spelled as a pattern is read as one
-/

namespace Localization

open Text (Ends IsBlanks IsGap IsIndent StartsBreak StartsVisible byteLength isVisible)

variable {start : Nat} {text gap rest : List Char}

/-! ### What follows a pattern -/

/-- A pattern ends before a line that starts with a character that no pattern line starts with. -/
theorem patternEnds_gap_append (hgap : IsGap gap) (hbreak : StartsBreak gap)
    (hvisible : StartsVisible rest) (hends : ∀ ch ∈ rest.head?, Cursor.endsPattern ch) :
    PatternEnds (gap ++ rest) := by
  refine .inr ⟨hbreak.append, ?_⟩
  unfold Text.startsPattern
  rw [hgap.indented?_append hbreak hvisible]
  split
  · rfl
  · cases rest with
    | nil => rfl
    | cons ch rest => simpa using hends ch rfl

/-- A gap leads to a variant only if the visible text behind it is one. -/
theorem startsVariant_gap_append (hgap : IsGap gap) (hvisible : StartsVisible rest)
    (hnone : Text.startsBracket (Text.behindStar rest) = false) :
    Text.startsVariant (gap ++ rest) = false := by
  rw [Bool.eq_false_iff]
  intro hvariant
  obtain ⟨blanks, gap', rest', hblanks, hindent, hvisible', hbracket, heq⟩ :=
    Text.startsVariant_iff.1 hvariant
  rw [← List.append_assoc] at heq
  have hgap' := Text.isGap_append.2 ⟨hblanks.isGap, hindent.isGap⟩
  obtain ⟨-, rfl⟩ := Text.gap_append_inj hgap hgap' hvisible hvisible' heq
  rw [hnone] at hbracket
  cases hbracket

theorem SpellsSelector.not_startsVariant {blanks : List Char} {expression : Expression}
    {next : Option Char} (hblanks : IsBlanks blanks)
    (h : SpellsSelector start text expression next) :
    Text.startsVariant (blanks ++ (text ++ rest)) = false := by
  refine startsVariant_gap_append hblanks.isGap h.startsVisible ?_
  obtain ⟨ch, more, rfl, hch⟩ := h.exists_head
  have hstar : ch ≠ '*' := by
    rintro rfl
    exact absurd hch (by decide)
  have hbracket : ch ≠ '[' := by
    rintro rfl
    exact absurd hch (by decide)
  rw [List.cons_append, Text.behindStar_cons_of_ne hstar]
  simp [Text.startsBracket, hbracket]

theorem SpellsVariant.startsBracket {hasDefault : Bool} {value : Variant}
    (h : SpellsVariant start text hasDefault value) :
    StartsVisible (text ++ rest) ∧ (∀ ch ∈ (text ++ rest).head?, Cursor.endsPattern ch) ∧
      Text.startsBracket (Text.behindStar (text ++ rest)) := by
  cases h with
  | @mk _ isDefault _ star blanks _ keyText _ _ _ _ _ hstar hblanks hkey _ _ _ =>
    have hbracket : ∀ tail, Text.startsBracket ('[' :: (blanks ++ (keyText ++ tail))) := by
      intro tail
      have hne : (blanks ++ (keyText ++ tail)).head? ≠ some '[' := by
        cases blanks with
        | nil =>
          obtain ⟨ch, more, rfl, hch⟩ := hkey.exists_head
          rintro ⟨⟩
          exact absurd hch (by decide)
        | cons blank blanks =>
          rintro ⟨⟩
          exact absurd (hblanks '[' (by simp)) (by decide)
      exact decide_eq_true hne
    cases isDefault with
    | true =>
      subst hstar
      refine ⟨Text.startsVisible_cons.2 (by decide), by rintro _ ⟨⟩; decide, ?_⟩
      simpa [Text.behindStar] using hbracket _
    | false =>
      subst hstar
      refine ⟨Text.startsVisible_cons.2 (by decide), by rintro _ ⟨⟩; decide, ?_⟩
      simpa [Text.behindStar] using hbracket _

/-- Behind blanks, the first variant is seen. -/
theorem SpellsVariants.startsVariant {count defaultIndex : Nat} {default? : Option Nat}
    {variants : List Variant} {blanks : List Char} (hblanks : IsBlanks blanks)
    (h : SpellsVariants start text count default? variants defaultIndex) :
    Text.startsVariant (blanks ++ (text ++ rest)) ∧ PatternEnds (text ++ rest) := by
  have hline : ∀ {gap line : List Char} {start : Nat} {hasDefault : Bool} {value : Variant}
      (rest : List Char), IsIndent gap → SpellsVariant start line hasDefault value →
      Text.startsVariant (blanks ++ (gap ++ (line ++ rest))) ∧
        PatternEnds (gap ++ (line ++ rest)) := by
    intro gap line start hasDefault value rest hgap hline
    obtain ⟨hvisible, hends, hbracket⟩ := @SpellsVariant.startsBracket start line rest _ _ hline
    exact ⟨Text.startsVariant_iff.2 ⟨blanks, gap, _, hblanks, hgap, hvisible, hbracket, rfl⟩,
      patternEnds_gap_append hgap.isGap hgap.startsBreak hvisible hends⟩
  cases h with
  | last hgap hvariant _ =>
    rw [List.append_assoc]
    exact hline rest hgap hvariant
  | more hgap hvariant _ =>
    rw [List.append_assoc, List.append_assoc]
    exact hline _ hgap hvariant

namespace Parser

variable {c d : Cursor} {α : Type}

section Pattern

variable {pattern : Parser Pattern} {limit : Nat}
  (hpattern : ∀ d text value rest, d.remaining < limit → d.Ready →
    SpellsPattern d.offset text value → d.here.rest = text ++ rest → PatternEnds rest →
    Yields pattern d text value)
include hpattern

/-! ### Variants -/

theorem skipValue_yields {f : Pattern → α} {lead : List Char} {value : Localization.Pattern}
    (hc : c.Ready) (hlt : c.remaining < limit) (hlead : IsLead lead text)
    (h : SpellsPattern (c.offset + byteLength lead) text value)
    (hrest : c.here.rest = lead ++ (text ++ rest)) (hends : PatternEnds rest) :
    c.isValueStart = (true, c) ∧ Yields (do
      skipIndent
      let value ← pattern
      return f value) c (lead ++ text) (f value) := by
  obtain ⟨hvalue, hskip⟩ := skipIndent_yields hlead hc hrest
  refine ⟨hvalue, hskip.bind hrest fun c₁ h₁ hrest₁ => ?_⟩
  have hlt₁ := Nat.lt_of_le_of_lt (h₁.remaining_le hc) hlt
  rw [← h₁.offset] at h
  refine ((hpattern c₁ text value rest hlt₁ h₁.ready h hrest₁ hends).bind hrest₁
    fun c₂ h₂ _ => ?_).cast (List.append_nil text)
  exact Yields.pure h₂.ready _

theorem value_yields {f : Pattern → α} {lead : List Char} {value : Localization.Pattern}
    (hc : c.Ready) (hlt : c.remaining < limit) (hlead : IsLead lead text)
    (h : SpellsPattern (c.offset + byteLength lead) text value)
    (hrest : c.here.rest = lead ++ (text ++ rest)) (hends : PatternEnds rest) :
    Yields (do
      if !(← ask Cursor.isValueStart) then fail .missingValue []
      skipIndent
      let value ← pattern
      return f value) c (lead ++ text) (f value) := by
  obtain ⟨hvalue, hyields⟩ :=
    @skipValue_yields _ _ _ _ _ _ hpattern f _ _ hc hlt hlead h hrest hends
  dsimp only
  refine Yields.ask_bind hvalue ?_
  rw [if_neg (by decide)]
  exact hyields

theorem variantBody_yields {isDefault : Bool} {star blanks keyText blanks' lead : List Char}
    {key : VariantKey} {value : Localization.Pattern} (hc : c.Ready) (hlt : c.remaining < limit)
    (hstart : c.offset = start + byteLength star) (hblanks : IsBlanks blanks)
    (hkey : SpellsKey (start + byteLength (star ++ '[' :: blanks)) keyText key
      (blanks' ++ [']']).head?)
    (hblanks' : IsBlanks blanks') (hlead : IsLead lead text)
    (h : SpellsPattern
      (start + byteLength (star ++ '[' :: (blanks ++ (keyText ++ (blanks' ++ ']' :: lead)))))
      text value)
    (hrest : c.here.rest =
      '[' :: (blanks ++ (keyText ++ (blanks' ++ ']' :: (lead ++ (text ++ rest))))))
    (hends : PatternEnds rest) :
    Yields (do
      expectChar '['
      skipInlineBlanks
      let key ← variantKey
      skipInlineBlanks
      expectChar ']'
      if !(← ask Cursor.isValueStart) then fail .missingValue []
      skipIndent
      let value ← pattern
      return (⟨key, value, isDefault, ⟨start, value.span.stop⟩⟩ : Variant)) c
      ('[' :: (blanks ++ (keyText ++ (blanks' ++ ']' :: (lead ++ text)))))
      ⟨key, value, isDefault, ⟨start, value.span.stop⟩⟩ := by
  refine (Yields.expectChar hc (by decide) hrest).bind hrest fun c₁ h₁ hrest₁ => ?_
  have hoffset : start + byteLength (star ++ '[' :: blanks) = c₁.offset + byteLength blanks := by
    rw [h₁.offset_from hstart]
    simp [Text.byteLength_append, Nat.add_assoc]
  rw [hoffset] at hkey
  refine bracketedKey_yields h₁.ready hblanks hkey hblanks' hrest₁ fun c₂ h₂ hrest₂ => ?_
  have hhead := h₁.trans h₂
  have hlt₂ := Nat.lt_of_le_of_lt (hhead.remaining_le hc) hlt
  -- the value is spelled from where its lead ends
  have hoffset₂ : c₂.offset + byteLength lead = start +
      byteLength (star ++ '[' :: (blanks ++ (keyText ++ (blanks' ++ ']' :: lead)))) := by
    rw [hhead.offset_from hstart, Nat.add_assoc, ← Text.byteLength_append]
    simp
  rw [← hoffset₂] at h
  exact value_yields hpattern h₂.ready hlt₂ hlead h hrest₂ hends

theorem variant_yields {hasDefault : Bool} {value : Variant} (hc : c.Ready)
    (hlt : c.remaining < limit) (h : SpellsVariant c.offset text hasDefault value)
    (hrest : c.here.rest = text ++ rest) (hends : PatternEnds rest) :
    Yields (variant pattern hasDefault) c text value := by
  cases h with
  | @mk _ isDefault _ star blanks key keyText blanks' lead text value hdefault hstar hblanks hkey
      hblanks' hlead hspells =>
    unfold variant
    dsimp only
    refine Yields.offset_bind ?_
    -- the star is there just for a default variant, and `hdefault` excludes a second one
    cases isDefault with
    | true =>
      subst hstar
      have hcurrent := Cursor.current_of_cons (by decide) hrest
      refine Yields.current_bind hcurrent ?_
      rw [if_pos rfl, if_neg (by simp [hdefault rfl])]
      refine (Yields.next hc (by decide) hrest).bind hrest fun c₁ h₁ hrest₁ => ?_
      have hlt₁ := Nat.lt_of_le_of_lt (h₁.remaining_le hc) hlt
      exact variantBody_yields hpattern h₁.ready hlt₁ h₁.offset hblanks hkey hblanks' hlead hspells
        (by simpa using hrest₁) hends
    | false =>
      subst hstar
      have hcurrent := Cursor.current_of_cons (by decide) hrest
      refine Yields.current_bind hcurrent ?_
      rw [if_neg (by decide)]
      exact variantBody_yields hpattern hc hlt (show c.offset = c.offset + byteLength [] from rfl)
        hblanks hkey hblanks' hlead hspells (by simpa using hrest) hends

theorem variantRound_yields {before : List Variant} {default? : Option Nat} {value : Variant}
    {blanks line : List Char} {result : Round (List Variant × Option Nat) (List Variant × Nat)}
    (hc : c.Ready) (hlt : c.remaining < limit) (hblanks : IsBlanks blanks) (hgap : IsIndent gap)
    (h : SpellsVariant (c.offset + byteLength blanks + byteLength gap) line default?.isSome value)
    (hrest : c.here.rest = blanks ++ (gap ++ (line ++ rest))) (hends : PatternEnds rest)
    (hresult :
      (Text.startsVariant rest ∧ result =
        .again (value :: before, if value.isDefault then some before.length else default?)) ∨
      (Text.startsVariant rest = false ∧ ∃ index,
        (if value.isDefault then some before.length else default?) = some index ∧
          result = .done ((value :: before).reverse, index))) :
    Yields (variantRound pattern (before, default?)) c (blanks ++ (gap ++ line)) result := by
  have hvisible : StartsVisible (line ++ rest) := h.startsBracket.1
  have hline : line ++ rest ≠ [] := by
    intro hnil
    have hbracket := (@SpellsVariant.startsBracket _ line rest _ _ h).2.2
    rw [hnil] at hbracket
    cases hbracket
  unfold variantRound
  dsimp only
  have hsplit : c.here.rest = blanks ++ gap ++ (line ++ rest) := by simpa using hrest
  rw [← List.append_assoc]
  refine (expectIndent_yields hc hblanks hgap hvisible hline hrest).bind hsplit
    fun c₁ h₁ hrest₁ => ?_
  have hlt₁ := Nat.lt_of_le_of_lt (h₁.remaining_le hc) hlt
  have hoffset : c₁.offset = c.offset + byteLength blanks + byteLength gap := by
    rw [h₁.offset, Text.byteLength_append, Nat.add_assoc]
  rw [← hoffset] at h
  refine ((variant_yields hpattern h₁.ready hlt₁ h hrest₁ hends).bind hrest₁
    fun c₂ h₂ hrest₂ => ?_).cast (List.append_nil line)
  -- what follows the variant decides how the round ends
  refine Yields.ask_bind h₂.ready.isNextLineVariant ?_
  rw [hrest₂]
  rcases hresult with ⟨hnext, rfl⟩ | ⟨hnone, index, hindex, rfl⟩
  · rw [if_pos hnext]
    exact Yields.pure h₂.ready _
  · rw [if_neg (by simp [hnone]), hindex]
    exact Yields.pure h₂.ready _

theorem variantRounds_yields {before more : List Variant} {default? : Option Nat}
    {defaultIndex : Nat} {blanks : List Char} (hc : c.Ready) (hlt : c.remaining < limit)
    (hblanks : IsBlanks blanks)
    (h : SpellsVariants (c.offset + byteLength blanks) text before.length default?
      more defaultIndex)
    (hrest : c.here.rest = blanks ++ (text ++ rest)) (hends : PatternEnds rest)
    (hnone : Text.startsVariant rest = false) :
    Yields (rounds (variantRound pattern) (before, default?)) c (blanks ++ text)
      (before.reverse ++ more, defaultIndex) := by
  induction more generalizing c before default? text blanks with
  | nil => cases h
  | cons value more ih =>
    cases h with
    | last hgap hvariant hindex =>
      rw [List.append_assoc] at hrest
      refine Yields.rounds_done
        (variantRound_yields hpattern hc hlt hblanks hgap hvariant hrest hends ?_)
      exact .inr ⟨hnone, defaultIndex, hindex, by simp⟩
    | @more _ gap line tail _ _ _ _ _ hgap hvariant hmore =>
      simp only [List.append_assoc] at hrest
      obtain ⟨hnext, hends'⟩ := @SpellsVariants.startsVariant _ _ rest _ _ _ _ [] Text.isBlanks_nil
        hmore
      have hround : Yields (variantRound pattern (before, default?)) c (blanks ++ (gap ++ line))
          (.again (value :: before, if value.isDefault then some before.length else default?)) :=
        variantRound_yields hpattern hc hlt hblanks hgap hvariant hrest hends' (.inl ⟨hnext, rfl⟩)
      have hsplit : c.here.rest = blanks ++ (gap ++ line) ++ (tail ++ rest) := by simpa using hrest
      have hne : blanks ++ (gap ++ line) ≠ [] := by simp [hgap.ne_nil]
      rw [show blanks ++ (gap ++ (line ++ tail)) = blanks ++ (gap ++ line) ++ tail by simp]
      refine Yields.rounds_again hc hround hne hsplit fun d h₁ hrest₁ => ?_
      have hlt₁ := Nat.lt_of_le_of_lt (h₁.remaining_le hc) hlt
      -- blanks at the end of the line in front stand before the first variant only
      have hoffset : c.offset + byteLength blanks + byteLength (gap ++ line) =
          d.offset + byteLength [] := by
        rw [h₁.offset, Text.byteLength_append]
        simp [Nat.add_assoc]
      have hmore : SpellsVariants (d.offset + byteLength []) tail (value :: before).length
          (if value.isDefault then some before.length else default?) more defaultIndex :=
        hoffset ▸ hmore
      simpa using ih h₁.ready hlt₁ Text.isBlanks_nil hmore hrest₁

/-- Behind the variants, the gap before the closing brace is read. -/
theorem choice_yields {selector : Option Expression} {choiceStart defaultIndex : Nat}
    {blanks : List Char} {variants : List Variant} (hc : c.Ready) (hlt : c.remaining < limit)
    (hblanks : IsBlanks blanks)
    (h : SpellsVariants (c.offset + byteLength blanks) text 0 none variants defaultIndex)
    (hgap : IsGap gap) (hbreak : StartsBreak gap)
    (hrest : c.here.rest = blanks ++ (text ++ (gap ++ '}' :: rest))) :
    Yields (choice pattern selector choiceStart) c (blanks ++ (text ++ gap))
      (.select selector variants defaultIndex
        ⟨choiceStart, c.offset + byteLength (blanks ++ (text ++ gap))⟩) := by
  have hvisible : StartsVisible ('}' :: rest) := Text.startsVisible_cons.2 (by decide)
  have hends : PatternEnds (gap ++ '}' :: rest) :=
    patternEnds_gap_append hgap hbreak hvisible (by rintro _ ⟨⟩; decide)
  have hnone : Text.startsVariant (gap ++ '}' :: rest) = false :=
    startsVariant_gap_append hgap hvisible rfl
  unfold choice
  have hsplit : c.here.rest = blanks ++ text ++ (gap ++ '}' :: rest) := by simpa using hrest
  rw [show blanks ++ (text ++ gap) = blanks ++ text ++ gap by simp]
  have hrounds : Yields (Parser.variants pattern) c (blanks ++ text) (variants, defaultIndex) :=
    variantRounds_yields hpattern hc hlt hblanks h hrest hends hnone
  refine hrounds.bind hsplit fun c₁ h₁ hrest₁ => ?_
  have h₂ := h₁.ready.skipIndent_takes hgap hvisible hrest₁
  refine ⟨c₁.skipIndent, ?_, h₂⟩
  dsimp only
  rw [skipIndent_bind, spanFrom_bind, pure_run, (h₁.trans h₂).offset]

/-! ### Placeables -/

/-- The choice behind an arrow. -/
theorem arrowChoice_yields {selector : Expression} {blanks : List Char} {variants : List Variant}
    {defaultIndex : Nat} (hc : c.Ready) (hlt : c.remaining < limit) (hblanks : IsBlanks blanks)
    (h : SpellsVariants (c.offset + byteLength ('-' :: '>' :: blanks)) text 0 none variants
      defaultIndex)
    (hgap : IsGap gap) (hbreak : StartsBreak gap)
    (hrest : c.here.rest = '-' :: '>' :: (blanks ++ (text ++ (gap ++ '}' :: rest)))) :
    ∃ d, (do
        skipInlineBlanks
        if !(← ask Cursor.isNextLineVariant) then fail .missingVariants []
        choice pattern (some selector) selector.span.start : Parser Expression) c.next.next =
          .ok (.select (some selector) variants defaultIndex ⟨selector.span.start,
            c.offset + byteLength ('-' :: '>' :: (blanks ++ (text ++ gap)))⟩) d ∧
      c.Takes ('-' :: '>' :: (blanks ++ (text ++ gap))) d := by
  -- the caller has moved over the two characters of the arrow: the rest runs behind them
  have h₁ := hc.next_takes (by decide) hrest
  have hrest₁ := h₁.rest_eq hrest
  have h₂ := h₁.ready.next_takes (by decide) hrest₁
  have hrest₂ := h₂.rest_eq hrest₁
  obtain ⟨hvariant, hends⟩ := @SpellsVariants.startsVariant _ _ (gap ++ '}' :: rest) _ _ _ _ []
    Text.isBlanks_nil h
  have hyields : Yields (do
      skipInlineBlanks
      if !(← ask Cursor.isNextLineVariant) then fail .missingVariants []
      choice pattern (some selector) selector.span.start) c.next.next (blanks ++ (text ++ gap))
      (.select (some selector) variants defaultIndex ⟨selector.span.start,
            c.offset + byteLength ('-' :: '>' :: (blanks ++ (text ++ gap)))⟩) := by
    refine (Yields.skipInlineBlanks h₂.ready hblanks hrest₂ hends.ends).bind hrest₂
      fun c₃ h₃ hrest₃ => ?_
    have hhead := h₁.trans (h₂.trans h₃)
    have hlt₃ := Nat.lt_of_le_of_lt (hhead.remaining_le hc) hlt
    refine Yields.ask_bind h₃.ready.isNextLineVariant ?_
    rw [List.nil_append] at hvariant
    rw [hrest₃, hvariant, if_neg (by decide)]
    have hstop : c.offset + byteLength ('-' :: '>' :: (blanks ++ (text ++ gap))) =
        c₃.offset + byteLength (text ++ gap) := by
      rw [hhead.offset, Nat.add_assoc, ← Text.byteLength_append]
      simp
    have hstart : c.offset + byteLength ('-' :: '>' :: blanks) = c₃.offset := hhead.offset.symm
    rw [hstop]
    rw [hstart] at h
    exact choice_yields hpattern h₃.ready hlt₃ Text.isBlanks_nil h hgap hbreak hrest₃
  obtain ⟨d, hrun, h₃⟩ := hyields
  exact ⟨d, hrun, h₁.trans (h₂.trans h₃)⟩

omit hpattern in
/-- A selector is read between blanks, up to what follows it. -/
theorem selectorBetween_yields {f : Expression → Parser α} {a : α} {selector : Expression}
    {blanks blanks' tail : List Char} (hc : c.Ready) (hblanks : IsBlanks blanks)
    (hselector : SpellsSelector (c.offset + byteLength blanks) text selector
      (blanks' ++ rest).head?)
    (hblanks' : IsBlanks blanks') (hvisible : StartsVisible rest)
    (hrest : c.here.rest = blanks ++ (text ++ (blanks' ++ rest)))
    (hf : ∀ d, c.Takes (blanks ++ (text ++ blanks')) d → d.here.rest = rest →
      Yields (f selector) d tail a) :
    Yields (do
      skipInlineBlanks
      let selector ← selectorExpression
      skipInlineBlanks
      f selector) c (blanks ++ (text ++ (blanks' ++ tail))) a := by
  refine (Yields.skipInlineBlanks hc hblanks hrest hselector.startsVisible.ends).bind hrest
    fun c₁ h₁ hrest₁ => ?_
  rw [← h₁.offset] at hselector
  refine (selectorExpression_yields h₁.ready hselector hrest₁).bind hrest₁ fun c₂ h₂ hrest₂ => ?_
  refine (Yields.skipInlineBlanks h₂.ready hblanks' hrest₂ hvisible.ends).bind hrest₂
    fun c₃ h₃ hrest₃ => ?_
  exact hf c₃ (h₁.trans (h₂.trans h₃)) hrest₃

theorem placeableExpression_yields {expression : Expression} (hc : c.Ready)
    (hlt : c.remaining < limit) (h : SpellsPlaceable c.offset text expression)
    (hrest : c.here.rest = text ++ '}' :: rest) :
    Yields (placeableExpression pattern) c text expression := by
  unfold placeableExpression
  dsimp only
  refine Yields.offset_bind (Yields.ask_bind hc.isNextLineVariant ?_)
  cases h with
  | @selector _ blanks selectorText _ blanks' hblanks hselector hblanks' hplaced =>
    simp only [List.append_assoc] at hrest
    rw [hrest, hselector.not_startsVariant hblanks, if_neg (by decide)]
    have hnext : (blanks' ++ ['}']).head? = (blanks' ++ '}' :: rest).head? :=
      head?_append_of_head? rfl
    rw [hnext] at hselector
    rw [← List.append_nil blanks']
    refine selectorBetween_yields hc hblanks hselector hblanks'
      (Text.startsVisible_cons.2 (by decide)) hrest fun c₁ h₁ hrest₁ => ?_
    -- the closing brace is no arrow
    refine Yields.isArrow_none_bind h₁.ready (by simp [hrest₁]) ?_
    refine ⟨c₁, ?_, .refl h₁.ready⟩
    rw [if_neg (by decide), modify_bind, h₁.ready.resetPeek, if_neg (by simp [hplaced])]
    rfl
  | @choice _ blanks selectorText selector blanks' blanks'' variantsText variants defaultIndex gap
      hblanks hselector hblanks' herror hblanks'' hvariants hgap hbreak =>
    simp only [List.append_assoc, List.cons_append] at hrest
    rw [hrest, hselector.not_startsVariant hblanks, if_neg (by decide)]
    have hnext : (blanks' ++ ['-']).head? = (blanks' ++ '-' :: '>' ::
        (blanks'' ++ (variantsText ++ (gap ++ '}' :: rest)))).head? := head?_append_of_head? rfl
    rw [hnext] at hselector
    refine selectorBetween_yields hc hblanks hselector hblanks'
      (Text.startsVisible_cons.2 (by decide)) hrest fun c₁ h₁ hrest₁ => ?_
    refine Yields.isArrow_some_bind h₁.ready hrest₁ fun hpeek => ?_
    have hlt₁ := Nat.lt_of_le_of_lt (h₁.remaining_le hc) hlt
    -- the variants are spelled from behind the arrow, and the span ends behind their gap
    have hoffset : c.offset +
        byteLength (blanks ++ (selectorText ++ (blanks' ++ '-' :: '>' :: blanks''))) =
        c₁.offset + byteLength ('-' :: '>' :: blanks'') := by
      rw [h₁.offset, Nat.add_assoc, ← Text.byteLength_append]
      simp
    have hstop : c.offset + byteLength (blanks ++ (selectorText ++ (blanks' ++ '-' :: '>' ::
        (blanks'' ++ (variantsText ++ gap))))) =
          c₁.offset + byteLength ('-' :: '>' :: (blanks'' ++ (variantsText ++ gap))) := by
      rw [h₁.offset, Nat.add_assoc, ← Text.byteLength_append]
      simp
    rw [hoffset] at hvariants
    obtain ⟨d, hrun, h₂⟩ := @arrowChoice_yields _ _ _ _ _ _ hpattern selector _ _ _ h₁.ready hlt₁
      hblanks'' hvariants hgap hbreak hrest₁
    refine ⟨d, ?_, h₂⟩
    rw [if_pos rfl, herror]
    dsimp only
    rw [modify_bind, hpeek, hstop]
    exact hrun
  | @bare _ blanks variantsText variants defaultIndex gap hblanks hvariants hgap hbreak =>
    simp only [List.append_assoc] at hrest
    have hnext := (@SpellsVariants.startsVariant _ _ (gap ++ '}' :: rest) _ _ _ _ _ hblanks
      hvariants).1
    rw [hrest, hnext, if_pos rfl]
    exact choice_yields hpattern hc hlt hblanks hvariants hgap hbreak hrest

theorem placeable_yields {inner : List Char} {expression : Expression} (hc : c.Ready)
    (hlt : c.remaining ≤ limit) (h : SpellsPlaceable (c.offset + 1) inner expression)
    (hrest : c.here.rest = '{' :: (inner ++ '}' :: rest)) :
    Yields (placeable (placeableExpression pattern)) c ('{' :: (inner ++ ['}']))
      (.placeable expression (spanOf c.offset ('{' :: (inner ++ ['}'])))) := by
  unfold placeable
  refine Yields.offset_bind ((Yields.expectChar hc (by decide) hrest).bind hrest
    fun c₁ h₁ hrest₁ => ?_)
  have hlt₁ := Nat.lt_of_lt_of_le (h₁.remaining_lt hc (by simp)) hlt
  have hoffset : c.offset + 1 = c₁.offset := h₁.offset.symm
  rw [hoffset] at h
  refine (placeableExpression_yields hpattern h₁.ready hlt₁ h hrest₁).bind hrest₁
    fun c₂ h₂ hrest₂ => ?_
  refine ((Yields.expectChar h₂.ready (by decide) hrest₂).bind hrest₂ fun c₃ h₃ _ => ?_).cast
    (List.append_nil _)
  exact Yields.span (h₁.trans (h₂.trans h₃)) _

/-! ### Patterns -/

omit hpattern in
theorem patternRound_stop_yields (before : List PatternElement) (hc : c.Ready)
    (hends : PatternEnds c.here.rest) :
    Yields (patternRound (placeableExpression pattern) before) c [] (.done before) := by
  unfold patternRound
  rcases hends with hnil | ⟨hbreak, hends⟩
  · exact Yields.current_bind (Cursor.current_eq_none_iff.2 hnil) (Yields.pure hc _)
  · have hnewline := Cursor.current_eq_newline_iff.2 (Text.startsBreak_iff_isSome.1 hbreak)
    refine Yields.current_bind hnewline ?_
    dsimp only
    rw [if_pos rfl]
    refine Yields.ask_bind hc.isNextLinePattern ?_
    rw [hends]
    exact Yields.pure hc _

omit hpattern in
theorem patternRound_element_yields {before : List PatternElement} {ch : Char} {taken : List Char}
    {result : Round (List PatternElement) (List PatternElement)} (hc : c.Ready)
    (hcurrent : c.current = some ch) (hgoes : ch = '\n' → Text.startsPattern c.here.rest)
    (h : Yields (if ch = '{' then do
        return .again ((← placeable (placeableExpression pattern)) :: before)
      else do
        return .again ((← textElement) :: before)) c taken result) :
    Yields (patternRound (placeableExpression pattern) before) c taken result := by
  unfold patternRound
  refine Yields.current_bind hcurrent ?_
  dsimp only
  split
  · next hnewline =>
    refine Yields.ask_bind hc.isNextLinePattern ?_
    rw [hgoes hnewline]
    exact h
  · exact Yields.pure_bind h

omit hpattern in
theorem patternRound_text_yields {raw value : List Char} {next : Option Char}
    (before : List PatternElement) (hc : c.Ready) (hne : raw ≠ [])
    (h : SpellsText raw value next) (hrest : c.here.rest = raw ++ rest)
    (hnext : TextEnds rest next) :
    Yields (patternRound (placeableExpression pattern) before) c raw
      (.again (.text (String.ofList value) (spanOf c.offset raw) :: before)) := by
  have htext : Yields (do return Round.again ((← textElement) :: before)) c raw
      (Round.again (.text (String.ofList value) (spanOf c.offset raw) :: before) :
        Round _ (List PatternElement)) := by
    refine ((textElement_yields hc h hrest hnext).bind hrest fun d h₁ _ => ?_).cast
      (List.append_nil raw)
    exact Yields.pure h₁.ready _
  cases raw with
  | nil => exact absurd rfl hne
  | cons ch raw =>
    cases hbreak : isLineBreak ch with
    -- a text that starts with a line break is read only where the pattern goes on behind it
    | true =>
      have hstart : StartsBreak (ch :: raw) := Text.startsBreak_cons.2 hbreak
      have hnewline : c.current = some '\n' := by
        rw [Cursor.current_eq_newline_iff, hrest, ← Text.startsBreak_iff_isSome]
        exact hstart.append
      refine patternRound_element_yields hc hnewline (fun _ => ?_) ?_
      · rw [hrest]
        exact h.startsPattern hstart hnext
      · rw [if_neg (by decide)]
        exact htext
    | false =>
      refine patternRound_element_yields hc (Cursor.current_of_cons hbreak hrest) ?_ ?_
      · rintro rfl
        cases hbreak
      · have hbrace : ch ≠ '{' := by simpa using h.head?_ne
        rw [if_neg hbrace]
        exact htext

theorem patternRound_placeable_yields {inner : List Char} {expression : Expression}
    (before : List PatternElement) (hc : c.Ready)
    (hlt : c.remaining ≤ limit) (h : SpellsPlaceable (c.offset + 1) inner expression)
    (hrest : c.here.rest = '{' :: (inner ++ '}' :: rest)) :
    Yields (patternRound (placeableExpression pattern) before) c ('{' :: (inner ++ ['}']))
      (.again (.placeable expression (spanOf c.offset ('{' :: (inner ++ ['}']))) :: before)) := by
  have hsplit : c.here.rest = '{' :: (inner ++ ['}']) ++ rest := by simpa using hrest
  refine patternRound_element_yields hc (Cursor.current_of_cons (by decide) hrest) (by simp) ?_
  rw [if_pos rfl]
  refine ((placeable_yields hpattern hc hlt h hrest).bind hsplit fun d h₁ _ => ?_).cast
    (List.append_nil _)
  exact Yields.pure h₁.ready _

theorem patternRounds_yields {before more : List PatternElement} (hc : c.Ready)
    (hlt : c.remaining ≤ limit) (h : SpellsElements c.offset text more)
    (hrest : c.here.rest = text ++ rest) (hends : PatternEnds rest) :
    Yields (rounds (patternRound (placeableExpression pattern)) before) c text
      (more.reverse ++ before) := by
  induction more generalizing c before text with
  | nil =>
    cases h
    exact Yields.rounds_done (patternRound_stop_yields before hc (by rwa [hrest]))
  | cons element more ih =>
    cases h with
    | @text _ raw value tail _ hne hspells hmore =>
      rw [List.append_assoc] at hrest
      -- a text ends in front of the next element, or with the pattern
      have hnext : TextEnds (tail ++ rest) tail.head? := by
        cases tail with
        | nil => exact .inr ⟨hends, rfl⟩
        | cons ch tail =>
          obtain rfl := hspells.next_eq ch rfl
          exact .inl ⟨rfl, rfl⟩
      have hround := @patternRound_text_yields _ _ pattern _ _ _ before hc hne hspells hrest hnext
      refine Yields.rounds_again hc hround hne hrest fun d h₁ hrest₁ => ?_
      have hlt₁ := Nat.le_trans (h₁.remaining_le hc) hlt
      rw [← h₁.offset] at hmore
      simpa using ih h₁.ready hlt₁ hmore hrest₁
    | @placeable _ inner expression tail _ hspells hmore =>
      simp only [List.cons_append, List.append_assoc] at hrest
      have hround := patternRound_placeable_yields hpattern before hc hlt hspells hrest
      have hsplit : c.here.rest = '{' :: (inner ++ ['}']) ++ (tail ++ rest) := by simpa using hrest
      rw [show '{' :: (inner ++ '}' :: tail) = '{' :: (inner ++ ['}']) ++ tail by simp]
      refine Yields.rounds_again hc hround (by simp) hsplit fun d h₁ hrest₁ => ?_
      have hlt₁ := Nat.le_trans (h₁.remaining_le hc) hlt
      rw [← h₁.offset] at hmore
      simpa using ih h₁.ready hlt₁ hmore hrest₁

theorem patternBody_yields {value : Localization.Pattern} (hc : c.Ready) (hlt : c.remaining ≤ limit)
    (h : SpellsPattern c.offset text value) (hrest : c.here.rest = text ++ rest)
    (hends : PatternEnds rest) :
    Yields (patternBody (placeableExpression pattern)) c text value := by
  cases h with
  | mk hspells =>
    unfold patternBody
    refine Yields.offset_bind ?_
    have hrounds := @patternRounds_yields _ _ _ _ _ hpattern [] _ hc hlt hspells hrest hends
    refine (hrounds.bind hrest fun d h₁ _ => ?_).cast (List.append_nil text)
    rw [List.append_nil]
    exact Yields.pure h₁.ready _

end Pattern

/-- What is spelled as a pattern is read as one where no pattern goes on behind it. -/
theorem pattern_yields {value : Pattern} (hc : c.Ready) (h : SpellsPattern c.offset text value)
    (hrest : c.here.rest = text ++ rest) (hends : PatternEnds rest) :
    Yields pattern c text value :=
  nested_yields (S := fun c text value => c.Ready ∧ SpellsPattern c.offset text value ∧
      ∃ rest, c.here.rest = text ++ rest ∧ PatternEnds rest)
    (fun _ _ _ _ hself ⟨hc, h, _, hrest, hends⟩ =>
      patternBody_yields (fun d text value rest hlt hd hspells hrest hends =>
        hself d text value hlt ⟨hd, hspells, rest, hrest, hends⟩) hc (Nat.le_refl _) h hrest hends)
    ⟨hc, h, rest, hrest, hends⟩

end Parser

end Localization
