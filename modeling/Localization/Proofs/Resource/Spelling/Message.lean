import Localization.Proofs.Resource.Spelling.PatternReturns
import Localization.Proofs.Resource.Spelling.PatternYields

/-!
# The spelling of messages and terms

A message goes on as long as indented lines go on with its last pattern or start another attribute.

## Main statements

* `Parser.messageEntry_returns` — what is read as a message or a term is spelled as one
* `Parser.messageEntry_yields` — what is spelled as a message or a term is read as one
-/

namespace Localization

open Text (Ends IsBlanks IsGap IsIndent StartsBreak StartsVisible byteLength startsAttribute)

theorem SpellsAttributes.eq_nil {start : Nat} {text : List Char} {attributes : List Attribute}
    (h : SpellsAttributes start text attributes) (hnil : text = []) : attributes = [] := by
  cases h with
  | nil => rfl
  | cons hgap _ _ => exact absurd (List.append_eq_nil_iff.1 hnil).1 hgap.ne_nil

theorem SpellsAttribute.exists_cons {start : Nat} {text : List Char} {named : Attribute}
    (h : SpellsAttribute start text named) : ∃ more, text = '.' :: more := by
  cases h with
  | mk _ _ _ _ => exact ⟨_, rfl⟩

/-- Before an attribute the pattern ends, and the attribute is seen. -/
theorem SpellsAttributes.starts {start : Nat} {text rest : List Char} {named : Attribute}
    {attributes : List Attribute} (h : SpellsAttributes start text (named :: attributes)) :
    PatternEnds (text ++ rest) ∧ startsAttribute (text ++ rest) ∧
      ∃ gap more, IsIndent gap ∧ text ++ rest = gap ++ '.' :: more := by
  cases h with
  | @cons _ gap _ _ tail _ hgap hnamed _ =>
    obtain ⟨more, rfl⟩ := hnamed.exists_cons
    have htext : gap ++ ('.' :: more ++ tail) ++ rest = gap ++ '.' :: (more ++ (tail ++ rest)) := by
      simp
    rw [htext]
    refine ⟨patternEnds_gap_append hgap.isGap hgap.startsBreak
      (Text.startsVisible_cons.2 (by decide)) (by rintro _ ⟨⟩; decide),
      Text.startsAttribute_iff.2 ⟨gap, _, hgap, rfl⟩, gap, _, hgap, rfl⟩

namespace Parser

variable {c d : Cursor}

/-! ### Attributes -/

/-- An attribute that was read is spelled by what was taken. -/
theorem attributeLine_returns {named : Attribute} (hc : c.Ready)
    (h : Returns attributeLine c named d) :
    ∃ text, c.Takes text d ∧ SpellsAttribute c.offset text named ∧ PatternEnds d.here.rest := by
  unfold attributeLine at h
  obtain ⟨_, c₁, hdot, h⟩ := h.offset_bind.bind
  have h₁ := expectChar_returns hc (by decide) hdot
  obtain ⟨id, c₂, hid, h⟩ := h.bind
  obtain ⟨name, h₂, hname, -, rfl⟩ := identifier_returns h₁.ready hid
  obtain ⟨blanks, hblanks, h₃⟩ := h₂.ready.takes_blanks
  obtain ⟨_, c₄, hequals, h⟩ := h.skipInlineBlanks_bind.bind
  have h₄ := expectChar_returns h₃.ready (by decide) hequals
  obtain ⟨lead, text, value, h₅, hlead, hspells, hends, rfl⟩ :=
    value_returns pattern_returns h₄.ready h
  have hhead := h₁.trans (h₂.trans (h₃.trans h₄))
  rw [hhead.offset, Nat.add_assoc, ← Text.byteLength_append] at hspells
  have hmk := SpellsAttribute.mk hname hblanks hlead
    (show SpellsPattern
      (c.offset + byteLength ('.' :: (name ++ (blanks ++ '=' :: lead)))) text value
      by simpa using hspells)
  refine ⟨_, hhead.trans h₅, ?_, hends⟩
  rw [h₁.offset, show byteLength ['.'] = 1 from rfl]
  simpa using hmk

/-- What the rounds over the attributes of a message have read when it ends. -/
def ReadsAttributes (before : List Attribute) (c : Cursor) (attributes : List Attribute)
    (d : Cursor) : Prop :=
  ∃ text more, c.Takes text d ∧ SpellsAttributes c.offset text more ∧
    attributes = before.reverse ++ more ∧ startsAttribute d.here.rest = false ∧
    (text = [] ∨ PatternEnds d.here.rest)

theorem attributeRound_again {before before' : List Attribute} (hc : c.Ready)
    (h : Returns (attributeRound before) c (.again before') d) :
    d.Ready ∧ ∀ attributes e, ReadsAttributes before' d attributes e →
      ReadsAttributes before c attributes e := by
  unfold attributeRound at h
  have h := h.ask_bind hc.isNextLineAttribute
  split at h
  · next hattribute =>
    obtain ⟨_, c₁, hindent, h⟩ := h.bind
    obtain ⟨blanks, gap, h₁, hblanks, hgap⟩ := expectIndent_returns hc hindent
    obtain ⟨named, c₂, hnamed, h⟩ := h.bind
    obtain ⟨text, h₂, hspells, hends⟩ := attributeLine_returns h₁.ready hnamed
    obtain ⟨hround, rfl⟩ := Returns.pure_iff.1 h
    obtain rfl := Round.again.inj hround
    obtain ⟨_, _, hindent', hrest⟩ := Text.startsAttribute_iff.1 hattribute
    have hbreak : StartsBreak c.here.rest := hrest ▸ hindent'.startsBreak.append
    rw [h₁.rest, List.append_assoc] at hbreak
    -- the look-ahead found a line break here, so no blanks were taken before it
    obtain rfl := hblanks.eq_nil_of_startsBreak hbreak
    refine ⟨h₂.ready, ?_⟩
    rintro attributes e ⟨text', more, h₃, hmore, rfl, hnone, hends'⟩
    rw [h₁.offset] at hspells
    rw [(h₁.trans h₂).offset] at hmore
    refine ⟨gap ++ (text ++ text'), named :: more, by simpa using h₁.trans (h₂.trans h₃),
      .cons hgap hspells hmore, by simp, hnone, .inr ?_⟩
    rcases hends' with rfl | hends'
    · rwa [h₃.rest] at hends
    · exact hends'
  · cases (Returns.pure_iff.1 h).1

theorem attributeRound_done {before attributes : List Attribute} (hc : c.Ready)
    (h : Returns (attributeRound before) c (.done attributes) d) :
    ReadsAttributes before c attributes d := by
  unfold attributeRound at h
  have h := h.ask_bind hc.isNextLineAttribute
  split at h
  · obtain ⟨_, _, -, h⟩ := h.bind
    obtain ⟨_, _, -, h⟩ := h.bind
    cases (Returns.pure_iff.1 h).1
  · next hnone =>
    obtain ⟨hround, rfl⟩ := Returns.pure_iff.1 h
    obtain rfl := Round.done.inj hround
    exact ⟨[], [], .refl hc, .nil, by simp, by simpa using hnone, .inl rfl⟩

/-! ### Messages -/

/-- A value that was read is spelled by what was taken, and where there is none nothing is. -/
theorem messageValue_returns {value : Option Pattern} (hc : c.Ready)
    (h : Returns messageValue c value d) :
    ∃ text, c.Takes text d ∧ SpellsValue c.offset text value ∧
      (value.isSome → PatternEnds d.here.rest) := by
  unfold messageValue at h
  have h := h.ask_bind hc.isValueStart
  split at h
  · next hvalue =>
    obtain ⟨lead, text, value, h₁, hlead, hspells, hends, rfl⟩ :=
      skipValue_returns pattern_returns hc hvalue h
    exact ⟨lead ++ text, h₁, .some hlead hspells, fun _ => hends⟩
  · obtain ⟨blanks, hblanks, h₁⟩ := hc.takes_blanks
    obtain ⟨rfl, rfl⟩ := Returns.pure_iff.1 h.skipInlineBlanks_bind
    exact ⟨blanks, h₁, .none hblanks, by simp⟩

/-- What is read as a message or a term is spelled as one, and nothing goes on with it. -/
theorem messageEntry_returns {entry : Entry} (hc : c.Ready)
    (h : Returns messageEntry c entry d) :
    ∃ text message, c.Takes text d ∧ SpellsMessage c.offset text message ∧
      PatternEnds d.here.rest ∧ startsAttribute d.here.rest = false ∧
      entry = if message.isTerm then .term message else .message message := by
  unfold messageEntry at h
  dsimp only at h
  obtain ⟨id, c₁, hid, h⟩ := h.offset_bind.bind
  obtain ⟨name, h₁, hname, -, rfl⟩ := entryIdentifier_returns hc hid
  obtain ⟨blanks, hblanks, h₂⟩ := h₁.ready.takes_blanks
  obtain ⟨_, c₃, hequals, h⟩ := h.skipInlineBlanks_bind.bind
  have h₃ := expectChar_returns h₂.ready (by decide) hequals
  obtain ⟨value, c₄, hvalue, h⟩ := h.bind
  obtain ⟨valueText, h₄, hvalue, hends⟩ := messageValue_returns h₃.ready hvalue
  obtain ⟨attributes, c₅, hattributes, h⟩ := h.bind
  obtain ⟨attributesText, more, h₅, hattributes, hmore, hnone, hends'⟩ :=
    rounds_returns (Q := ReadsAttributes)
      (fun _ _ _ _ hready hround => attributeRound_again hready hround)
      (fun _ _ _ _ hready hround => attributeRound_done hready hround) h₄.ready hattributes
  obtain rfl : attributes = more := by simpa using hmore
  split at h
  · exact absurd h Returns.not_fail_bind
  · next hterm =>
    split at h
    · exact absurd h Returns.not_fail_bind
    · next hmessage =>
      obtain ⟨rfl, rfl⟩ := Returns.pure_iff.1 h
      have hhead := h₁.trans (h₂.trans h₃)
      -- without attributes the pattern of the value ended; with some, that of the last one did
      have hstop : PatternEnds c₅.here.rest := by
        rcases hends' with rfl | hends'
        · obtain rfl := hattributes.eq_nil rfl
          have hsome : value.isSome := by
            cases value with
            | none => simp at hmessage
            | some _ => rfl
          have hsame : c₄.here.rest = c₅.here.rest := h₅.rest
          exact hsame ▸ hends hsome
        · exact hends'
      rw [hhead.offset] at hvalue
      rw [(hhead.trans h₄).offset] at hattributes
      have hmk := SpellsMessage.mk hname hblanks hvalue (by simpa using hattributes)
        (Bool.eq_false_iff.2 hterm) (Bool.eq_false_iff.2 hmessage)
      exact ⟨_, _, by simpa using hhead.trans (h₄.trans h₅), hmk, hstop, hnone, rfl⟩

/-! ### Texts that are read as messages -/

/-- A text that spells an attribute is read as that attribute. -/
theorem attributeLine_yields {text rest : List Char} {named : Attribute} (hc : c.Ready)
    (h : SpellsAttribute c.offset text named) (hrest : c.here.rest = text ++ rest)
    (hends : PatternEnds rest) : Yields attributeLine c text named := by
  cases h with
  | @mk name blanks lead text value hname hblanks hlead hspells =>
    simp only [List.cons_append, List.append_assoc] at hrest
    unfold attributeLine
    refine Yields.offset_bind ((Yields.expectChar hc (by decide) hrest).bind hrest
      fun c₁ h₁ hrest₁ => ?_)
    have hend : Ends isIdentifierChar (blanks ++ '=' :: (lead ++ (text ++ rest))).head? :=
      hblanks.ends_append (fun _ => isIdentifierChar_of_isInlineBlank)
        (Text.ends_some.2 (by decide))
    refine (identifier_yields h₁.ready hname hrest₁ hend).bind hrest₁ fun c₂ h₂ hrest₂ => ?_
    refine (Yields.skipInlineBlanks h₂.ready hblanks hrest₂
      (Text.startsVisible_cons.2 (by decide)).ends).bind hrest₂ fun c₃ h₃ hrest₃ => ?_
    refine (Yields.expectChar h₃.ready (by decide) hrest₃).bind hrest₃ fun c₄ h₄ hrest₄ => ?_
    have hhead := h₁.trans (h₂.trans (h₃.trans h₄))
    have hoffset : c.offset + byteLength ('.' :: (name ++ (blanks ++ '=' :: lead))) =
        c₄.offset + byteLength lead := by
      rw [hhead.offset, Nat.add_assoc, ← Text.byteLength_append]
      simp
    rw [hoffset] at hspells
    rw [h₁.offset]
    exact value_yields (fun _ _ _ _ _ => pattern_yields) h₄.ready (Nat.lt_succ_self _) hlead hspells
      hrest₄ hends

theorem attributeRounds_yields {text rest : List Char} {before more : List Attribute}
    (hc : c.Ready) (h : SpellsAttributes c.offset text more) (hrest : c.here.rest = text ++ rest)
    (hends : PatternEnds rest) (hnone : startsAttribute rest = false) :
    Yields (rounds attributeRound before) c text (before.reverse ++ more) := by
  induction more generalizing c before text with
  | nil =>
    cases h
    rw [List.append_nil]
    refine Yields.rounds_done ?_
    unfold attributeRound
    refine Yields.ask_bind hc.isNextLineAttribute ?_
    rw [hrest, List.nil_append, hnone]
    exact Yields.pure hc _
  | cons named more ih =>
    obtain ⟨-, hattribute, -⟩ := @SpellsAttributes.starts _ _ rest _ _ h
    cases h with
    | @cons _ gap line _ tail _ hgap hspells hmore =>
      simp only [List.append_assoc] at hrest
      -- the pattern of this attribute ends where the next attribute or the rest begins
      have hends' : PatternEnds (tail ++ rest) := by
        cases more with
        | nil =>
          cases hmore
          exact hends
        | cons _ _ => exact (@SpellsAttributes.starts _ _ rest _ _ hmore).1
      obtain ⟨content, rfl⟩ := hspells.exists_cons
      -- the indent and the line behind it are one round
      have hround : Yields (attributeRound before) c (gap ++ '.' :: content)
          (.again (named :: before)) := by
        unfold attributeRound
        refine Yields.ask_bind hc.isNextLineAttribute ?_
        rw [hrest]
        simp only [List.append_assoc] at hattribute
        rw [hattribute, if_pos rfl]
        refine (expectIndent_yields hc Text.isBlanks_nil hgap
          (Text.startsVisible_cons.2 (by decide))
          (List.cons_ne_nil _ _) hrest).bind hrest fun c₁ h₁ hrest₁ => ?_
        have hoffset : c.offset + byteLength gap = c₁.offset := h₁.offset.symm
        rw [hoffset] at hspells
        refine ((attributeLine_yields h₁.ready hspells hrest₁ hends').bind hrest₁
          fun c₂ h₂ _ => ?_).cast (List.append_nil _)
        exact Yields.pure h₂.ready _
      have hsplit : c.here.rest = gap ++ '.' :: content ++ (tail ++ rest) := by simpa using hrest
      rw [← List.append_assoc]
      refine Yields.rounds_again hc hround (by simp) hsplit fun d h₁ hrest₁ => ?_
      rw [← h₁.offset] at hmore
      have hrounds := @ih _ _ (named :: before) h₁.ready hmore hrest₁
      simpa using hrounds

/-- A text that spells a value is read as that value. -/
theorem messageValue_yields {text rest : List Char} {value : Option Pattern} (hc : c.Ready)
    (h : SpellsValue c.offset text value) (hrest : c.here.rest = text ++ rest)
    (hends : PatternEnds rest) (hnone : value = none → Text.startsValue (text ++ rest) = false) :
    Yields messageValue c text value := by
  unfold messageValue
  refine Yields.ask_bind hc.isValueStart ?_
  cases h with
  | none hblanks =>
    rw [hrest, hnone rfl, if_neg (by decide)]
    refine ((Yields.skipInlineBlanks hc hblanks hrest hends.ends).bind hrest fun d h₁ _ => ?_).cast
      (List.append_nil text)
    exact Yields.pure h₁.ready _
  | @some lead text value hlead hspells =>
    rw [List.append_assoc] at hrest
    rw [hrest, hlead.startsValue, if_pos rfl]
    exact (skipValue_yields (fun _ _ _ _ _ => pattern_yields) hc (Nat.lt_succ_self _) hlead hspells
      hrest hends).2

/-- What is spelled as a message or a term is read as one where nothing goes on behind it. -/
theorem messageEntry_yields {text rest : List Char} {message : Message} (hc : c.Ready)
    (h : SpellsMessage c.offset text message) (hrest : c.here.rest = text ++ rest)
    (hends : PatternEnds rest) (hnone : startsAttribute rest = false) :
    Yields messageEntry c text (if message.isTerm then .term message else .message message) := by
  cases h with
  | @mk name blanks valueText value attributesText attributes hname hblanks hvalue hattributes
      hterm hmessage =>
    simp only [List.cons_append, List.append_assoc] at hrest
    unfold messageEntry
    dsimp only
    have hend : Ends isIdentifierChar
        (blanks ++ '=' :: (valueText ++ (attributesText ++ rest))).head? :=
      hblanks.ends_append (fun _ => isIdentifierChar_of_isInlineBlank)
        (Text.ends_some.2 (by decide))
    refine Yields.offset_bind ((entryIdentifier_yields hc hname hrest hend).bind hrest
      fun c₁ h₁ hrest₁ => ?_)
    refine (Yields.skipInlineBlanks h₁.ready hblanks hrest₁
      (Text.startsVisible_cons.2 (by decide)).ends).bind hrest₁ fun c₂ h₂ hrest₂ => ?_
    refine (Yields.expectChar h₂.ready (by decide) hrest₂).bind hrest₂ fun c₃ h₃ hrest₃ => ?_
    have hhead := h₁.trans (h₂.trans h₃)
    -- the value ends where the attributes or the rest begin
    have hends₁ : PatternEnds (attributesText ++ rest) := by
      cases attributes with
      | nil =>
        cases hattributes
        exact hends
      | cons _ _ => exact (@SpellsAttributes.starts _ _ rest _ _ hattributes).1
    -- without a value none may be seen behind the sign either
    have hnone₁ : value = none →
        Text.startsValue (valueText ++ (attributesText ++ rest)) = false := by
      rintro rfl
      cases hvalue with
      | none hblanks' => exact hends₁.not_startsValue hblanks'
    rw [← hhead.offset] at hvalue
    refine (messageValue_yields h₃.ready hvalue hrest₃ hends₁ hnone₁).bind hrest₃
      fun c₄ h₄ hrest₄ => ?_
    have hoffset : c.offset + byteLength (name ++ (blanks ++ '=' :: valueText)) = c₄.offset := by
      rw [(hhead.trans h₄).offset]
      simp
    rw [hoffset] at hattributes
    refine ((@attributeRounds_yields _ _ _ [] _ h₄.ready hattributes hrest₄ hends hnone).bind hrest₄
      fun c₅ h₅ _ => ?_).cast (List.append_nil _)
    rw [List.reverse_nil, List.nil_append, if_neg (by simp [hterm]), if_neg (by simp [hmessage])]
    exact Yields.pure h₅.ready _

end Parser

end Localization
