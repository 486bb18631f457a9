import Localization.Proofs.Resource.Spelling.Layout
import Localization.Proofs.Resource.Spelling.Selector

/-!
# Patterns are spelled as they are read

Patterns hold placeables, placeables hold choices, and choices hold patterns. What the nested parser
hands to its body reads patterns; the body is followed from there.

## Main statements

* `Parser.pattern_returns` — what is read as a pattern is spelled as one
-/

namespace Localization.Parser

open Text (Ends IsBlanks IsGap IsIndent StartsBreak StartsVisible byteLength)

variable {c d : Cursor} {α : Type}

/-- What a parser of patterns has to read. -/
def ReadsPattern (c : Cursor) (pattern : Pattern) (d : Cursor) : Prop :=
  c.Ready → ∃ text, c.Takes text d ∧ SpellsPattern c.offset text pattern ∧
    PatternEnds d.here.rest ∧ (text = [] → PatternEnds c.here.rest)

section Pattern

variable {pattern : Parser Pattern}
  (hpattern : ∀ c value d, Returns pattern c value d → ReadsPattern c value d)
include hpattern

/-! ### Variants -/

/-- A value and what leads to it. -/
theorem skipValue_returns {f : Pattern → α} {a : α} (hc : c.Ready)
    (hvalue : Text.startsValue c.here.rest)
    (h : Returns (do
      skipIndent
      let value ← pattern
      return f value) c a d) :
    ∃ lead text value, c.Takes (lead ++ text) d ∧ IsLead lead text ∧
      SpellsPattern (c.offset + byteLength lead) text value ∧ PatternEnds d.here.rest ∧
      a = f value := by
  obtain ⟨lead, ch, more, h₁, hrest, hvisible, hlead⟩ := startsValue_lead hc hvalue
  obtain ⟨value, c₂, hvalue, h⟩ := h.skipIndent_bind.bind
  obtain ⟨rfl, rfl⟩ := Returns.pure_iff.1 h
  obtain ⟨text, h₂, hspells, hends, hnil⟩ := hpattern _ _ _ hvalue h₁.ready
  refine ⟨lead, text, value, h₁.trans h₂, ?_, h₁.offset ▸ hspells, hends, rfl⟩
  cases text with
  | nil => exact absurd (hrest ▸ hnil rfl) (not_patternEnds hvisible more)
  | cons first text =>
    have hsame := h₂.rest
    rw [hrest] at hsame
    obtain rfl : ch = first := (List.cons.inj hsame).1
    exact hlead text

theorem value_returns {f : Pattern → α} {a : α} (hc : c.Ready)
    (h : Returns (do
      if !(← ask Cursor.isValueStart) then fail .missingValue []
      skipIndent
      let value ← pattern
      return f value) c a d) :
    ∃ lead text value, c.Takes (lead ++ text) d ∧ IsLead lead text ∧
      SpellsPattern (c.offset + byteLength lead) text value ∧ PatternEnds d.here.rest ∧
      a = f value := by
  dsimp only at h
  have h := h.ask_bind hc.isValueStart
  split at h
  · exact absurd h Returns.not_fail_bind
  · next hvalue => exact skipValue_returns hpattern hc (by simpa using hvalue) h

theorem variantBody_returns {isDefault : Bool} {start : Nat} {star : List Char} {value : Variant}
    (hc : c.Ready) (hstart : c.offset = start + byteLength star)
    (h : Returns (do
      expectChar '['
      skipInlineBlanks
      let key ← variantKey
      skipInlineBlanks
      expectChar ']'
      if !(← ask Cursor.isValueStart) then fail .missingValue []
      skipIndent
      let value ← pattern
      return ⟨key, value, isDefault, ⟨start, value.span.stop⟩⟩) c value d) :
    ∃ text, c.Takes text d ∧ PatternEnds d.here.rest ∧
      ∀ hasDefault, (isDefault → hasDefault = false) → star = (if isDefault then ['*'] else []) →
        SpellsVariant start (star ++ text) hasDefault value := by
  obtain ⟨_, c₁, hopen, h⟩ := h.bind
  have h₁ := expectChar_returns hc (by decide) hopen
  obtain ⟨blanks, keyText, blanks', key, c₂, h₂, hblanks, hkey, hblanks', h⟩ :=
    bracketedKey_returns h₁.ready h
  obtain ⟨lead, text, value, h₃, hlead, hspells, hends, rfl⟩ := value_returns hpattern h₂.ready h
  refine ⟨_, (h₁.trans h₂).trans h₃, hends, fun hasDefault hdefault hstar => ?_⟩
  -- key and value are spelled from the start of the variant on
  have hoffset : c₁.offset + byteLength blanks = start + byteLength (star ++ '[' :: blanks) := by
    rw [h₁.offset_from hstart]
    simp [Text.byteLength_append, Nat.add_assoc]
  rw [hoffset] at hkey
  rw [(h₁.trans h₂).offset_from hstart, Nat.add_assoc, ← Text.byteLength_append] at hspells
  have hmk := SpellsVariant.mk hdefault hstar hblanks hkey hblanks' hlead
    (show SpellsPattern (start + byteLength
      (star ++ '[' :: (blanks ++ (keyText ++ (blanks' ++ ']' :: lead))))) text value by
        simpa using hspells)
  simpa using hmk

theorem variant_returns {hasDefault : Bool} {value : Variant} (hc : c.Ready)
    (h : Returns (variant pattern hasDefault) c value d) :
    ∃ text, c.Takes text d ∧ PatternEnds d.here.rest ∧
      SpellsVariant c.offset text hasDefault value := by
  unfold variant at h
  dsimp only at h
  have h := h.offset_bind.current_bind
  split at h
  · next hstar =>
    split at h
    · exact absurd h Returns.not_fail_bind
    · next hdefault =>
      have h₁ := hc.next_takes_of_current (by decide) hstar
      rw [decide_eq_true hstar] at h
      obtain ⟨text, h₂, hends, hspells⟩ :=
        variantBody_returns hpattern h₁.ready h₁.offset h.modify_bind
      exact ⟨_, h₁.trans h₂, hends, hspells hasDefault (fun _ => by simpa using hdefault) rfl⟩
  · next hstar =>
    rw [decide_eq_false hstar] at h
    obtain ⟨text, h₁, hends, hspells⟩ := variantBody_returns hpattern hc
      (show c.offset = c.offset + byteLength [] from rfl) h
    exact ⟨text, h₁, hends, hspells hasDefault (by simp) rfl⟩

/-- What the rounds over the variants of a choice have read when it ends. -/
def ReadsVariants (state : List Variant × Option Nat) (c : Cursor) (result : List Variant × Nat)
    (d : Cursor) : Prop :=
  ∃ blanks text more, c.Takes (blanks ++ text) d ∧ IsBlanks blanks ∧
    SpellsVariants (c.offset + byteLength blanks) text state.1.length state.2 more result.2 ∧
    PatternEnds d.here.rest ∧ result.1 = state.1.reverse ++ more

/-- A round reads a variant on an indented line. Where no other one follows, one of them has to be
the default. -/
theorem variantRound_returns {state : List Variant × Option Nat}
    {result : Round (List Variant × Option Nat) (List Variant × Nat)} (hc : c.Ready)
    (h : Returns (variantRound pattern state) c result d) :
    ∃ blanks gap text next, c.Takes (blanks ++ (gap ++ text)) d ∧ IsBlanks blanks ∧ IsIndent gap ∧
      SpellsVariant (c.offset + byteLength blanks + byteLength gap) text state.2.isSome next ∧
      PatternEnds d.here.rest ∧
      (result = .again (next :: state.1,
          if next.isDefault then some state.1.length else state.2) ∨
        ∃ index, (if next.isDefault then some state.1.length else state.2) = some index ∧
          result = .done ((next :: state.1).reverse, index)) := by
  obtain ⟨before, default?⟩ := state
  unfold variantRound at h
  dsimp only at h
  obtain ⟨_, c₁, hindent, h⟩ := h.bind
  obtain ⟨blanks, gap, h₁, hblanks, hgap⟩ := expectIndent_returns hc hindent
  obtain ⟨next, c₂, hvariant, h⟩ := h.bind
  obtain ⟨text, h₂, hends, hspells⟩ := variant_returns hpattern h₁.ready hvariant
  rw [h₁.offset, Text.byteLength_append, ← Nat.add_assoc] at hspells
  have htakes : c.Takes (blanks ++ (gap ++ text)) c₂ := by simpa using h₁.trans h₂
  have h := h.ask_bind h₂.ready.isNextLineVariant
  split at h
  · obtain ⟨rfl, rfl⟩ := Returns.pure_iff.1 h
    exact ⟨blanks, gap, text, next, htakes, hblanks, hgap, hspells, hends, .inl rfl⟩
  · split at h
    · next index hindex =>
      obtain ⟨rfl, rfl⟩ := Returns.pure_iff.1 h
      exact ⟨blanks, gap, text, next, htakes, hblanks, hgap, hspells, hends,
        .inr ⟨index, hindex, rfl⟩⟩
    · exact absurd h Returns.not_fail

theorem variantRound_again {state state' : List Variant × Option Nat} (hc : c.Ready)
    (h : Returns (variantRound pattern state) c (.again state') d) :
    d.Ready ∧ ∀ result e, ReadsVariants state' d result e → ReadsVariants state c result e := by
  obtain ⟨blanks, gap, text, next, h₁, hblanks, hgap, hspells, hends, hround | ⟨_, -, hround⟩⟩ :=
    variantRound_returns hpattern hc h
  · obtain rfl := Round.again.inj hround
    refine ⟨h₁.ready, fun result e hreads => ?_⟩
    obtain ⟨blanks', text', more, h₂, hblanks', hmore, hends', hresult⟩ := hreads
    -- a pattern takes the blanks behind it, so the next variant starts with its line break
    obtain rfl : blanks' = [] := by
      rw [h₂.rest, List.append_assoc] at hends
      exact hends.blanks_eq_nil hblanks'
    have hoffset : d.offset + byteLength [] =
        c.offset + byteLength blanks + byteLength (gap ++ text) := by
      rw [h₁.offset, Text.byteLength_append, Text.byteLength_append]
      simp [Nat.add_assoc]
    rw [hoffset] at hmore
    refine ⟨blanks, gap ++ (text ++ text'), next :: more, by simpa using h₁.trans h₂, hblanks,
      .more hgap hspells hmore, hends', by simpa using hresult⟩
  · cases hround

theorem variantRound_done {state : List Variant × Option Nat} {result : List Variant × Nat}
    (hc : c.Ready) (h : Returns (variantRound pattern state) c (.done result) d) :
    ReadsVariants state c result d := by
  obtain ⟨blanks, gap, text, next, h₁, hblanks, hgap, hspells, hends,
    hround | ⟨index, hindex, hround⟩⟩ := variantRound_returns hpattern hc h
  · cases hround
  · obtain rfl := Round.done.inj hround
    exact ⟨blanks, gap ++ text, [next], h₁, hblanks, .last hgap hspells hindex, hends, by simp⟩

/-- The variants of a choice and the gap behind them. -/
theorem choice_returns {selector : Option Expression} {start : Nat} {expression : Expression}
    (hc : c.Ready) (h : Returns (choice pattern selector start) c expression d)
    (hclose : d.here.rest.head? = some '}') :
    ∃ blanks text variants defaultIndex gap, c.Takes (blanks ++ (text ++ gap)) d ∧
      IsBlanks blanks ∧
      SpellsVariants (c.offset + byteLength blanks) text 0 none variants defaultIndex ∧
      IsGap gap ∧ StartsBreak gap ∧
      expression = .select selector variants defaultIndex ⟨start, d.offset⟩ := by
  unfold choice at h
  obtain ⟨⟨variants, defaultIndex⟩, c₁, hvariants, h⟩ := h.bind
  obtain ⟨blanks, text, more, h₁, hblanks, hspells, hends, hresult⟩ :=
    rounds_returns (Q := ReadsVariants)
      (fun _ _ _ _ hready hround => variantRound_again hpattern hready hround)
      (fun _ _ _ _ hready hround => variantRound_done hpattern hready hround) hc hvariants
  obtain ⟨rfl, rfl⟩ := Returns.pure_iff.1 h.skipIndent_bind.spanFrom_bind
  obtain rfl : variants = more := hresult
  obtain ⟨gap, tail, hgap, htail, hrest⟩ := Text.exists_gap c₁.here.rest
  have h₂ := h₁.ready.skipIndent_takes hgap htail hrest
  refine ⟨blanks, text, variants, defaultIndex, gap, by simpa using h₁.trans h₂, hblanks, hspells,
    hgap, ?_, rfl⟩
  rw [h₂.rest_eq hrest] at hclose
  rw [hrest] at hends
  cases gap with
  | nil =>
    obtain ⟨more, rfl⟩ := List.head?_eq_some_iff.1 hclose
    exact absurd hends (not_patternEnds (by decide) more)
  | cons first gap => exact Text.startsBreak_cons.2 (hends.head? first rfl)

/-! ### Placeables -/

/-- The choice behind an arrow. -/
theorem arrowChoice_returns {selector expression : Expression} {tail : List Char} (hc : c.Ready)
    (hrest : c.here.rest = '-' :: '>' :: tail)
    (h : Returns (do
      skipInlineBlanks
      if !(← ask Cursor.isNextLineVariant) then fail .missingVariants []
      choice pattern (some selector) selector.span.start) c.next.next expression d)
    (hclose : d.here.rest.head? = some '}') :
    ∃ blanks text variants defaultIndex gap,
      c.Takes ('-' :: '>' :: (blanks ++ (text ++ gap))) d ∧ IsBlanks blanks ∧
      SpellsVariants (c.offset + byteLength ('-' :: '>' :: blanks)) text 0 none variants
        defaultIndex ∧
      IsGap gap ∧ StartsBreak gap ∧
      expression = .select (some selector) variants defaultIndex
        ⟨selector.span.start, d.offset⟩ := by
  have h₁ := hc.next_takes (by decide) hrest
  have h₂ := h₁.ready.next_takes (by decide) (h₁.rest_eq hrest)
  obtain ⟨blanks, hblanks, h₃⟩ := h₂.ready.takes_blanks
  have h := h.skipInlineBlanks_bind.ask_bind h₃.ready.isNextLineVariant
  split at h
  · exact absurd h Returns.not_fail_bind
  · obtain ⟨blanks', text, variants, defaultIndex, gap, h₄, hblanks', hspells, hgap, hbreak, rfl⟩ :=
      choice_returns hpattern h₃.ready h hclose
    have hall := h₁.trans (h₂.trans (h₃.trans h₄))
    refine ⟨blanks ++ blanks', text, variants, defaultIndex, gap, by simpa using hall,
      Text.isBlanks_append.2 ⟨hblanks, hblanks'⟩, ?_, hgap, hbreak, rfl⟩
    have hoffset := (h₁.trans (h₂.trans h₃)).offset
    rw [hoffset, Nat.add_assoc, ← Text.byteLength_append] at hspells
    simpa using hspells

theorem placeableExpression_returns {expression : Expression} (hc : c.Ready)
    (h : Returns (placeableExpression pattern) c expression d)
    (hclose : d.here.rest.head? = some '}') :
    ∃ text, c.Takes text d ∧ SpellsPlaceable c.offset text expression := by
  unfold placeableExpression at h
  dsimp only at h
  have h := h.offset_bind.ask_bind hc.isNextLineVariant
  split at h
  · obtain ⟨blanks, text, variants, defaultIndex, gap, htakes, hblanks, hspells, hgap,
      hbreak, rfl⟩ :=
      choice_returns hpattern hc h hclose
    refine ⟨_, htakes, ?_⟩
    rw [htakes.span_eq]
    exact .bare hblanks hspells hgap hbreak
  · obtain ⟨blanks, hblanks, h₁⟩ := hc.takes_blanks
    obtain ⟨selector, c₂, hselector, h⟩ := h.skipInlineBlanks_bind.bind
    obtain ⟨text, h₂, hspells⟩ := selectorExpression_returns h₁.ready hselector
    obtain ⟨blanks', hblanks', h₃⟩ := h₂.ready.takes_blanks
    rw [h₁.offset] at hspells
    -- an arrow behind the selector makes it a choice
    rcases h.skipInlineBlanks_bind.isArrow_bind h₃.ready with
      ⟨tail, hrest, hnext, h⟩ | ⟨p, hreset, h⟩
    · rw [if_pos rfl] at h
      cases herror : selectorError? selector with
      | some code =>
        rw [herror] at h
        exact absurd h Returns.not_fail_bind
      | none =>
        rw [herror] at h
        have h := h.modify_bind
        rw [hnext] at h
        obtain ⟨blanks₄, variantsText, variants, defaultIndex, gap, h₄, hblanks₄, hvariants, hgap,
          hbreak, rfl⟩ := arrowChoice_returns hpattern h₃.ready hrest h hclose
        have hhead := h₁.trans (h₂.trans h₃)
        -- what follows the selector lies inside the placeable
        have hnext : c₂.here.rest.head? = (blanks' ++ ['-']).head? := by
          rw [h₃.rest, hrest]
          exact head?_append_of_head? rfl
        rw [hnext] at hspells
        rw [hhead.offset, Nat.add_assoc, ← Text.byteLength_append] at hvariants
        simp only [List.append_assoc] at hvariants
        refine ⟨_, hhead.trans h₄, ?_⟩
        have hchoice := SpellsPlaceable.choice hblanks hspells hblanks' herror hblanks₄ hvariants
          hgap hbreak
        rw [(hhead.trans h₄).offset]
        simpa using hchoice
    · rw [if_neg (by decide)] at h
      have h := h.modify_bind
      rw [hreset] at h
      split at h
      · exact absurd h Returns.not_fail_bind
      · next hplaced =>
        obtain ⟨rfl, rfl⟩ := Returns.pure_iff.1 h
        refine ⟨_, h₁.trans (h₂.trans h₃), .selector hblanks ?_ hblanks' (by simpa using hplaced)⟩
        have hnext : c₂.here.rest.head? = (blanks' ++ ['}']).head? := by
          rw [h₃.rest]
          exact head?_append_of_head? hclose
        rwa [hnext] at hspells

theorem placeable_returns {element : PatternElement} (hc : c.Ready)
    (h : Returns (placeable (placeableExpression pattern)) c element d) :
    ∃ inner expression, c.Takes ('{' :: (inner ++ ['}'])) d ∧
      SpellsPlaceable (c.offset + 1) inner expression ∧
      element = .placeable expression (spanOf c.offset ('{' :: (inner ++ ['}']))) := by
  unfold placeable at h
  obtain ⟨_, c₁, hopen, h⟩ := h.offset_bind.bind
  have h₁ := expectChar_returns hc (by decide) hopen
  obtain ⟨expression, c₂, hexpression, h⟩ := h.bind
  obtain ⟨_, c₃, hclose, h⟩ := h.bind
  obtain ⟨rfl, rfl⟩ := Returns.pure_iff.1 h.spanFrom_bind
  have hhead := (Cursor.current_eq_head? (by decide)).1 (expectChar_current hclose)
  obtain ⟨inner, h₂, hspells⟩ :=
    placeableExpression_returns hpattern h₁.ready hexpression hhead
  have h₃ := expectChar_returns h₂.ready (by decide) hclose
  have hall := h₁.trans (h₂.trans h₃)
  refine ⟨inner, expression, hall, h₁.offset ▸ hspells, ?_⟩
  rw [hall.span_eq]
  rfl

/-! ### Patterns -/

/-- What the rounds over the elements of a pattern have read when it ends. -/
def ReadsElements (before : List PatternElement) (c : Cursor) (elements : List PatternElement)
    (d : Cursor) : Prop :=
  ∃ text more, c.Takes text d ∧ SpellsElements c.offset text more ∧
    elements = more.reverse ++ before ∧ PatternEnds d.here.rest ∧
    (text = [] ↔ PatternEnds c.here.rest)

omit hpattern in
theorem current_not_patternEnds {ch : Char} (hcurrent : c.current = some ch)
    (hpattern : ch = '\n' → Text.startsPattern c.here.rest) : ¬PatternEnds c.here.rest := by
  rintro (hnil | ⟨hbreak, hends⟩)
  · rw [Cursor.current_eq_none_iff.2 hnil] at hcurrent
    cases hcurrent
  · have hnewline := Cursor.current_eq_newline_iff.2 (Text.startsBreak_iff_isSome.1 hbreak)
    rw [hpattern (Option.some.inj (hcurrent.symm.trans hnewline))] at hends
    cases hends

omit hpattern in
/-- An empty text would end in front of a brace, where no text is read. -/
theorem ne_nil_of_spellsText {raw value : List Char} {next : Option Char} {ch : Char}
    (h : SpellsText raw value next) (hhead : raw.head?.or next = c.here.rest.head?)
    (hcurrent : c.current = some ch) (hbrace : ch ≠ '{') : raw ≠ [] := by
  rintro rfl
  cases hrest : c.here.rest with
  | nil =>
    rw [Cursor.current_eq_none_iff.2 hrest] at hcurrent
    cases hcurrent
  | cons first rest =>
    rw [hrest] at hhead
    obtain rfl := h.next_eq first hhead
    have hbrace' := Cursor.current_of_cons (by decide) hrest
    exact hbrace (Option.some.inj (hcurrent.symm.trans hbrace'))

theorem elementRound_again {before before' : List PatternElement} {ch : Char} (hc : c.Ready)
    (hcurrent : c.current = some ch) (hgoes : ¬PatternEnds c.here.rest)
    (h : Returns (if ch = '{' then do
        return .again ((← placeable (placeableExpression pattern)) :: before)
      else do
        return .again ((← textElement) :: before) :
        Parser (Round (List PatternElement) (List PatternElement))) c (.again before') d) :
    d.Ready ∧ ∀ elements e, ReadsElements before' d elements e →
      ReadsElements before c elements e := by
  split at h
  · obtain ⟨element, c₁, hplaceable, h⟩ := h.bind
    obtain ⟨inner, expression, h₁, hspells, rfl⟩ := placeable_returns hpattern hc hplaceable
    obtain ⟨hround, rfl⟩ := Returns.pure_iff.1 h
    obtain rfl := Round.again.inj hround
    refine ⟨h₁.ready, ?_⟩
    rintro elements e ⟨text, more, h₂, hmore, rfl, hends, -⟩
    rw [h₁.offset] at hmore
    refine ⟨'{' :: (inner ++ '}' :: text), _ :: more, by simpa using h₁.trans h₂,
      .placeable hspells hmore, by simp, hends, by simp [hgoes]⟩
  · next hbrace =>
    obtain ⟨element, c₁, htext, h⟩ := h.bind
    obtain ⟨raw, value, next, h₁, hspells, hnext, hhead, rfl⟩ := textElement_returns hc htext
    obtain ⟨hround, rfl⟩ := Returns.pure_iff.1 h
    obtain rfl := Round.again.inj hround
    refine ⟨h₁.ready, ?_⟩
    rintro elements e ⟨text, more, h₂, hmore, rfl, hends, hnil⟩
    have hne := ne_nil_of_spellsText hspells (hhead.resolve_left hgoes) hcurrent hbrace
    -- what ends the text is what the other elements start with, or nothing if the pattern ends
    obtain rfl : next = text.head? := by
      rcases hnext with ⟨hfirst, rfl⟩ | ⟨hends₁, rfl⟩
      · cases text with
        | nil =>
          obtain ⟨rest, hrest⟩ := List.head?_eq_some_iff.1 hfirst
          exact absurd (hrest ▸ hnil.1 rfl) (not_patternEnds (by decide) rest)
        | cons first text =>
          rw [h₂.rest] at hfirst
          exact hfirst.symm
      · rw [hnil.2 hends₁]
        rfl
    rw [h₁.offset] at hmore
    refine ⟨raw ++ text, _ :: more, h₁.trans h₂, .text hne hspells hmore, by simp, hends, ?_⟩
    simp [hne, hgoes]

theorem patternRound_again {before before' : List PatternElement} (hc : c.Ready)
    (h : Returns (patternRound (placeableExpression pattern) before) c (.again before') d) :
    d.Ready ∧ ∀ elements e, ReadsElements before' d elements e →
      ReadsElements before c elements e := by
  unfold patternRound at h
  dsimp only at h
  have h := h.current_bind
  split at h
  · cases (Returns.pure_iff.1 h).1
  · next ch hcurrent =>
    split at h
    · have h := h.ask_bind hc.isNextLinePattern
      split at h
      · cases (Returns.pure_iff.1 h).1
      · next hgoes =>
        refine elementRound_again hpattern hc hcurrent ?_ h
        exact current_not_patternEnds hcurrent fun _ => by simpa using hgoes
    · next hne =>
      refine elementRound_again hpattern hc hcurrent ?_ h.pure_bind
      exact current_not_patternEnds hcurrent fun heq => absurd heq hne

omit hpattern in
theorem patternRound_done {before elements : List PatternElement} (hc : c.Ready)
    (h : Returns (patternRound (placeableExpression pattern) before) c (.done elements) d) :
    ReadsElements before c elements d := by
  have hstop : ∀ {e : Cursor}, PatternEnds c.here.rest →
      Returns (pure (.done before) : Parser (Round (List PatternElement) _)) c (.done elements) e →
      ReadsElements before c elements e := by
    intro e hends hdone
    obtain ⟨hround, rfl⟩ := Returns.pure_iff.1 hdone
    obtain rfl := Round.done.inj hround
    exact ⟨[], [], .refl hc, .nil, by simp, hends, by simp [hends]⟩
  -- a round that reads an element does not stop
  have hagain : ∀ element : Parser PatternElement,
      ¬Returns (element >>= fun e => pure (Round.again (e :: before))) c
        (Round.done elements) d := by
    intro element h
    obtain ⟨_, _, -, h⟩ := h.bind
    cases (Returns.pure_iff.1 h).1
  unfold patternRound at h
  dsimp only at h
  have h := h.current_bind
  split at h
  · next hnone => exact hstop (.inl (Cursor.current_eq_none_iff.1 hnone)) h
  · next ch hcurrent =>
    split at h
    · next hnewline =>
      have h := h.ask_bind hc.isNextLinePattern
      split at h
      · next hends =>
        rw [hnewline] at hcurrent
        have hbreak := Text.startsBreak_iff_isSome.2 (Cursor.current_eq_newline_iff.1 hcurrent)
        exact hstop (.inr ⟨hbreak, by simpa using hends⟩) h
      · split at h
        · exact absurd h (hagain _)
        · exact absurd h (hagain _)
    · have h := h.pure_bind
      rw [if_neg (by decide)] at h
      split at h
      · exact absurd h (hagain _)
      · exact absurd h (hagain _)

theorem patternBody_returns (c : Cursor) (value : Localization.Pattern) (d : Cursor)
    (h : Returns (patternBody (placeableExpression pattern)) c value d) :
    ReadsPattern c value d := by
  intro hc
  unfold patternBody at h
  obtain ⟨elements, c₁, hrounds, h⟩ := h.offset_bind.bind
  obtain ⟨text, more, h₁, hspells, helements, hends, hnil⟩ := rounds_returns (Q := ReadsElements)
    (fun _ _ _ _ hready hround => patternRound_again hpattern hready hround)
    (fun _ _ _ _ hready hround => patternRound_done hready hround) hc hrounds
  obtain rfl : elements = more.reverse := by simpa using helements
  obtain ⟨rfl, rfl⟩ := Returns.pure_iff.1 h
  exact ⟨text, h₁, .mk hspells, hends, hnil.1⟩

end Pattern

/-- What is read as a pattern is spelled as one, and no pattern goes on behind it. -/
theorem pattern_returns (c : Cursor) (value : Pattern) (d : Cursor)
    (h : Returns pattern c value d) : ReadsPattern c value d :=
  nested_returns (fun _ hself c value d hbody => patternBody_returns hself c value d hbody) h

end Localization.Parser
