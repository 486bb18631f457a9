import Localization.Proofs.Resource.Advance

/-!
# Every nesting advances

Patterns, placeables, selectors and arguments hold one another, and each of them starts behind the
start of the one around it. A parser that would raise an alarm otherwise never does.

## Main definitions

* `Parser.SameFrom` — parsers that run alike from an offset on
* `Parser.behind` — a parser that raises an alarm unless it starts behind a cursor
* `Cursor.Advances` — what every turn and every nesting from a cursor does

## Main statements

* `Parser.pattern_nesting`, `Parser.placeableExpression_nesting`,
  `Parser.selectorExpression_nesting` — what is held starts behind what holds it
* `Resource.parsing_advances` — every turn of a loop and every nesting advances
-/

namespace Localization

namespace Parser

variable {σ α β : Type} {c c₀ d : Cursor} {start : Nat}

/-! ### Parsers that run alike -/

/-- From an offset on, parsers that run alike behind a cursor. -/
def SameFrom (c₀ : Cursor) (start : Nat) (p q : Parser α) : Prop :=
  ∀ c : Cursor, c₀.To c → c.Ready → start ≤ c.offset → p c = q c

namespace SameFrom

variable {p q : Parser α} {f g : α → Parser β}

theorem refl (p : Parser α) : SameFrom c₀ start p p := fun _ _ _ _ => rfl

/-- What would run behind a failure does not matter. -/
theorem fail_bind {code : ErrorCode} {args : List String} :
    SameFrom c₀ start (fail code args >>= f) (fail code args >>= g) := fun _ _ _ _ => rfl

/-- Running alike is passed on from parser to parser. -/
theorem trans {r : Parser α} (h : SameFrom c₀ start p q) (h' : SameFrom c₀ start q r) :
    SameFrom c₀ start p r :=
  fun c hmove hc hstart => (h c hmove hc hstart).trans (h' c hmove hc hstart)

/-- Parsers that run alike from a cursor on run alike there. -/
theorem eq (h : SameFrom c c.offset p q) (hc : c.Ready) : p c = q c :=
  h c .refl hc (Nat.le_refl _)

theorem mono {start' : Nat} (h : SameFrom c₀ start p q) (hle : start ≤ start') :
    SameFrom c₀ start' p q :=
  fun c hmove hc hstart => h c hmove hc (Nat.le_trans hle hstart)

/-- Sequences run alike if their parts do. -/
theorem bind [Steady p] (h : SameFrom c₀ start p q) (hf : ∀ a, SameFrom c₀ start (f a) (g a)) :
    SameFrom c₀ start (p >>= f) (q >>= g) := by
  intro c hmove hc hstart
  have hpq := h c hmove hc hstart
  cases hp : p c with
  | ok a d =>
    rw [bind_ok hp, bind_ok (hpq.symm.trans hp)]
    have hto : c.To d := Forward.to_ok hp
    exact hf a d (hmove.trans hto) (Steady.ready_of_ok hc hp) (Nat.le_trans hstart hto.offset_le)
  | error e d => rw [bind_error hp, bind_error (hpq.symm.trans hp)]

/-- What runs behind the same parser. -/
theorem bind_right [Steady p] (hf : ∀ a, SameFrom c₀ start (f a) (g a)) :
    SameFrom c₀ start (p >>= f) (p >>= g) := (refl p).bind hf

/-- Behind a parser that commits text the offset is greater. -/
theorem bind_of_offset_lt [Steady p] (hp : ∀ c a d, Returns p c a d → c.offset < d.offset)
    (hf : ∀ a, SameFrom c₀ (start + 1) (f a) (g a)) :
    SameFrom c₀ start (p >>= f) (p >>= g) := by
  intro c hmove hc hstart
  cases hrun : p c with
  | ok a d =>
    rw [bind_ok hrun, bind_ok hrun]
    exact hf a d (hmove.trans (Forward.to_ok hrun)) (Steady.ready_of_ok hc hrun)
      (Nat.lt_of_le_of_lt hstart (hp c a d hrun))
  | error e d => rw [bind_error hrun, bind_error hrun]

/-- A character that has been looked at is committed. -/
theorem next_bind {f g : PUnit → Parser α} {ch : Char} (hcurrent : c.current = some ch)
    (hmove : c₀.To c) (hc : c.Ready) (hstart : start ≤ c.offset)
    (hfg : SameFrom c₀ (start + 1) (f ()) (g ())) :
    (modify Cursor.next >>= f) c = (modify Cursor.next >>= g) c := by
  rw [modify_bind, modify_bind]
  exact hfg c.next (hmove.trans c.to_next) hc.next
    (Nat.lt_of_le_of_lt hstart (Cursor.offset_lt_next hcurrent))

theorem ite {prop : Prop} [Decidable prop] {p' q' : Parser α} (h : SameFrom c₀ start p q)
    (h' : SameFrom c₀ start p' q') :
    SameFrom c₀ start (if prop then p else p') (if prop then q else q') := by
  split
  · exact h
  · exact h'

/-- Loops run alike if their rounds do. -/
theorem rounds {round round' : σ → Parser (Round σ α)} [∀ s, Steady (round s)]
    (h : ∀ s, SameFrom c₀ start (round s) (round' s)) (s : σ) :
    SameFrom c₀ start (Parser.rounds round s) (Parser.rounds round' s) := by
  intro c hmove hc hstart
  -- along the rounds of the first run, each of which the second one makes as well
  fun_induction Parser.rounds round s c with
  | case1 s c s' d hround hlt ih =>
    have hto : c.To d := Forward.to_ok hround
    rw [rounds_again ((h s c hmove hc hstart).symm.trans hround) hlt]
    exact ih (hmove.trans hto) (Steady.ready_of_ok hc hround)
      (Nat.le_trans hstart hto.offset_le)
  | case2 s c s' d hround hge =>
    rw [rounds_stalled ((h s c hmove hc hstart).symm.trans hround) hge]
  | case3 s c a d hround =>
    rw [rounds_done ((h s c hmove hc hstart).symm.trans hround)]
  | case4 s c e d hround =>
    rw [rounds_error ((h s c hmove hc hstart).symm.trans hround)]

end SameFrom

/-- The parser that a nested parser hands to its body only looks at how much remains. -/
instance {p : Parser α} [Steady p] (limit : Nat) : Steady (inner p limit) :=
  Steady.of_keeps fun c => by
    unfold inner
    split
    · exact Steady.keeps p c
    · exact Steady.keeps stalled c

/-- Behind the start of a nested parser its guard does not matter. -/
theorem sameFrom_inner (p : Parser α) (hc : c.Ready) :
    SameFrom c (c.offset + 1) (inner p c.remaining) p := by
  intro d hmove _ hlt
  unfold inner
  rw [if_pos (hmove.remaining_lt hc hlt)]

/-! ### Selectors and arguments -/

section Selector

variable {selector selector' : Parser Expression} [Steady selector]
  {argument argument' : Parser CallArgument} [Steady argument]

/-- Arguments are read alike where selectors are. -/
theorem callArgument_same (h : SameFrom c₀ start selector selector') :
    SameFrom c₀ start (callArgument selector) (callArgument selector') :=
  h.bind fun _ => .refl _

theorem callArgumentRound_same (h : SameFrom c₀ start argument argument')
    (before : List CallArgument) :
    SameFrom c₀ start (callArgumentRound argument before) (callArgumentRound argument' before) := by
  apply SameFrom.bind_right
  intro ch?
  exact .ite (.refl _) (h.bind fun _ => .refl _)

theorem callArguments_same (h : SameFrom c₀ start argument argument') :
    SameFrom c₀ start (callArguments argument) (callArguments argument') := by
  apply SameFrom.bind_right
  intro _
  exact .rounds (callArgumentRound_same h) []

/-- Arguments stand behind the parenthesis that opens them. -/
theorem referenceTail_same (h : SameFrom c₀ (start + 1) argument argument') (id : Identifier) :
    SameFrom c₀ start (referenceTail argument id) (referenceTail argument' id) := by
  intro c hmove hc hstart
  unfold referenceTail
  dsimp only
  rw [current_bind, current_bind]
  -- only the arguments of a call make a difference
  by_cases hparen : c.current = some '('
  · simp only [hparen]
    split
    · rfl
    · apply SameFrom.next_bind hparen hmove hc hstart
      exact (callArguments_same h).bind fun _ => .refl _
  · refine congrFun ?_ c
    split
    · rfl
    · rfl
    · next hparen' => exact absurd hparen' hparen
    · rfl

/-- A selector takes at least a character before it comes to its arguments. -/
theorem selectorBody_same (h : SameFrom c₀ (start + 1) argument argument') :
    SameFrom c₀ start (selectorBody argument) (selectorBody argument') := by
  apply SameFrom.bind_right
  intro expression
  cases expression with
  | messageReference id => exact referenceTail_same h id
  | _ => exact .refl _

end Selector

/-! ### Placeables and patterns -/

section Pattern

variable {pattern pattern' : Parser Pattern} [Steady pattern]

/-- What stands behind a key in brackets. -/
theorem bracketed_same {f g : VariantKey → Parser α}
    (h : ∀ key, SameFrom c₀ (start + 1) (f key) (g key)) :
    SameFrom c₀ start
      (do
        expectChar '['
        skipInlineBlanks
        let key ← variantKey
        skipInlineBlanks
        expectChar ']'
        f key)
      (do
        expectChar '['
        skipInlineBlanks
        let key ← variantKey
        skipInlineBlanks
        expectChar ']'
        g key) := by
  apply SameFrom.bind_of_offset_lt fun _ _ _ hopen => expectChar_offset_lt hopen
  intro _
  exact .bind_right fun _ => .bind_right fun key => .bind_right fun _ => .bind_right fun _ => h key

/-- A variant takes at least its key before it comes to its pattern. -/
theorem variant_same (h : SameFrom c₀ (start + 1) pattern pattern') (hasDefault : Bool) :
    SameFrom c₀ start (variant pattern hasDefault) (variant pattern' hasDefault) := by
  unfold variant
  dsimp only
  apply SameFrom.bind_right
  intro offset
  apply SameFrom.bind_right
  intro ch?
  -- the two ways to the key: behind the star of a default, and without one
  refine .ite (.ite .fail_bind (.bind_right fun _ => bracketed_same fun key => ?_))
    (bracketed_same fun key => ?_)
  all_goals
    exact .bind_right fun _ => .ite .fail_bind (.bind_right fun _ => h.bind fun _ => .refl _)

theorem variants_same (h : SameFrom c₀ (start + 1) pattern pattern') :
    SameFrom c₀ start (variants pattern) (variants pattern') := by
  refine .rounds (fun state => ?_) ([], none)
  refine .bind_right fun _ => (variant_same h _).bind fun next => .bind_right fun more => ?_
  exact .refl _

theorem choice_same (h : SameFrom c₀ (start + 1) pattern pattern') (selector : Option Expression)
    (spanStart : Nat) :
    SameFrom c₀ start (choice pattern selector spanStart) (choice pattern' selector spanStart) :=
  (variants_same h).bind fun _ => .refl _

/-- Looking for an arrow leaves the peek position behind its minus sign, so what follows an arrow
does not start with no lookahead pending. -/
theorem isArrow_same {f g : Bool → Parser α} (hfalse : f false = g false)
    (htrue : ∀ c : Cursor, c₀.To c → c.Ready → start ≤ c.offset → c.current = some '-' →
      f true c.peek = g true c.peek) :
    SameFrom c₀ start (ask Cursor.isArrow >>= f) (ask Cursor.isArrow >>= g) := by
  intro c hmove hc hstart
  rw [bind_ok (isArrow_run hc), bind_ok (isArrow_run hc)]
  cases harrow : Text.startsArrow c.here.rest with
  | false => rw [hfalse]
  | true =>
    obtain ⟨rest, hrest⟩ := Text.startsArrow_iff.1 harrow
    have hminus := Cursor.current_of_cons (by decide) hrest
    rw [if_pos hminus]
    exact htrue c hmove hc hstart hminus

/-- Patterns stand behind the start of the expression that they are variants of. -/
theorem placeableExpression_same (h : SameFrom c₀ (start + 1) pattern pattern') :
    SameFrom c₀ start (placeableExpression pattern) (placeableExpression pattern') := by
  unfold placeableExpression
  dsimp only
  refine .bind_right fun offset => .bind_right fun more => .ite (choice_same h none offset) ?_
  refine .bind_right fun _ => .bind_right fun selector => .bind_right fun _ => ?_
  refine isArrow_same (by simp only [Bool.false_eq_true, if_false]) ?_
  intro c hmove hc hstart hminus
  simp only [if_true]
  cases selectorError? selector with
  | some code => simp only [fail_bind_run]
  | none =>
    have hvariants : SameFrom c₀ start
        (do
          skipInlineBlanks
          if !(← ask Cursor.isNextLineVariant) then fail .missingVariants []
          choice pattern (some selector) selector.span.start)
        (do
          skipInlineBlanks
          if !(← ask Cursor.isNextLineVariant) then fail .missingVariants []
          choice pattern' (some selector) selector.span.start) :=
      .bind_right fun _ => .bind_right fun more =>
        .ite .fail_bind (choice_same h (some selector) selector.span.start)
    -- the arrow moves on from `c`, so what is known behind `c` holds behind the arrow
    have hto : c.To c.next.next := c.to_next.trans (Cursor.to_next _)
    dsimp only
    rw [modify_bind, modify_bind, peek_next hminus]
    exact hvariants c.next.next (hmove.trans hto) hc.next.next
      (Nat.le_trans hstart hto.offset_le)

end Pattern

section Expression

variable {expression expression' : Parser Expression} [Steady expression]

/-- What a placeable holds stands behind its opening brace. -/
theorem placeable_same (h : SameFrom c₀ (start + 1) expression expression') :
    SameFrom c₀ start (placeable expression) (placeable expression') := by
  apply SameFrom.bind_right
  intro offset
  apply SameFrom.bind_of_offset_lt fun _ _ _ hopen => expectChar_offset_lt hopen
  intro _
  exact h.bind fun _ => .refl _

/-- A round of a pattern takes at least a brace before it comes to a placeable. -/
theorem patternRound_same (h : SameFrom c₀ (start + 1) expression expression')
    (before : List PatternElement) :
    SameFrom c₀ start (patternRound expression before) (patternRound expression' before) := by
  apply SameFrom.bind_right
  intro ch?
  cases ch? with
  | none => exact .refl _
  | some ch =>
    have hplaceable : SameFrom c₀ start
        (placeable expression >>= fun element => pure (.again (element :: before)))
        (placeable expression' >>= fun element => pure (.again (element :: before)) :
          Parser (Round (List PatternElement) (List PatternElement))) :=
      (placeable_same h).bind fun _ => .refl _
    dsimp only
    refine .ite (.bind_right fun goesOn => ?_) (.bind_right fun goesOn => ?_)
    · exact .ite (.refl _) (.ite hplaceable (.refl _))
    · exact .ite (.refl _) (.ite hplaceable (.refl _))

theorem patternBody_same (h : SameFrom c₀ (start + 1) expression expression') :
    SameFrom c₀ start (patternBody expression) (patternBody expression') := by
  apply SameFrom.bind_right
  intro offset
  exact (SameFrom.rounds (patternRound_same h) []).bind fun _ => .refl _

end Expression

/-! ### Alarms -/

instance : Decidable c.Ready :=
  decidable_of_iff (c.ahead = c.here ∧ c.size = c.here.offset + Text.byteLength c.here.rest)
    ⟨fun h => ⟨h.1, h.2⟩, fun h => ⟨h.ahead_eq, h.size_eq⟩⟩

/-- A parser that raises an alarm unless it starts behind a cursor, with no lookahead pending. -/
def behind (c₀ : Cursor) (p alarm : Parser α) : Parser α := fun c =>
  if c₀.offset < c.offset ∧ c.Ready then p c else alarm c

/-- A parser is not told from one that raises an alarm where no progress was made, as long as
progress is made. -/
theorem sameFrom_behind (c₀ : Cursor) (p alarm : Parser α) :
    SameFrom c₀ (c₀.offset + 1) p (behind c₀ p alarm) := by
  intro c _ hc hlt
  exact (if_pos ⟨hlt, hc⟩).symm

/-- The guard of patterns never fails. -/
theorem pattern_same :
    SameFrom c₀ start pattern (patternBody (placeableExpression pattern)) := by
  intro c _ hc _
  -- behind the start less text remains, which is all that the guard asks for
  have hinner := (sameFrom_inner pattern hc).mono (Nat.le_succ _)
  exact (nested_run _ c).trans ((patternBody_same (placeableExpression_same hinner)).eq hc)

/-- The guard of selectors never fails. -/
theorem selectorExpression_same :
    SameFrom c₀ start selectorExpression (selectorBody (callArgument selectorExpression)) := by
  intro c _ hc _
  have hinner := sameFrom_inner selectorExpression hc
  exact (nested_run _ c).trans ((selectorBody_same (callArgument_same hinner)).eq hc)

/-- What the placeables of a pattern hold starts behind the start of the pattern. -/
theorem pattern_nesting (hc : c.Ready) (alarm : Parser Expression) :
    pattern c = patternBody (behind c (placeableExpression pattern) alarm) c :=
  (pattern_same.trans (patternBody_same (sameFrom_behind c _ alarm))).eq hc

/-- The variants of an expression have their patterns behind the start of the expression. -/
theorem placeableExpression_nesting (hc : c.Ready) (alarm : Parser Pattern) :
    placeableExpression pattern c = placeableExpression (behind c pattern alarm) c :=
  (placeableExpression_same (sameFrom_behind c pattern alarm)).eq hc

/-- The arguments of a call start behind the start of the call. -/
theorem selectorExpression_nesting (hc : c.Ready) (alarm : Parser CallArgument) :
    selectorExpression c = selectorBody (behind c (callArgument selectorExpression) alarm) c :=
  (selectorExpression_same.trans (selectorBody_same (sameFrom_behind c _ alarm))).eq hc

/-- Expressions in the arguments of a call start behind the start of the call. -/
theorem selectorExpression_selector_nesting (hc : c.Ready) (alarm : Parser Expression) :
    selectorExpression c =
      selectorBody (callArgument (behind c selectorExpression alarm)) c := by
  have hargument := callArgument_same (sameFrom_behind c selectorExpression alarm)
  exact (selectorExpression_same.trans (selectorBody_same hargument)).eq hc

/-- The arguments of a call in an argument start behind the start of that argument. -/
theorem callArgument_nesting (hc : c.Ready) (alarm : Parser CallArgument) :
    callArgument selectorExpression c =
      callArgument (selectorBody (behind c (callArgument selectorExpression) alarm)) c := by
  have hselector := selectorBody_same (sameFrom_behind c (callArgument selectorExpression) alarm)
  exact (callArgument_same (selectorExpression_same.trans hselector)).eq hc

end Parser

/-! ### All loops and nestings -/

open Localization.Parser

variable {c : Cursor}

/-- What a cursor with no lookahead pending has on every way on: turns and nestings advance, and
so the loops and the nested parsers run as they would without their guards. -/
structure Cursor.Advances (c : Cursor) : Prop where
  /-- An entry commits text, even if it is broken. -/
  entry : c.current ≠ none → c.offset < c.takeEntry.2.offset
  round : ∀ {σ α : Type} {round : σ → Parser (Round σ α)} {s s' : σ} {d : Cursor}, Loop round →
    Returns (round s) c (.again s') d → c.offset < d.offset ∧ d.Ready
  rounds : ∀ {σ α : Type} {round : σ → Parser (Round σ α)} (s : σ), Loop round →
    Parser.rounds round s c = (round s >>= Round.goOn (Parser.rounds round)) c
  turn : ∀ {d : Cursor}, c.Turn d → c.offset < d.offset ∧ d.Ready
  peekTurn : ∀ {d : Cursor}, c.PeekTurn d → c.ahead.offset < d.ahead.offset ∧ d.here = c.here
  blankLines : c.peekInlineBlanks.peeked = some '\n' →
    c.skipBlankLines = Prod.map (· + 1) id c.peekInlineBlanks.skipToPeek.next.skipBlankLines
  lines : c.takeLine.2.current ≠ none → c.takeLine.2.next.current.any isEntryStart = false →
    c.skipLines = c.takeLine.2.next.skipLines
  entries : c.current ≠ none → c.takeEntries =
    (c.takeEntry.1, decide (c.takeEntry.2.skipBlankLines.1 = 0)) ::
      c.takeEntry.2.skipBlankLines.2.takeEntries
  first : c.current = some '#' → (∀ junk, c.takeEntry.1 ≠ .junk junk) →
    Entry.first c = Entry.first c.takeEntry.2.skipBlankLines.2
  /-- What a pattern holds in braces starts behind the start of the pattern. -/
  pattern : ∀ alarm, Parser.pattern c =
    patternBody (behind c (placeableExpression Parser.pattern) alarm) c
  /-- The pattern of a variant starts behind the start of the expression in braces. -/
  expression : ∀ alarm, placeableExpression Parser.pattern c =
    placeableExpression (behind c Parser.pattern alarm) c
  /-- An argument of a call starts behind the start of the call. -/
  argument : ∀ alarm, selectorExpression c =
    selectorBody (behind c (callArgument selectorExpression) alarm) c
  /-- An expression in an argument starts behind the start of the call. -/
  selector : ∀ alarm, selectorExpression c =
    selectorBody (callArgument (behind c selectorExpression alarm)) c
  /-- An argument in an argument starts behind the start of the outer one. -/
  nestedArgument : ∀ alarm, callArgument selectorExpression c =
    callArgument (selectorBody (behind c (callArgument selectorExpression) alarm)) c

/-- Whatever is read from a cursor without pending lookahead, progress is made. -/
theorem Cursor.Ready.advances (hc : c.Ready) : c.Advances where
  entry := hc.takeEntry_offset_lt
  round hloop hround :=
    have := hloop.steady
    ⟨hloop.offset_lt hc hround, Steady.ready_of_ok hc hround⟩
  rounds s hloop := hloop.rounds_eq s hc
  turn hturn := hturn.offset_lt hc
  peekTurn hturn := hturn.offset_lt
  blankLines := hc.skipBlankLines_turn
  lines hcurrent hstart := by
    obtain ⟨ch, hch⟩ := Option.ne_none_iff_exists'.1 hcurrent
    exact hc.skipLines_turn hch hstart
  entries hcurrent := by
    obtain ⟨ch, hch⟩ := Option.ne_none_iff_exists'.1 hcurrent
    exact hc.takeEntries_turn hch
  first := hc.first_turn
  pattern := pattern_nesting hc
  expression := placeableExpression_nesting hc
  argument := selectorExpression_nesting hc
  selector := selectorExpression_selector_nesting hc
  nestedArgument := callArgument_nesting hc

/-- Reading a source always ends: it starts with no lookahead pending, and from such a cursor every
turn of every loop and every nesting advances to such a cursor again. -/
theorem Resource.parsing_advances (source : List Char) :
    (Cursor.ofText source).skipBlankLines.2.Ready ∧
      ∀ c : Cursor, c.Ready → c.Advances :=
  ⟨(Cursor.ready_ofText source).skipBlankLines.1, fun _ hc => hc.advances⟩

/-- A line that starts no entry is committed all the same. -/
theorem Resource.parsing_advances_broken :
    (Cursor.ofText ['!', '\n']).Ready ∧ (Cursor.ofText ['!', '\n']).current ≠ none ∧
      (Cursor.ofText ['!', '\n']).offset < (Cursor.ofText ['!', '\n']).takeEntry.2.offset := by
  have hready := Cursor.ready_ofText ['!', '\n']
  have hcurrent : (Cursor.ofText ['!', '\n']).current ≠ none := by decide
  exact ⟨hready, hcurrent, ((parsing_advances ['!', '\n']).2 _ hready).entry hcurrent⟩

end Localization
