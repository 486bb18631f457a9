import Localization.Proofs.Resource.Recursion
import Localization.Proofs.Resource.Spelling.Lines

/-!
# The grammar asks from the committed position

A production that starts with no lookahead pending asks each question, and skips blank lines, with
no lookahead pending. So it runs alike with an alarm that is raised wherever a lookahead is pending.
The one lookahead that it may leave pending when it fails is for an arrow, and an arrow stands
behind a selector, not at the start of a line.

## Main definitions

* `Alarm` — what may stand in for a question, and for blank lines that are skipped
* `Alarm.guard` — the lookahead that raises an alarm wherever another one is pending
* `Parser.Tracks` — parsers that run alike, and fail at the start of a line only with no lookahead
  pending

## Main statements

* `Parser.Tracks` instances for the parsers of the grammar, up to `Parser.entryLine`
-/

namespace Localization

/-- What stands in for a question that is asked, and for blank lines that are skipped, where they
should not be. -/
structure Alarm where
  ask : (Cursor → Bool × Cursor) → Parser Bool
  skipBlankLines : Cursor → Nat × Cursor

/-- The lookahead of the cursor from the committed position, and an alarm from any other one. -/
@[reducible]
def Alarm.guard (alarm : Alarm) : Lookahead where
  ask question c :=
    if c.ahead = c.here then Lookahead.plain.ask question c else alarm.ask question c
  skipBlankLines c := if c.ahead = c.here then c.skipBlankLines else alarm.skipBlankLines c

namespace Parser

variable {σ α β : Type} {c d : Cursor} {alarm : Alarm}

/-- From a cursor two parsers run alike, and if they fail at the start of a line they leave no
lookahead pending. -/
structure TracksFrom (c : Cursor) (p q : Parser α) : Prop where
  same : p c = q c
  kept : ∀ e d, p c = .error e d → d.column = 1 → d.Ready

/-- From every cursor without pending lookahead the second parser tracks the first. -/
class Tracks (p q : Parser α) : Prop where
  tracks : ∀ c : Cursor, c.Ready → TracksFrom c p q

/-! ### Runs that track each other -/

namespace TracksFrom

variable {p p' q q' : Parser α} {f g : α → Parser β}

theorem of_eq (h : TracksFrom d p' q') (hp : p c = p' d) (hq : q c = q' d) :
    TracksFrom c p q where
  same := hp.trans (h.same.trans hq.symm)
  kept e k herror := h.kept e k (hp.symm.trans herror)

theorem of_ok {a : α} (hp : p c = .ok a d) (hq : q c = .ok a d) : TracksFrom c p q where
  same := hp.trans hq.symm
  kept e k herror := by
    rw [hp] at herror
    cases herror

/-- A run that fails with no lookahead pending. -/
theorem of_error {e : SyntaxError} (hp : p c = .error e d) (hq : q c = .error e d)
    (hd : d.column = 1 → d.Ready) : TracksFrom c p q where
  same := hp.trans hq.symm
  kept e' k herror := by
    rw [hp] at herror
    cases herror
    exact hd

theorem bind (h : TracksFrom c p q) (hf : ∀ a d, p c = .ok a d → TracksFrom d (f a) (g a)) :
    TracksFrom c (p >>= f) (q >>= g) := by
  cases hp : p c with
  | ok a d => exact (hf a d hp).of_eq (bind_ok hp) (bind_ok (h.same.symm.trans hp))
  | error e d =>
    exact of_error (bind_error hp) (bind_error (h.same.symm.trans hp)) (h.kept e d hp)

end TracksFrom

namespace Tracks

/-- A parser that never fails. -/
theorem of_ok {p : Parser α} (h : ∀ c, ∃ a d, p c = .ok a d) : Tracks p p where
  tracks c _ := by
    obtain ⟨a, d, hok⟩ := h c
    exact .of_ok hok hok

/-- A parser that fails where it stands. -/
theorem of_fail {p q : Parser α} {code : ErrorCode} {args : List String}
    (hp : ∀ c : Cursor, p c = .error ⟨code, args, c.offset⟩ c)
    (hq : ∀ c : Cursor, q c = .error ⟨code, args, c.offset⟩ c) : Tracks p q where
  tracks c hc := .of_error (hp c) (hq c) fun _ => hc

instance (a : α) : Tracks (pure a : Parser α) (pure a) := of_ok fun c => ⟨a, c, rfl⟩

instance (code : ErrorCode) (args : List String) :
    Tracks (fail code args : Parser α) (fail code args) := of_fail (fun _ => rfl) fun _ => rfl

/-- Nothing runs behind a failure. -/
instance (priority := 2000) {code : ErrorCode} {args : List String} {f g : α → Parser β} :
    Tracks ((fail code args : Parser α) >>= f) ((fail code args : Parser α) >>= g) :=
  of_fail (fun _ => rfl) fun _ => rfl

instance bind {p q : Parser α} {f g : α → Parser β} [Steady p] [Tracks p q]
    [∀ a, Tracks (f a) (g a)] : Tracks (p >>= f) (q >>= g) where
  tracks c hc := (tracks c hc).bind fun _ d hp => tracks d (Steady.ready_of_ok hc hp)

/-- What runs behind a parser is looked at for each of its values. -/
theorem bind_forall {p q : Parser α} {f g : α → Parser β} [Steady p] [Tracks p q]
    (h : ∀ a, Tracks (f a) (g a)) : Tracks (p >>= f) (q >>= g) := bind

instance {p q p' q' : Parser α} {prop : Prop} [Decidable prop] [Tracks p q] [Tracks p' q'] :
    Tracks (if prop then p else p') (if prop then q else q') := by
  split <;> infer_instance

instance : Tracks offset offset := of_ok fun c => ⟨c.offset, c, rfl⟩

instance : Tracks current current := of_ok fun c => ⟨c.current, c, rfl⟩

instance (start : ℕ) : Tracks (spanFrom start) (spanFrom start) :=
  of_ok fun c => ⟨⟨start, c.offset⟩, c, rfl⟩

/-- Moves that take a cursor without pending lookahead to the same place. -/
theorem modify_same {move move' : Cursor → Cursor} (h : ∀ c : Cursor, c.Ready → move c = move' c) :
    Tracks (modify move : Parser PUnit) (modify move') where
  tracks c hc := .of_ok rfl (congrArg (EStateM.Result.ok PUnit.unit) (h c hc).symm)

instance (move : Cursor → Cursor) :
    Tracks (modify move : Parser PUnit) (modify move : Parser PUnit) := modify_same fun _ _ => rfl

instance : Tracks next next := of_ok fun c => ⟨c.next.current, c.next, rfl⟩

instance : Tracks skipInlineBlanks skipInlineBlanks := of_ok fun c => ⟨(), c.skipInlineBlanks, rfl⟩

instance : Tracks takeLine takeLine := of_ok fun c => ⟨c.takeLine.1, c.takeLine.2, rfl⟩

instance (p : Char → Bool) : Tracks (takeWhile p) (takeWhile p) :=
  of_ok fun c => ⟨(c.takeWhile p).1, (c.takeWhile p).2, rfl⟩

instance rounds {round round' : σ → Parser (Round σ α)} [∀ s, Steady (round s)]
    [h : ∀ s, Tracks (round s) (round' s)] {s : σ} :
    Tracks (Parser.rounds round s) (Parser.rounds round' s) where
  tracks c hc := by
    -- along the rounds of the first run, each of which the second one makes as well
    fun_induction Parser.rounds round s c with
    | case1 s c s' d hround hlt ih =>
      have hround' := ((h s).tracks c hc).same.symm.trans hround
      exact (ih (Steady.ready_of_ok hc hround)).of_eq (rounds_again hround hlt)
        (rounds_again hround' hlt)
    | case2 s c s' d hround hge =>
      have hround' := ((h s).tracks c hc).same.symm.trans hround
      exact .of_error (rounds_stalled hround hge) (rounds_stalled hround' hge)
        fun _ => Steady.ready_of_ok hc hround
    | case3 s c a d hround =>
      have hround' := ((h s).tracks c hc).same.symm.trans hround
      exact .of_ok (rounds_done hround) (rounds_done hround')
    | case4 s c e d hround =>
      have hround' := ((h s).tracks c hc).same.symm.trans hround
      exact .of_error (rounds_error hround) (rounds_error hround')
        (((h s).tracks c hc).kept e d hround)

/-- Nested parsers track each other if their bodies do, given parsers that do. -/
theorem nested {body body' : Parser α → Parser α} [Steady (Parser.nested body)]
    (h : ∀ self self', Steady self → Tracks self self' → Tracks (body self) (body' self')) :
    Tracks (Parser.nested body) (Parser.nested body') := by
  have hinner : ∀ limit,
      Tracks (inner (Parser.nested body) limit) (inner (Parser.nested body') limit) := by
    -- what a nested parser hands to its body only runs where less remains
    intro limit
    induction limit using Nat.strongRecOn with
    | ind limit ih =>
      refine ⟨fun c hc => ?_⟩
      unfold inner
      by_cases hlt : c.remaining < limit
      · refine ((h _ _ inferInstance (ih _ hlt)).tracks c hc).of_eq ?_ ?_
        · exact (if_pos hlt).trans (nested_run body c)
        · exact (if_pos hlt).trans (nested_run body' c)
      · exact .of_error (if_neg hlt) (if_neg hlt) fun _ => hc
  refine ⟨fun c hc => ?_⟩
  exact ((h _ _ inferInstance (hinner c.remaining)).tracks c hc).of_eq (nested_run body c)
    (nested_run body' c)

end Tracks

/-! ### Questions and blank lines -/

/-- With no lookahead pending no alarm is raised. -/
theorem guard_ask (hc : c.Ready) (question : Cursor → Bool × Cursor) :
    @ask alarm.guard question c = ask question c := if_pos hc.ahead_eq

theorem guard_skipBlankLines (hc : c.Ready) :
    @Lookahead.skipBlankLines alarm.guard c = c.skipBlankLines := if_pos hc.ahead_eq

instance (question : Cursor → Bool × Cursor) :
    Tracks (ask question) (@ask alarm.guard question) where
  tracks _ hc := .of_ok rfl (guard_ask hc question)

instance : Tracks skipIndent (@skipIndent alarm.guard) := Tracks.modify_same fun c hc => by
  unfold Cursor.skipIndent
  dsimp only
  rw [guard_skipBlankLines hc.skipInlineBlanks.next, Lookahead.plain_skipBlankLines]

instance : Tracks (modify fun c : Cursor => (Lookahead.skipBlankLines c.next).2 : Parser PUnit)
    (modify fun c => (@Lookahead.skipBlankLines alarm.guard c.next).2) :=
  Tracks.modify_same fun c hc => by
    rw [guard_skipBlankLines hc.next, Lookahead.plain_skipBlankLines]

/-! ### Characters and blanks -/

instance (ch : Char) : Tracks (expectChar ch) (expectChar ch) := by
  unfold expectChar
  infer_instance

instance (p : Char → Bool) : Tracks (takeChar p) (takeChar p) := by
  unfold takeChar
  apply Tracks.bind_forall
  intro ch?
  cases ch? <;> infer_instance

instance : Tracks expectLineEnd expectLineEnd := by
  unfold expectLineEnd
  apply Tracks.bind_forall
  intro ch?
  split <;> infer_instance

instance : Tracks expectIndent (@expectIndent alarm.guard) := by
  unfold expectIndent
  dsimp only
  refine Tracks.bind_forall fun _ => Tracks.bind_forall fun ch? => ?_
  split <;> infer_instance

instance : Tracks takeIdentifierStart takeIdentifierStart := by
  unfold takeIdentifierStart
  apply Tracks.bind_forall
  intro ch?
  cases ch? <;> infer_instance

instance : Tracks takeDigits takeDigits := by
  unfold takeDigits
  apply Tracks.bind_forall
  intro ch?
  cases ch? <;> infer_instance

instance (n : ℕ) : Tracks (expectMarkers n) (expectMarkers n) := by
  induction n with
  | zero => exact inferInstanceAs (Tracks (pure ()) (pure ()))
  | succ n ih =>
    unfold expectMarkers
    infer_instance

/-! ### Names, numbers and quoted texts -/

instance : Tracks identifier identifier := by
  unfold identifier
  infer_instance

instance : Tracks entryIdentifier entryIdentifier := by
  unfold entryIdentifier
  infer_instance

instance : Tracks number number := by
  unfold number
  infer_instance

instance (p : Char → Bool) (n : ℕ) : Tracks (takeAtMost p n) (takeAtMost p n) := by
  induction n with
  | zero => exact inferInstanceAs (Tracks (pure []) (pure []))
  | succ n ih =>
    unfold takeAtMost
    apply Tracks.bind_forall
    intro ch?
    cases ch? <;> infer_instance

instance : Tracks unicodeEscape unicodeEscape := by
  unfold unicodeEscape
  apply Tracks.bind_forall
  intro digits
  split <;> infer_instance

instance (taken : List Char) : Tracks (quotedRound taken) (quotedRound taken) := by
  unfold quotedRound
  apply Tracks.bind_forall
  intro ch?
  split
  · infer_instance
  · infer_instance
  · infer_instance
  · apply Tracks.bind_forall
    intro escaped?
    split <;> infer_instance
  · infer_instance

instance : Tracks quoted quoted := by
  unfold quoted
  infer_instance

instance : Tracks variantName variantName := by
  unfold variantName
  infer_instance

instance : Tracks variantKey variantKey := by
  unfold variantKey
  apply Tracks.bind_forall
  intro ch?
  cases ch? <;> infer_instance

/-- What runs behind a key and the bracket that closes it. -/
theorem Tracks.key_bind {f g : VariantKey → Parser β} (h : ∀ key, Tracks (f key) (g key)) :
    Tracks
      (do
        skipInlineBlanks
        let key ← variantKey
        skipInlineBlanks
        expectChar ']'
        f key)
      (do
        skipInlineBlanks
        let key ← variantKey
        skipInlineBlanks
        expectChar ']'
        g key) :=
  bind_forall fun _ => bind_forall fun key => bind_forall fun _ => bind_forall fun _ => h key

/-! ### Expressions -/

instance : Tracks stringLiteral stringLiteral := by
  unfold stringLiteral
  infer_instance

instance : Tracks numberLiteral numberLiteral := by
  unfold numberLiteral
  infer_instance

instance : Tracks variableReference variableReference := by
  unfold variableReference
  infer_instance

instance : Tracks literal (@literal alarm.guard) := by
  unfold literal
  apply Tracks.bind_forall
  intro ch?
  split <;> infer_instance

instance : Tracks argumentValue (@argumentValue alarm.guard) := by
  unfold argumentValue
  apply Tracks.bind_forall
  intro ch?
  split <;> infer_instance

instance (name : Identifier) :
    Tracks (namedArgument name) (@namedArgument alarm.guard name) := by
  unfold namedArgument
  infer_instance

section Selector

variable {selector selector' : Parser Expression} [Steady selector] [Tracks selector selector']

instance : Tracks (callArgument selector) (@callArgument alarm.guard selector') := by
  unfold callArgument
  apply Tracks.bind_forall
  intro expression
  cases expression <;> infer_instance

end Selector

section Argument

variable {argument argument' : Parser CallArgument} [Steady argument] [Tracks argument argument']

instance (before : List CallArgument) :
    Tracks (callArgumentRound argument before) (callArgumentRound argument' before) := by
  unfold callArgumentRound
  apply Tracks.bind_forall
  intro ch?
  split
  · infer_instance
  · apply Tracks.bind_forall
    intro argument
    dsimp only
    cases argumentError? before argument <;> infer_instance

instance : Tracks (callArguments argument) (callArguments argument') := by
  unfold callArguments
  infer_instance

instance (id : Identifier) : Tracks (referenceTail argument id) (referenceTail argument' id) := by
  unfold referenceTail
  dsimp only
  apply Tracks.bind_forall
  intro ch?
  split
  · infer_instance
  · split
    · infer_instance
    · exact Tracks.bind_forall fun _ => Tracks.key_bind fun _ => inferInstance
  · infer_instance
  · infer_instance

instance : Tracks (selectorBody argument) (@selectorBody alarm.guard argument') := by
  unfold selectorBody
  apply Tracks.bind_forall
  intro expression
  cases expression <;> infer_instance

end Argument

instance : Tracks selectorExpression (@selectorExpression alarm.guard) :=
  @Tracks.nested _ _ _ (inferInstanceAs (Steady selectorExpression)) fun _ _ _ _ => inferInstance

section Pattern

variable {pattern pattern' : Parser Pattern} [Steady pattern] [Tracks pattern pattern']

instance (hasDefault : Bool) :
    Tracks (variant pattern hasDefault) (@variant alarm.guard pattern' hasDefault) := by
  unfold variant
  dsimp only
  apply Tracks.bind_forall
  intro start
  apply Tracks.bind_forall
  intro ch?
  -- the two ways to the key: behind the star of a default, and without one
  split
  · split
    · infer_instance
    · refine Tracks.bind_forall fun _ => Tracks.bind_forall fun _ => ?_
      exact Tracks.key_bind fun _ => inferInstance
  · exact Tracks.bind_forall fun _ => Tracks.key_bind fun _ => inferInstance

instance (state : List Variant × Option Nat) :
    Tracks (variantRound pattern state) (@variantRound alarm.guard pattern' state) := by
  unfold variantRound
  dsimp only
  apply Tracks.bind_forall
  intro _
  apply Tracks.bind_forall
  intro next
  apply Tracks.bind_forall
  intro more
  split
  · infer_instance
  · cases (if next.isDefault then some state.1.length else state.2) <;> infer_instance

instance : Tracks (variants pattern) (@variants alarm.guard pattern') := by
  unfold variants
  infer_instance

instance (selector : Option Expression) (start : ℕ) :
    Tracks (choice pattern selector start) (@choice alarm.guard pattern' selector start) := by
  unfold choice
  infer_instance

/-- A selector ends on the line that it starts on, behind its start. -/
theorem selectorExpression_column {selector : Expression} (hc : c.Ready) (hcolumn : 0 < c.column)
    (h : selectorExpression c = .ok selector d) : d.skipInlineBlanks.column ≠ 1 := by
  obtain ⟨text, htakes, hspells⟩ := selectorExpression_returns hc h
  obtain ⟨blanks, hblanks, htakes'⟩ := htakes.ready.takes_blanks
  have hmove : c.To d.skipInlineBlanks := (Forward.to_ok h).trans (Cursor.to_skipWhile _ d)
  -- a line start needs a line break in front, and neither the selector nor the blanks have one
  have hline : IsLine (text ++ blanks) := isLine_append.2 ⟨hspells.isLine, hblanks.isLine⟩
  rw [Ne, hmove.column_eq_one_iff hcolumn (htakes.trans htakes').reads]
  rintro (hends | ⟨hnil, -⟩)
  · exact hline.not_endsLine (List.append_nil _).symm hends
  · obtain ⟨ch, rest, rfl, -⟩ := hspells.exists_head
    cases hnil

/-- Looking for an arrow from the committed position leaves the peek position behind its minus
sign. -/
theorem tracksFrom_arrow {f g : Bool → Parser β} (hc : c.Ready)
    (hfalse : ∀ k : Cursor, k.resetPeek = c → TracksFrom k (f false) (g false))
    (htrue : c.current = some '-' → TracksFrom c.peek (f true) (g true)) :
    TracksFrom c (ask Cursor.isArrow >>= f) (@ask alarm.guard Cursor.isArrow >>= g) := by
  have hrun := isArrow_run hc
  refine .of_eq ?_ (bind_ok hrun) (bind_ok ((guard_ask hc _).trans hrun))
  cases harrow : Text.startsArrow c.here.rest with
  | false =>
    apply hfalse
    split
    · exact hc.resetPeek
    · exact hc.resetPeek
  | true =>
    obtain ⟨rest, hrest⟩ := Text.startsArrow_iff.1 harrow
    have hminus := Cursor.current_of_cons (by decide) hrest
    rw [if_pos hminus]
    exact htrue hminus

/-- Behind the brace that opens a placeable, its expression is read alike, and where it fails at an
arrow a selector stands in front on the same line. -/
theorem tracksFrom_placeableExpression (hc : c.Ready) (hcolumn : 0 < c.column) :
    TracksFrom c (placeableExpression pattern) (@placeableExpression alarm.guard pattern') := by
  unfold placeableExpression
  dsimp only
  refine .of_eq ?_ (offset_bind _) (offset_bind _)
  refine (Tracks.tracks c hc).bind fun more c₁ h₁ => ?_
  have hc₁ := Steady.ready_of_ok hc h₁
  split
  · -- variants without a selector
    exact Tracks.tracks c₁ hc₁
  refine .of_eq ?_ (skipInlineBlanks_bind _) (skipInlineBlanks_bind _)
  have hmove : c.To c₁.skipInlineBlanks := (Forward.to_ok h₁).trans (Cursor.to_skipWhile _ c₁)
  refine (Tracks.tracks _ hc₁.skipInlineBlanks).bind fun selector c₂ h₂ => ?_
  refine .of_eq ?_ (skipInlineBlanks_bind _) (skipInlineBlanks_bind _)
  have hc₂ := Steady.ready_of_ok hc₁.skipInlineBlanks h₂
  have hbehind := selectorExpression_column hc₁.skipInlineBlanks (hmove.column hcolumn).1 h₂
  refine tracksFrom_arrow hc₂.skipInlineBlanks (fun k hk => ?_) fun hminus => ?_
  · -- no arrow, and the peek position is taken back before anything else is read
    simp only [Bool.false_eq_true, if_false]
    refine .of_eq ?_ (modify_bind _ _) (modify_bind _ _)
    rw [hk]
    exact Tracks.tracks _ hc₂.skipInlineBlanks
  · simp only [if_true]
    cases selectorError? selector with
    | some code =>
      -- the peek position stays behind the minus sign, but this is no line start
      exact .of_error rfl rfl fun hline => absurd hline hbehind
    | none =>
      -- committing to the arrow takes the peek position along
      dsimp only
      refine .of_eq ?_ (modify_bind _ _) (modify_bind _ _)
      rw [peek_next hminus]
      exact Tracks.tracks _ hc₂.skipInlineBlanks.next.next

/-- Behind a character that has been committed no column is the one in front of the first. -/
theorem expectChar_column {ch : Char} {u : Unit} (h : expectChar ch c = .ok u d) :
    0 < d.column := by
  rw [expectChar_next h]
  rcases c.next_cases with ⟨hnil, -⟩ | ⟨_, -, -, -, hcolumn⟩ | ⟨_, -, -, -, -, hcolumn⟩
  · have hcurrent := expectChar_current h
    rw [Cursor.current_eq_none_iff.2 hnil] at hcurrent
    cases hcurrent
  · rw [hcolumn]
    exact Nat.succ_pos _
  · rw [hcolumn]
    exact Nat.one_pos

/-! ### Patterns -/

instance (taken : List Char) : Tracks (textRound taken) (@textRound alarm.guard taken) := by
  unfold textRound
  apply Tracks.bind_forall
  intro ch?
  split
  · infer_instance
  · infer_instance
  · infer_instance
  · apply Tracks.bind_forall
    intro escaped?
    cases escaped? <;> infer_instance
  · infer_instance

instance : Tracks textElement (@textElement alarm.guard) := by
  unfold textElement
  infer_instance

instance : Tracks (placeable (placeableExpression pattern))
    (placeable (@placeableExpression alarm.guard pattern')) where
  tracks c hc := by
    unfold placeable
    refine .of_eq ?_ (offset_bind _) (offset_bind _)
    refine (Tracks.tracks c hc).bind fun _ c₁ h₁ => ?_
    have hc₁ := Steady.ready_of_ok hc h₁
    refine (tracksFrom_placeableExpression hc₁ (expectChar_column h₁)).bind fun _ c₂ h₂ => ?_
    exact Tracks.tracks c₂ (Steady.ready_of_ok hc₁ h₂)

instance (before : List PatternElement) :
    Tracks (patternRound (placeableExpression pattern) before)
      (@patternRound alarm.guard (@placeableExpression alarm.guard pattern') before) := by
  unfold patternRound
  apply Tracks.bind_forall
  intro ch?
  cases ch? <;> dsimp only <;> infer_instance

instance : Tracks (patternBody (placeableExpression pattern))
    (@patternBody alarm.guard (@placeableExpression alarm.guard pattern')) := by
  unfold patternBody
  infer_instance

end Pattern

instance : Tracks pattern (@pattern alarm.guard) :=
  @Tracks.nested _ _ _ (inferInstanceAs (Steady pattern)) fun _ _ _ _ => inferInstance

/-! ### Entries -/

instance (n : ℕ) : Tracks (takeMarkers n) (takeMarkers n) := by
  induction n with
  | zero => exact inferInstanceAs (Tracks (pure 0) (pure 0))
  | succ n ih =>
    unfold takeMarkers
    infer_instance

instance : Tracks commentLine commentLine := by
  unfold commentLine
  apply Tracks.bind_forall
  intro ch?
  split <;> infer_instance

instance (level : ℕ) (before : List Char) :
    Tracks (commentRound level before) (@commentRound alarm.guard level before) := by
  unfold commentRound
  infer_instance

instance : Tracks comment (@comment alarm.guard) := by
  unfold comment
  infer_instance

instance (before : List Char) :
    Tracks (legacyCommentRound before) (@legacyCommentRound alarm.guard before) := by
  unfold legacyCommentRound
  refine Tracks.bind_forall fun _ => Tracks.bind_forall fun _ => Tracks.bind_forall fun ch? => ?_
  split <;> infer_instance

instance : Tracks legacyComment (@legacyComment alarm.guard) := by
  unfold legacyComment
  infer_instance

instance : Tracks sectionHeader sectionHeader := by
  unfold sectionHeader
  -- behind the first character of the name
  refine Tracks.bind_forall fun _ => Tracks.bind_forall fun _ => Tracks.bind_forall fun _ =>
    Tracks.bind_forall fun _ => Tracks.bind_forall fun _ => ?_
  infer_instance

instance : Tracks attributeLine (@attributeLine alarm.guard) := by
  unfold attributeLine
  -- behind the identifier and its sign
  refine Tracks.bind_forall fun _ => Tracks.bind_forall fun _ => Tracks.bind_forall fun _ =>
    Tracks.bind_forall fun _ => ?_
  infer_instance

instance (before : List Attribute) :
    Tracks (attributeRound before) (@attributeRound alarm.guard before) := by
  unfold attributeRound
  infer_instance

instance : Tracks messageValue (@messageValue alarm.guard) := by
  unfold messageValue
  infer_instance

instance : Tracks messageEntry (@messageEntry alarm.guard) := by
  unfold messageEntry
  infer_instance

instance : Tracks entry (@entry alarm.guard) := by
  unfold entry
  apply Tracks.bind_forall
  intro ch?
  split <;> infer_instance

instance : Tracks entryLine (@entryLine alarm.guard) := by
  unfold entryLine
  infer_instance

end Parser

end Localization
