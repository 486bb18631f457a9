import Localization.Proofs.Resource.Runs

/-!
# The grammar only moves forward

Every parser of the grammar moves its cursor by elementary moves, whatever it is given to read,
and an error it reports stands where it stopped.

## Main definitions

* `Parser.Production` — the productions of the grammar

## Main statements

* `Parser.Steady` instances for the parsers of the grammar, up to `Parser.entry`
-/

namespace Localization.Parser

/-! ### Characters and blanks -/

instance (ch : Char) : Steady (expectChar ch) := by
  unfold expectChar
  infer_instance

instance (p : Char → Bool) : Steady (takeChar p) := by
  unfold takeChar
  apply Steady.bind_forall
  intro ch?
  cases ch? <;> infer_instance

instance : Steady expectLineEnd := by
  unfold expectLineEnd
  apply Steady.bind_forall
  intro ch?
  split <;> infer_instance

instance : Steady expectIndent := by
  unfold expectIndent
  dsimp only
  refine Steady.bind_forall fun _ => Steady.bind_forall fun ch? => ?_
  split <;> infer_instance

instance : Steady takeIdentifierStart := by
  unfold takeIdentifierStart
  apply Steady.bind_forall
  intro ch?
  cases ch? <;> infer_instance

instance : Steady takeDigits := by
  unfold takeDigits
  apply Steady.bind_forall
  intro ch?
  cases ch? <;> infer_instance

instance (n : Nat) : Steady (expectMarkers n) := by
  induction n with
  | zero => exact inferInstanceAs (Steady (pure ()))
  | succ n ih =>
    unfold expectMarkers
    infer_instance

/-! ### Names, numbers and quoted texts -/

instance : Steady identifier := by
  unfold identifier
  infer_instance

instance : Steady entryIdentifier := by
  unfold entryIdentifier
  infer_instance

instance : Steady number := by
  unfold number
  infer_instance

instance (p : Char → Bool) (n : Nat) : Steady (takeAtMost p n) := by
  induction n with
  | zero => exact inferInstanceAs (Steady (pure []))
  | succ n ih =>
    unfold takeAtMost
    apply Steady.bind_forall
    intro ch?
    cases ch? <;> infer_instance

instance : Steady unicodeEscape := by
  unfold unicodeEscape
  apply Steady.bind_forall
  intro digits
  split <;> infer_instance

instance (taken : List Char) : Steady (quotedRound taken) := by
  unfold quotedRound
  apply Steady.bind_forall
  intro ch?
  split
  · infer_instance
  · infer_instance
  · infer_instance
  · apply Steady.bind_forall
    intro escaped?
    split <;> infer_instance
  · infer_instance

instance : Steady quoted := by
  unfold quoted
  infer_instance

instance : Steady variantName := by
  unfold variantName
  infer_instance

instance : Steady variantKey := by
  unfold variantKey
  apply Steady.bind_forall
  intro ch?
  cases ch? <;> infer_instance

/-! ### Expressions -/

instance : Steady stringLiteral := by
  unfold stringLiteral
  infer_instance

instance : Steady numberLiteral := by
  unfold numberLiteral
  infer_instance

instance : Steady variableReference := by
  unfold variableReference
  infer_instance

instance : Steady literal := by
  unfold literal
  apply Steady.bind_forall
  intro ch?
  split <;> infer_instance

instance : Steady argumentValue := by
  unfold argumentValue
  apply Steady.bind_forall
  intro ch?
  split <;> infer_instance

instance (name : Identifier) : Steady (namedArgument name) := by
  unfold namedArgument
  infer_instance

section Selector

variable (selector : Parser Expression) [Steady selector]

instance : Steady (callArgument selector) := by
  unfold callArgument
  apply Steady.bind_forall
  intro expression
  cases expression <;> infer_instance

end Selector

section Argument

variable (argument : Parser CallArgument) [Steady argument]

instance (before : List CallArgument) : Steady (callArgumentRound argument before) := by
  unfold callArgumentRound
  have hrest : ∀ argument : CallArgument, Steady (do
      skipInlineBlanks
      if (← current) = some ',' then
        modify Cursor.next
        skipInlineBlanks
        return .again (argument :: before)
      else return .done (argument :: before).reverse :
      Parser (Round (List CallArgument) (List CallArgument))) := fun _ => inferInstance
  apply Steady.bind_forall
  intro ch?
  split
  · infer_instance
  · apply Steady.bind_forall
    intro argument
    dsimp only
    split
    · infer_instance
    · exact hrest argument

instance : Steady (callArguments argument) := by
  unfold callArguments
  infer_instance

instance (id : Identifier) : Steady (referenceTail argument id) := by
  unfold referenceTail
  dsimp only
  apply Steady.bind_forall
  intro ch?
  split <;> infer_instance

instance : Steady (selectorBody argument) := by
  unfold selectorBody
  apply Steady.bind_forall
  intro expression
  cases expression <;> infer_instance

end Argument

instance : Steady selectorExpression := Steady.nested fun _ _ => inferInstance

instance : Forward (ask Cursor.isArrow) where
  moves c := by
    change c.To c.isArrow.2
    unfold Cursor.isArrow
    split
    · exact c.to_peek
    · exact .refl
  stops _ _ _ herror := by cases herror

/-- What runs behind a key in brackets. -/
theorem Steady.bracketed {β : Type} {f : VariantKey → Parser β} (h : ∀ key, Steady (f key)) :
    Steady (do
      expectChar '['
      skipInlineBlanks
      let key ← variantKey
      skipInlineBlanks
      expectChar ']'
      f key) :=
  bind_forall fun _ => bind_forall fun _ => bind_forall fun key => bind_forall fun _ =>
    bind_forall fun _ => h key

section Pattern

variable (pattern : Parser Pattern) [Steady pattern]

instance (hasDefault : Bool) : Steady (variant pattern hasDefault) := by
  unfold variant
  dsimp only
  refine Steady.bind_forall fun start => Steady.bind_forall fun ch? => ?_
  -- the two ways to the key: behind the star of a default, and without one
  split
  · split
    · infer_instance
    · exact Steady.bind_forall fun _ => Steady.bracketed fun _ => inferInstance
  · exact Steady.bracketed fun _ => inferInstance

instance (state : List Variant × Option Nat) : Steady (variantRound pattern state) := by
  unfold variantRound
  dsimp only
  apply Steady.bind_forall
  intro _
  apply Steady.bind_forall
  intro next
  apply Steady.bind_forall
  intro more
  split
  · infer_instance
  · split <;> infer_instance

instance : Steady (variants pattern) := by
  unfold variants
  infer_instance

instance (selector : Option Expression) (start : Nat) :
    Steady (choice pattern selector start) := by
  unfold choice
  infer_instance

/-- What follows a selector fails at an arrow, or with no lookahead pending. -/
theorem steady_isArrow_bind {β : Type} {f : Bool → Parser β} [Forward (f true)]
    [Forward (f false)] (hfalse : ∃ g, Steady g ∧ f false = modify Cursor.resetPeek >>= fun _ => g)
    (htrue : (∃ code, ∀ c, f true c = .error ⟨code, [], c.offset⟩ c) ∨
      ∃ g, Steady g ∧ f true = modify (·.next.next) >>= fun _ => g) :
    Steady (ask Cursor.isArrow >>= f) where
  toForward := by
    apply Forward.bind_forall
    intro arrow
    cases arrow <;> infer_instance
  settles c hc := by
    rw [bind_ok (isArrow_run hc)]
    cases harrow : Text.startsArrow c.here.rest with
    | false =>
      -- looking for the arrow leaves the cursor where it is
      have hreset : (if c.current = some '-' then c.peek else c).resetPeek = c := by
        split
        · exact hc.resetPeek
        · exact hc.resetPeek
      obtain ⟨g, _, hf⟩ := hfalse
      rw [hf, modify_bind, hreset]
      exact Steady.settles c hc
    | true =>
      obtain ⟨rest, hrest⟩ := Text.startsArrow_iff.1 harrow
      have hminus := Cursor.current_of_cons (by decide) hrest
      rw [if_pos hminus]
      rcases htrue with ⟨code, hf⟩ | ⟨g, _, hf⟩
      · rw [hf]
        exact .arrow hc harrow
      · rw [hf, modify_bind, peek_next hminus]
        exact Steady.settles _ hc.next.next

instance : Steady (placeableExpression pattern) := by
  unfold placeableExpression
  dsimp only
  apply Steady.bind_forall
  intro start
  apply Steady.bind_forall
  intro more
  split
  · infer_instance
  · apply Steady.bind_forall
    intro _
    apply Steady.bind_forall
    intro selector
    apply Steady.bind_forall
    intro _
    have hstop : Steady (if isTermAttribute selector = true then
        fail .termAttributePlaced [] >>= fun _ : PUnit => pure selector else pure selector) :=
      inferInstance
    cases selectorError? selector with
    | some code => exact steady_isArrow_bind ⟨_, hstop, rfl⟩ (.inl ⟨code, fun _ => rfl⟩)
    | none => exact steady_isArrow_bind ⟨_, hstop, rfl⟩ (.inr ⟨_, inferInstance, rfl⟩)

/-! ### Patterns -/

instance (taken : List Char) : Steady (textRound taken) := by
  unfold textRound
  apply Steady.bind_forall
  intro ch?
  split
  · infer_instance
  · infer_instance
  · infer_instance
  · apply Steady.bind_forall
    intro escaped?
    cases escaped? <;> infer_instance
  · infer_instance

instance : Steady textElement := by
  unfold textElement
  infer_instance

end Pattern

section Expression

variable (expression : Parser Expression) [Steady expression]

instance : Steady (placeable expression) := by
  unfold placeable
  infer_instance

instance (before : List PatternElement) : Steady (patternRound expression before) := by
  unfold patternRound
  apply Steady.bind_forall
  intro ch?
  cases ch? <;> dsimp only <;> infer_instance

instance : Steady (patternBody expression) := by
  unfold patternBody
  infer_instance

end Expression

instance : Steady pattern := Steady.nested fun _ _ => inferInstance

/-! ### Entries -/

instance (n : Nat) : Steady (takeMarkers n) := by
  induction n with
  | zero => exact inferInstanceAs (Steady (pure 0))
  | succ n ih =>
    unfold takeMarkers
    infer_instance

instance : Steady commentLine := by
  unfold commentLine
  apply Steady.bind_forall
  intro ch?
  split <;> infer_instance

instance (level : Nat) (before : List Char) : Steady (commentRound level before) := by
  unfold commentRound
  infer_instance

instance : Steady comment := by
  unfold comment
  infer_instance

instance (before : List Char) : Steady (legacyCommentRound before) := by
  unfold legacyCommentRound
  refine Steady.bind_forall fun _ => Steady.bind_forall fun _ => Steady.bind_forall fun ch? => ?_
  split <;> infer_instance

instance : Steady legacyComment := by
  unfold legacyComment
  infer_instance

instance : Steady sectionHeader := by
  unfold sectionHeader
  -- behind the brackets that open it
  refine Steady.bind_forall fun _ => Steady.bind_forall fun _ => Steady.bind_forall fun _ => ?_
  infer_instance

instance : Steady attributeLine := by
  unfold attributeLine
  -- behind the identifier and its sign
  refine Steady.bind_forall fun _ => Steady.bind_forall fun _ => Steady.bind_forall fun _ =>
    Steady.bind_forall fun _ => ?_
  infer_instance

instance (before : List Attribute) : Steady (attributeRound before) := by
  unfold attributeRound
  infer_instance

instance : Steady messageValue := by
  unfold messageValue
  infer_instance

instance : Steady messageEntry := by
  unfold messageEntry
  infer_instance

instance : Steady entry := by
  unfold entry
  apply Steady.bind_forall
  intro ch?
  split <;> infer_instance

/-! ### Productions -/

/-- The productions of the grammar. -/
inductive Production : {α : Type} → Parser α → Prop
  | identifier : Production identifier
  | entryIdentifier : Production entryIdentifier
  | number : Production number
  | quoted : Production quoted
  | variantKey : Production variantKey
  | literal : Production literal
  | argument : Production (callArgument selectorExpression)
  | arguments : Production (callArguments (callArgument selectorExpression))
  | selector : Production selectorExpression
  | variant (hasDefault : Bool) : Production (variant pattern hasDefault)
  | variants : Production (variants pattern)
  | expression : Production (placeableExpression pattern)
  | text : Production textElement
  | placeable : Production (placeable (placeableExpression pattern))
  | pattern : Production pattern
  | comment : Production comment
  | legacyComment : Production legacyComment
  | sectionHeader : Production sectionHeader
  | attribute : Production attributeLine
  | message : Production messageEntry
  | entry : Production entry

theorem Production.steady {α : Type} {p : Parser α} (h : Production p) : Steady p := by
  cases h <;> infer_instance

end Localization.Parser
