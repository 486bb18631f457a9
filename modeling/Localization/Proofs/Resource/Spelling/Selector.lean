import Localization.Proofs.Resource.Spelling.Literal

/-!
# The spelling of selectors

An expression without variants is a literal or a reference. The arguments of a call are selectors
in turn, so both directions go by what the nested parser hands to its body.

## Main statements

* `Parser.selectorExpression_returns` — what is read as a selector is spelled as one
* `Parser.selectorExpression_yields` — what is spelled as a selector is read as one
-/

namespace Localization.Parser

open Text (Ends IsBlanks StartsVisible byteLength)

variable {c d : Cursor} {expression : Expression} {argument : CallArgument}

/-! ### Literals -/

/-- A string that was read has taken its quotes and what stands between them. -/
theorem stringLiteral_returns (hc : c.Ready) (h : Returns stringLiteral c expression d) :
    ∃ text, c.Takes text d ∧ isLiteral expression ∧
      ∀ next, SpellsSelector c.offset text expression next := by
  unfold stringLiteral at h
  obtain ⟨⟨value, span⟩, c₁, hquoted, h⟩ := h.bind
  obtain ⟨body, v, htakes, hquotes, hvalue⟩ := quoted_returns hc hquoted
  obtain ⟨rfl, rfl⟩ := Prod.mk.inj hvalue
  obtain ⟨rfl, rfl⟩ := Returns.pure_iff.1 h
  exact ⟨_, htakes, rfl, fun _ => .string hquotes⟩

/-- A number that was read has taken its digits, up to where no digit can follow. -/
theorem numberLiteral_returns (hc : c.Ready) (h : Returns numberLiteral c expression d) :
    ∃ text, c.Takes text d ∧ isLiteral expression ∧
      SpellsSelector c.offset text expression d.here.rest.head? := by
  unfold numberLiteral at h
  obtain ⟨⟨value, span⟩, c₁, hnumber, h⟩ := h.bind
  obtain ⟨digits, htakes, hdigits, hvalue⟩ := number_returns hc hnumber
  obtain ⟨rfl, rfl⟩ := Prod.mk.inj hvalue
  obtain ⟨rfl, rfl⟩ := Returns.pure_iff.1 h
  exact ⟨_, htakes, rfl, .number hdigits⟩

/-- The span of a variable reaches from its dollar sign to the end of its name. -/
theorem spanOf_dollar (start : Nat) (name : List Char) :
    (⟨start, (identifierAt (start + 1) name).span.stop⟩ : Span) = spanOf start ('$' :: name) := by
  simp only [identifierAt, spanOf, Span.mk.injEq, true_and]
  exact Nat.add_assoc _ _ _

/-- A variable that was read has taken its dollar sign and its name. -/
theorem variableReference_returns (hc : c.Ready) (hdollar : c.current = some '$')
    (h : Returns variableReference c expression d) :
    ∃ text, c.Takes text d ∧ SpellsSelector c.offset text expression d.here.rest.head? ∧
      ∀ id, expression ≠ .messageReference id := by
  unfold variableReference at h
  have h₁ := hc.next_takes_of_current (by decide) hdollar
  obtain ⟨id, c₂, hid, h⟩ := h.offset_bind.modify_bind.bind
  obtain ⟨name, h₂, hname, hend, rfl⟩ := identifier_returns h₁.ready hid
  obtain ⟨rfl, rfl⟩ := Returns.pure_iff.1 h
  refine ⟨_, h₁.trans h₂, ?_, by simp⟩
  rw [h₁.offset, show byteLength ['$'] = 1 from rfl, spanOf_dollar]
  exact .var hname hend

/-- A literal is the identifier of a message or a term, or a selector of its own. -/
theorem literal_returns (hc : c.Ready) (h : Returns literal c expression d) :
    ∃ text, c.Takes text d ∧
      ((IsEntryName text ∧ Ends isIdentifierChar d.here.rest.head? ∧
          expression = .messageReference (identifierAt c.offset text)) ∨
        (SpellsSelector c.offset text expression d.here.rest.head? ∧
          ∀ id, expression ≠ .messageReference id)) := by
  unfold literal at h
  have h := h.current_bind
  split at h
  · next hdollar =>
    obtain ⟨text, htakes, hspells, hne⟩ := variableReference_returns hc hdollar h
    exact ⟨text, htakes, .inr ⟨hspells, hne⟩⟩
  · obtain ⟨text, htakes, hliteral, hspells⟩ := stringLiteral_returns hc h
    refine ⟨text, htakes, .inr ⟨hspells _, ?_⟩⟩
    rintro id rfl
    cases hliteral
  · exact absurd h Returns.not_fail
  · have h := h.ask_bind hc.isNumberStart
    split at h
    · obtain ⟨text, htakes, hliteral, hspells⟩ := numberLiteral_returns hc h
      refine ⟨text, htakes, .inr ⟨hspells, ?_⟩⟩
      rintro id rfl
      cases hliteral
    · split at h
      · obtain ⟨id, c₁, hid, h⟩ := h.bind
        obtain ⟨name, htakes, hname, hend, rfl⟩ := entryIdentifier_returns hc hid
        obtain ⟨rfl, rfl⟩ := Returns.pure_iff.1 h
        exact ⟨name, htakes, .inl ⟨hname, hend, rfl⟩⟩
      · exact absurd h Returns.not_fail

/-! ### Arguments -/

/-- The value of a named argument is a literal, spelled by what was taken. -/
theorem argumentValue_returns (hc : c.Ready) (h : Returns argumentValue c expression d) :
    ∃ text, c.Takes text d ∧ isLiteral expression ∧
      SpellsSelector c.offset text expression d.here.rest.head? := by
  unfold argumentValue at h
  have h := h.current_bind
  split at h
  · obtain ⟨text, htakes, hliteral, hspells⟩ := stringLiteral_returns hc h
    exact ⟨text, htakes, hliteral, hspells _⟩
  · exact absurd h Returns.not_fail
  · have h := h.ask_bind hc.isNumberStart
    split at h
    · exact numberLiteral_returns hc h
    · exact absurd h Returns.not_fail

/-- A named argument that was read is spelled by its name, the colon and its value. -/
theorem namedArgument_returns {name : List Char} {start : Nat} (hname : IsName name)
    (hc : c.Ready) (hcolon : c.current = some ':') {lead : List Char} (hlead : IsBlanks lead)
    (hstart : c.offset = start + byteLength (name ++ lead))
    (h : Returns (namedArgument (identifierAt start name)) c argument d) :
    ∃ text, c.Takes text d ∧
      SpellsArgument start (name ++ (lead ++ text)) argument d.here.rest.head? := by
  unfold namedArgument at h
  have h₁ := hc.next_takes_of_current (by decide) hcolon
  obtain ⟨blanks, hblanks, h₂⟩ := h₁.ready.takes_blanks
  obtain ⟨value, c₃, hvalue, h⟩ := h.modify_bind.skipInlineBlanks_bind.bind
  obtain ⟨text, h₃, hliteral, hspells⟩ := argumentValue_returns h₂.ready hvalue
  obtain ⟨rfl, rfl⟩ := Returns.pure_iff.1 h
  have hoffset : c.next.skipInlineBlanks.offset =
      start + byteLength (name ++ (lead ++ ':' :: blanks)) := by
    rw [(h₁.trans h₂).offset, hstart]
    simp [Text.byteLength_append, Nat.add_assoc]
  refine ⟨_, (h₁.trans h₂).trans h₃, ?_⟩
  rw [hspells.span_eq, hoffset, identifierAt, spanOf_merge]
  rw [hoffset] at hspells
  simpa using .named hname hlead hblanks hliteral hspells

section Selector

variable {selector : Parser Expression}
  (hselector : ∀ c e d, Returns selector c e d → c.Ready →
    ∃ text, c.Takes text d ∧ SpellsSelector c.offset text e d.here.rest.head?)
include hselector

/-- An argument that was read is spelled by what was taken, up to blanks behind it. -/
theorem callArgument_returns (hc : c.Ready) (h : Returns (callArgument selector) c argument d) :
    ∃ text blanks, c.Takes (text ++ blanks) d ∧ IsBlanks blanks ∧
      SpellsArgument c.offset text argument (blanks ++ d.here.rest).head? := by
  unfold callArgument at h
  obtain ⟨expression, c₁, hexpression, h⟩ := h.bind
  obtain ⟨text, h₁, hspells⟩ := hselector _ _ _ hexpression hc
  obtain ⟨blanks, hblanks, h₂⟩ := h₁.ready.takes_blanks
  have h := h.skipInlineBlanks_bind.current_bind
  split at h
  -- in front of a colon the expression was the name of the argument
  · next hcolon =>
    cases expression with
    | messageReference id =>
      dsimp only at h
      split at h
      · exact absurd h Returns.not_fail
      · next hterm =>
        obtain ⟨hname, rfl⟩ := hspells.isEntryName
        obtain ⟨named, h₃, hspells⟩ := namedArgument_returns
          (hname.isName (by simpa using hterm)) h₂.ready hcolon hblanks (h₁.trans h₂).offset h
        exact ⟨_, [], by simpa using h₁.trans (h₂.trans h₃), Text.isBlanks_nil, hspells⟩
    | _ => exact absurd h Returns.not_fail
  · obtain ⟨rfl, rfl⟩ := Returns.pure_iff.1 h
    refine ⟨text, blanks, h₁.trans h₂, hblanks, .positional ?_⟩
    rwa [← h₂.rest]

/-- What the rounds over the arguments of a call have read when the call ends. -/
def ReadsArguments (before : List CallArgument) (c : Cursor) (args : List CallArgument)
    (d : Cursor) : Prop :=
  d.here.rest.head? = some ')' → ∃ text rest, c.Takes text d ∧
    SpellsArguments c.offset before text rest ∧ args = before.reverse ++ rest

omit hselector in
theorem head?_append_of_head? {first second tail : List Char} (h : second.head? = tail.head?) :
    (first ++ second).head? = (first ++ tail).head? := by
  rw [List.head?_append, List.head?_append, h]

/-- A round finds the closing parenthesis, or it reads an argument and the blanks behind it. A comma
is read with the blanks that follow it, and leads to another round. -/
theorem callArgumentRound_returns {before : List CallArgument}
    {result : Round (List CallArgument) (List CallArgument)} (hc : c.Ready)
    (h : Returns (callArgumentRound (callArgument selector) before) c result d) :
    (c = d ∧ result = .done before.reverse) ∨
    ∃ argument text blanks e, c.Takes (text ++ blanks) e ∧ IsBlanks blanks ∧
      SpellsArgument c.offset text argument (blanks ++ e.here.rest).head? ∧
      argumentError? before argument = none ∧
      (e.current = some ',' ∧ d = e.next.skipInlineBlanks ∧ result = .again (argument :: before) ∨
        d = e ∧ result = .done (argument :: before).reverse) := by
  unfold callArgumentRound at h
  dsimp only at h
  have h := h.current_bind
  split at h
  · obtain ⟨rfl, rfl⟩ := Returns.pure_iff.1 h
    exact .inl ⟨rfl, rfl⟩
  · obtain ⟨argument, c₁, hargument, h⟩ := h.bind
    obtain ⟨text, blanks, h₁, hblanks, hspells⟩ := callArgument_returns hselector hc hargument
    cases herror : argumentError? before argument with
    | some code =>
      rw [herror] at h
      exact absurd h Returns.not_fail_bind
    | none =>
      rw [herror] at h
      -- an argument takes the blanks behind it, unless it has a name
      obtain ⟨blanks', hblanks', h₂⟩ := h₁.ready.takes_blanks
      rw [h₂.rest, ← List.append_assoc] at hspells
      refine .inr ⟨argument, text, blanks ++ blanks', _, by simpa using h₁.trans h₂,
        Text.isBlanks_append.2 ⟨hblanks, hblanks'⟩, hspells, herror, ?_⟩
      have h := h.skipInlineBlanks_bind.current_bind
      split at h
      · next hcomma =>
        obtain ⟨rfl, rfl⟩ := Returns.pure_iff.1 h.modify_bind.skipInlineBlanks_bind
        exact .inl ⟨hcomma, rfl, rfl⟩
      · obtain ⟨rfl, rfl⟩ := Returns.pure_iff.1 h
        exact .inr ⟨rfl, rfl⟩

/-- A round that goes on has read one more argument and its comma. -/
theorem callArgumentRound_again {before before' : List CallArgument} (hc : c.Ready)
    (h : Returns (callArgumentRound (callArgument selector) before) c (.again before') d) :
    d.Ready ∧ ∀ args e, ReadsArguments before' d args e → ReadsArguments before c args e := by
  rcases callArgumentRound_returns hselector hc h with ⟨-, hround⟩ |
    ⟨argument, text, blanks, c₁, h₁, hblanks, hspells, herror,
      ⟨hcomma, rfl, hround⟩ | ⟨-, hround⟩⟩
  · cases hround
  · obtain rfl := Round.again.inj hround
    have h₂ := h₁.ready.next_takes_of_current (by decide) hcomma
    obtain ⟨blanks', hblanks', h₃⟩ := h₂.ready.takes_blanks
    have hall := h₁.trans (h₂.trans h₃)
    refine ⟨h₃.ready, fun args e hreads hclose => ?_⟩
    obtain ⟨rest, more, h₄, hargs, rfl⟩ := hreads hclose
    have hnext : (blanks ++ c₁.here.rest).head? = (blanks ++ [',']).head? := by
      rw [h₂.rest]
      exact head?_append_of_head? rfl
    rw [hnext] at hspells
    rw [hall.offset] at hargs
    have hmore : SpellsArguments c.offset before
        (text ++ (blanks ++ ',' :: (blanks' ++ rest))) (argument :: more) :=
      .more hspells hblanks herror hblanks' (by simpa using hargs)
    exact ⟨_, argument :: more, hall.trans h₄, by simpa using hmore, by simp⟩
  · cases hround

/-- A last round has read the last argument, or none behind a trailing comma. -/
theorem callArgumentRound_done {before args : List CallArgument} (hc : c.Ready)
    (h : Returns (callArgumentRound (callArgument selector) before) c (.done args) d) :
    ReadsArguments before c args d := by
  intro hclose
  rcases callArgumentRound_returns hselector hc h with ⟨rfl, hround⟩ |
    ⟨argument, text, blanks, c₁, h₁, hblanks, hspells, herror,
      ⟨-, -, hround⟩ | ⟨rfl, hround⟩⟩
  · obtain rfl := Round.done.inj hround
    exact ⟨[], [], .refl hc, .nil, by simp⟩
  · cases hround
  · obtain rfl := Round.done.inj hround
    have hnext : (blanks ++ d.here.rest).head? = (blanks ++ [')']).head? :=
      head?_append_of_head? hclose
    rw [hnext] at hspells
    exact ⟨text ++ blanks, [argument], h₁, .last hspells hblanks herror, by simp⟩

/-- The arguments that were read up to the closing bracket are spelled by what was taken. -/
theorem callArguments_returns {args : List CallArgument} (hc : c.Ready)
    (h : Returns (callArguments (callArgument selector)) c args d)
    (hclose : d.here.rest.head? = some ')') :
    ∃ blanks text, c.Takes (blanks ++ text) d ∧ IsBlanks blanks ∧
      SpellsArguments (c.offset + byteLength blanks) [] text args := by
  unfold callArguments at h
  obtain ⟨blanks, hblanks, h₁⟩ := hc.takes_blanks
  obtain ⟨text, rest, h₂, hspells, rfl⟩ := rounds_returns (Q := ReadsArguments)
    (fun _ _ _ _ hready hround => callArgumentRound_again hselector hready hround)
    (fun _ _ _ _ hready hround => callArgumentRound_done hselector hready hround) h₁.ready
    h.skipInlineBlanks_bind hclose
  exact ⟨blanks, text, h₁.trans h₂, hblanks, h₁.offset ▸ hspells⟩

/-! ### References -/

omit hselector in
/-- What is read of a key from behind its opening bracket. -/
theorem bracketedKey_returns {α : Type} {f : VariantKey → Parser α} {a : α} (hc : c.Ready)
    (h : Returns
      (do
        skipInlineBlanks
        let key ← variantKey
        skipInlineBlanks
        expectChar ']'
        f key) c a d) :
    ∃ blanks text blanks' key e, c.Takes (blanks ++ (text ++ (blanks' ++ [']']))) e ∧
      IsBlanks blanks ∧
      SpellsKey (c.offset + byteLength blanks) text key (blanks' ++ [']']).head? ∧
      IsBlanks blanks' ∧ Returns (f key) e a d := by
  obtain ⟨blanks, hblanks, h₁⟩ := hc.takes_blanks
  obtain ⟨key, c₂, hkey, h⟩ := h.skipInlineBlanks_bind.bind
  obtain ⟨text, h₂, hspells⟩ := variantKey_returns h₁.ready hkey
  obtain ⟨blanks', hblanks', h₃⟩ := h₂.ready.takes_blanks
  obtain ⟨_, e, hclose, h⟩ := h.skipInlineBlanks_bind.bind
  have h₄ := expectChar_returns h₃.ready (by decide) hclose
  -- the key is followed by the blanks behind it and the bracket
  have hnext : c₂.here.rest.head? = (blanks' ++ [']']).head? := by
    rw [h₃.rest, h₄.rest]
    exact head?_append_of_head? rfl
  rw [h₁.offset, hnext] at hspells
  exact ⟨blanks, text, blanks', key, e, h₁.trans (h₂.trans (h₃.trans h₄)), hblanks, hspells,
    hblanks', h⟩

section Tail

variable {name : List Char} {start : Nat}

omit hselector in
/-- What is read behind the dot of an attribute. -/
theorem referenceTail_field_returns (hc : c.Ready) (hname : IsEntryName name)
    (hstart : c.offset = start + byteLength name) (hdot : c.current = some '.')
    (h : Returns
      (do
        let field ← identifier
        return .attribute (identifierAt start name) field
          ((identifierAt start name).span.merge field.span)) c.next expression d) :
    ∃ text, c.Takes text d ∧
      SpellsSelector start (name ++ text) expression d.here.rest.head? := by
  have h₁ := hc.next_takes_of_current (by decide) hdot
  obtain ⟨id, c₂, hid, h⟩ := h.bind
  obtain ⟨field, h₂, hfield, hends, rfl⟩ := identifier_returns h₁.ready hid
  obtain ⟨rfl, rfl⟩ := Returns.pure_iff.1 h
  have hoffset := h₁.offset_from hstart
  refine ⟨_, h₁.trans h₂, ?_⟩
  have hspan := spanOf_merge start name ['.'] field
  rw [← hoffset] at hspan
  rw [identifierAt, identifierAt, hspan, hoffset]
  exact .field hname hfield hends

omit hselector in
/-- What is read behind the bracket of a variant. -/
theorem referenceTail_variant_returns (hc : c.Ready) (hname : IsEntryName name)
    (hterm : (identifierAt start name).isTerm)
    (hstart : c.offset = start + byteLength name) (hbracket : c.current = some '[')
    (h : Returns
      (do
        skipInlineBlanks
        let key ← variantKey
        skipInlineBlanks
        expectChar ']'
        return .variant (identifierAt start name) key (← spanFrom start)) c.next expression d) :
    ∃ text, c.Takes text d ∧
      SpellsSelector start (name ++ text) expression d.here.rest.head? := by
  obtain ⟨rest, hrest, rfl⟩ := hname.of_isTerm hterm
  have h₁ := hc.next_takes_of_current (by decide) hbracket
  obtain ⟨blanks, keyText, blanks', key, c₂, h₂, hblanks, hkey, hblanks', h⟩ :=
    bracketedKey_returns h₁.ready h
  obtain ⟨rfl, rfl⟩ := Returns.pure_iff.1 h.spanFrom_bind
  have hoffset : c.next.offset + byteLength blanks =
      start + byteLength ('-' :: (rest ++ '[' :: blanks)) := by
    rw [h₁.offset_from hstart]
    simp [Text.byteLength_append, Nat.add_assoc]
  rw [hoffset] at hkey
  refine ⟨_, h₁.trans h₂, ?_⟩
  rw [(h₁.trans h₂).span_from hstart]
  exact .variant hrest hblanks hkey hblanks'

/-- What is read behind the parenthesis of a call. -/
theorem referenceTail_call_returns (hc : c.Ready) (hname : IsEntryName name)
    (hcallee : isCalleeName (identifierAt start name).name)
    (hstart : c.offset = start + byteLength name) (hopen : c.current = some '(')
    (h : Returns
      (do
        let args ← callArguments (callArgument selector)
        expectChar ')'
        return .call (identifierAt start name) args (← spanFrom start)) c.next expression d) :
    ∃ text, c.Takes text d ∧
      SpellsSelector start (name ++ text) expression d.here.rest.head? := by
  have h₁ := hc.next_takes_of_current (by decide) hopen
  obtain ⟨args, c₂, hargs, h⟩ := h.bind
  obtain ⟨_, c₃, hclose, h⟩ := h.bind
  obtain ⟨rfl, rfl⟩ := Returns.pure_iff.1 h.spanFrom_bind
  have hhead := (Cursor.current_eq_head? (by decide)).1 (expectChar_current hclose)
  obtain ⟨blanks, text, h₂, hblanks, hspells⟩ :=
    callArguments_returns hselector h₁.ready hargs hhead
  have h₃ := expectChar_returns h₂.ready (by decide) hclose
  have hall := h₁.trans (h₂.trans h₃)
  have hoffset : c.next.offset + byteLength blanks =
      start + byteLength (name ++ '(' :: blanks) := by
    rw [h₁.offset_from hstart]
    simp [Text.byteLength_append, Nat.add_assoc]
  rw [hoffset] at hspells
  refine ⟨'(' :: (blanks ++ (text ++ [')'])), by simpa using hall, ?_⟩
  rw [hall.span_from hstart]
  simpa using .call hname hcallee hblanks hspells

/-- What follows a name is spelled by what was taken, be it nothing, an attribute, a key or
arguments. -/
theorem referenceTail_returns (hc : c.Ready) (hname : IsEntryName name)
    (hend : Ends isIdentifierChar c.here.rest.head?)
    (hstart : c.offset = start + byteLength name)
    (h : Returns (referenceTail (callArgument selector) (identifierAt start name)) c expression d) :
    ∃ text, c.Takes text d ∧
      SpellsSelector start (name ++ text) expression d.here.rest.head? := by
  unfold referenceTail at h
  dsimp only at h
  have h := h.current_bind
  split at h
  · next hdot => exact referenceTail_field_returns hc hname hstart hdot h.modify_bind
  · next hbracket =>
    split at h
    · exact absurd h Returns.not_fail_bind
    · next hterm =>
      exact referenceTail_variant_returns hc hname (by simpa using hterm) hstart hbracket
        h.modify_bind
  · next hopen =>
    split at h
    · exact absurd h Returns.not_fail_bind
    · next hcallee =>
      exact referenceTail_call_returns hselector hc hname (by simpa using hcallee) hstart hopen
        h.modify_bind
  · next hdot hbracket hopen =>
    obtain ⟨rfl, rfl⟩ := Returns.pure_iff.1 h
    refine ⟨[], .refl hc, ?_⟩
    rw [List.append_nil]
    -- no tail follows, so what stands behind the name could not have gone on with it
    refine .reference hname fun ch hch => ?_
    simp only [isReferenceChar, Bool.or_eq_false_iff, decide_eq_false_iff_not]
    refine ⟨⟨⟨hend ch hch, ?_⟩, ?_⟩, ?_⟩
    · rintro rfl
      exact hdot ((Cursor.current_eq_head? (by decide)).2 hch)
    · rintro rfl
      exact hbracket ((Cursor.current_eq_head? (by decide)).2 hch)
    · rintro rfl
      exact hopen ((Cursor.current_eq_head? (by decide)).2 hch)

end Tail

/-- A selector that was read is spelled by what was taken. -/
theorem selectorBody_returns (hc : c.Ready)
    (h : Returns (selectorBody (callArgument selector)) c expression d) :
    ∃ text, c.Takes text d ∧ SpellsSelector c.offset text expression d.here.rest.head? := by
  unfold selectorBody at h
  obtain ⟨first, c₁, hliteral, h⟩ := h.bind
  obtain ⟨text, h₁, ⟨hname, hend, rfl⟩ | ⟨hspells, hne⟩⟩ := literal_returns hc hliteral
  · obtain ⟨tail, h₂, hspells⟩ :=
      referenceTail_returns hselector h₁.ready hname hend h₁.offset h
    exact ⟨_, h₁.trans h₂, hspells⟩
  · split at h
    · next id => exact absurd rfl (hne id)
    · obtain ⟨rfl, rfl⟩ := Returns.pure_iff.1 h
      exact ⟨text, h₁, hspells⟩

end Selector

/-- What is read as a selector is spelled as one. -/
theorem selectorExpression_returns (hc : c.Ready)
    (h : Returns selectorExpression c expression d) :
    ∃ text, c.Takes text d ∧ SpellsSelector c.offset text expression d.here.rest.head? :=
  nested_returns (fun _ hself _ _ _ hbody hready => selectorBody_returns hself hready hbody) h hc

/-! ### Texts that are read as literals -/

/-- A text in quotes is read as a string, with its escapes applied. -/
theorem stringLiteral_yields {body value rest : List Char} (hc : c.Ready)
    (h : Quotes body value) (hrest : c.here.rest = '"' :: (body ++ '"' :: rest)) :
    Yields stringLiteral c ('"' :: (body ++ ['"']))
      (.stringLiteral (String.ofList value) (spanOf c.offset ('"' :: (body ++ ['"'])))) := by
  have hquoted : c.here.rest = '"' :: (body ++ ['"']) ++ rest := by simpa using hrest
  unfold stringLiteral
  refine ((quoted_yields hc h hrest).bind hquoted fun d h₁ _ => ?_).cast (List.append_nil _)
  exact Yields.pure h₁.ready _

/-- Digits are read as a number. -/
theorem numberLiteral_yields {digits rest : List Char} (hc : c.Ready)
    (h : SpellsNumber digits rest.head?) (hrest : c.here.rest = digits ++ rest) :
    Yields numberLiteral c digits
      (.numberLiteral (String.ofList digits) (spanOf c.offset digits)) := by
  unfold numberLiteral
  refine ((number_yields hc h hrest).bind hrest fun d h₁ _ => ?_).cast (List.append_nil _)
  exact Yields.pure h₁.ready _

/-- A name behind a dollar sign is read as a variable. -/
theorem variableReference_yields {name rest : List Char} (hc : c.Ready) (hname : IsName name)
    (hend : Ends isIdentifierChar rest.head?) (hrest : c.here.rest = '$' :: (name ++ rest)) :
    Yields variableReference c ('$' :: name)
      (.variableReference (identifierAt (c.offset + 1) name)
        (spanOf c.offset ('$' :: name))) := by
  unfold variableReference
  refine Yields.offset_bind ((Yields.next hc (by decide) hrest).bind hrest fun c₁ h₁ hrest₁ => ?_)
  refine ((identifier_yields h₁.ready hname hrest₁ hend).bind hrest₁ fun c₂ h₂ _ => ?_).cast
    (List.append_nil name)
  rw [h₁.offset, show byteLength ['$'] = 1 from rfl, ← spanOf_dollar]
  exact Yields.pure h₂.ready _

/-- A number is read where the first character does not decide against it. -/
theorem literal_number_yields {digits rest : List Char} (hc : c.Ready)
    (h : SpellsNumber digits rest.head?) (hrest : c.here.rest = digits ++ rest) :
    Yields literal c digits (.numberLiteral (String.ofList digits) (spanOf c.offset digits)) ∧
      Yields argumentValue c digits
        (.numberLiteral (String.ofList digits) (spanOf c.offset digits)) := by
  obtain ⟨ch, more, rfl, hch⟩ := h.exists_head
  have hbreak := isLineBreak_of_isSelectorStart (isSelectorStart_of_isNumberStart hch)
  -- a number starts like no other literal
  have hne : ∀ other, isNumberStart other = false → some ch ≠ some other := by
    rintro other hother ⟨⟩
    rw [hch] at hother
    cases hother
  have hcurrent : c.current = some ch := Cursor.current_of_cons hbreak hrest
  have hnumber := numberLiteral_yields hc h hrest
  have hask : c.isNumberStart = (true, c) := by
    rw [hc.isNumberStart, hrest, h.startsNumber]
  constructor
  · unfold literal
    refine Yields.current_bind hcurrent ?_
    split
    · next heq => exact absurd heq (hne _ (by decide))
    · next heq => exact absurd heq (hne _ (by decide))
    · next heq => cases heq
    · exact Yields.ask_bind hask hnumber
  · unfold argumentValue
    refine Yields.current_bind hcurrent ?_
    split
    · next heq => exact absurd heq (hne _ (by decide))
    · next heq => cases heq
    · exact Yields.ask_bind hask hnumber

/-- A text in quotes is read as a string wherever a literal is. -/
theorem literal_string_yields {body value rest : List Char} (hc : c.Ready)
    (h : Quotes body value) (hrest : c.here.rest = '"' :: (body ++ '"' :: rest)) :
    Yields literal c ('"' :: (body ++ ['"']))
        (.stringLiteral (String.ofList value) (spanOf c.offset ('"' :: (body ++ ['"'])))) ∧
      Yields argumentValue c ('"' :: (body ++ ['"']))
        (.stringLiteral (String.ofList value) (spanOf c.offset ('"' :: (body ++ ['"'])))) := by
  have hcurrent := Cursor.current_of_cons (by decide) hrest
  have hstring := stringLiteral_yields hc h hrest
  constructor
  · unfold literal
    exact Yields.current_bind hcurrent hstring
  · unfold argumentValue
    exact Yields.current_bind hcurrent hstring

/-- A name behind a dollar sign is read as a variable wherever a literal is. -/
theorem literal_variable_yields {name rest : List Char} (hc : c.Ready) (hname : IsName name)
    (hend : Ends isIdentifierChar rest.head?) (hrest : c.here.rest = '$' :: (name ++ rest)) :
    Yields literal c ('$' :: name)
      (.variableReference (identifierAt (c.offset + 1) name)
        (spanOf c.offset ('$' :: name))) := by
  unfold literal
  exact Yields.current_bind (Cursor.current_of_cons (by decide) hrest)
    (variableReference_yields hc hname hend hrest)

/-- A bare name is read as a reference wherever a literal is. -/
theorem literal_name_yields {name rest : List Char} (hc : c.Ready) (hname : IsEntryName name)
    (hend : Ends isIdentifierChar rest.head?) (hrest : c.here.rest = name ++ rest) :
    Yields literal c name (.messageReference (identifierAt c.offset name)) := by
  -- a term starts with a minus as a number may, but no digit follows it
  have hask : c.isNumberStart = (false, c) := by
    rw [hc.isNumberStart, hrest, hname.startsNumber]
  obtain ⟨ch, more, rfl, hch⟩ := hname.exists_head
  have hne : ∀ other, isNameStart other = false → some ch ≠ some other := by
    rintro other hother ⟨⟩
    rw [hch] at hother
    cases hother
  have hbreak := isLineBreak_of_isSelectorStart (isSelectorStart_of_isNameStart hch)
  unfold literal
  refine Yields.current_bind (Cursor.current_of_cons hbreak hrest) ?_
  split
  · next heq => exact absurd heq (hne _ (by decide))
  · next heq => exact absurd heq (hne _ (by decide))
  · next heq => cases heq
  · next first hdollar hquote heq =>
    obtain rfl : ch = first := Option.some.inj heq
    refine Yields.ask_bind hask ?_
    rw [if_neg (by decide), if_pos (show (ch = '-' || isIdentifierStart ch) from hch)]
    refine ((entryIdentifier_yields hc hname hrest hend).bind hrest fun c₁ h₁ _ => ?_).cast
      (List.append_nil _)
    exact Yields.pure h₁.ready _

/-! ### Texts that are read as arguments -/

section Selector

variable {selector : Parser Expression} {limit : Nat} {text blanks rest : List Char}
  (hselector : ∀ d text e rest, d.remaining < limit → d.Ready →
    SpellsSelector d.offset text e rest.head? → d.here.rest = text ++ rest →
    Yields selector d text e)

/-- A text that spells a literal is read as the value of an argument. -/
theorem argumentValue_yields (hc : c.Ready) (hliteral : isLiteral expression)
    (h : SpellsSelector c.offset text expression rest.head?) (hrest : c.here.rest = text ++ rest) :
    Yields argumentValue c text expression := by
  generalize hnext : rest.head? = next at h
  cases h with
  | string hquotes => exact (literal_string_yields hc hquotes (by simpa using hrest)).2
  | number hdigits => exact (literal_number_yields hc (hnext ▸ hdigits) hrest).2
  | _ => cases hliteral

/-- A colon and a text that spells a literal are read as a named argument. -/
theorem namedArgument_yields {name lead : List Char} {start : Nat} (hc : c.Ready)
    (hoffset : c.offset = start + byteLength (name ++ lead)) (hblanks : IsBlanks blanks)
    (hliteral : isLiteral expression)
    (h : SpellsSelector (start + byteLength (name ++ (lead ++ ':' :: blanks))) text expression
      rest.head?)
    (hrest : c.here.rest = ':' :: (blanks ++ (text ++ rest))) :
    Yields (namedArgument (identifierAt start name)) c (':' :: (blanks ++ text))
      (.named (identifierAt start name) expression
        (spanOf start (name ++ (lead ++ ':' :: (blanks ++ text))))) := by
  have hblank : Ends isInlineBlank (text ++ rest).head? := h.startsVisible.ends
  unfold namedArgument
  refine (Yields.next hc (by decide) hrest).bind hrest fun c₁ h₁ hrest₁ => ?_
  refine (Yields.skipInlineBlanks h₁.ready hblanks hrest₁ hblank).bind hrest₁
    fun c₂ h₂ hrest₂ => ?_
  have hoffset₂ : c₂.offset = start + byteLength (name ++ (lead ++ ':' :: blanks)) := by
    simpa using (h₁.trans h₂).offset_from hoffset
  have hvalue := argumentValue_yields h₂.ready hliteral (hoffset₂ ▸ h) hrest₂
  refine (hvalue.bind hrest₂ fun c₃ h₃ _ => ?_).cast (List.append_nil _)
  rw [h.span_eq, identifierAt, spanOf_merge]
  simpa using Yields.pure h₃.ready _

include hselector

/-- Blanks behind an argument are read with it unless it has a name. -/
theorem callArgument_yields (hc : c.Ready) (hlt : c.remaining < limit)
    (h : SpellsArgument c.offset text argument (blanks ++ rest).head?) (hblanks : IsBlanks blanks)
    (hend : Ends isInlineBlank rest.head?) (hcolon : rest.head? ≠ some ':')
    (hrest : c.here.rest = text ++ (blanks ++ rest)) :
    ∃ read left, blanks = read ++ left ∧
      Yields (callArgument selector) c (text ++ read) argument := by
  generalize hnext : (blanks ++ rest).head? = next at h
  unfold callArgument
  cases h with
  | positional hspells =>
    -- an argument on its own takes the blanks behind it, where a colon was looked for
    refine ⟨blanks, [], by simp, ?_⟩
    refine (hselector c text _ _ hlt hc (hnext ▸ hspells) hrest).bind hrest fun c₁ h₁ hrest₁ => ?_
    refine ((Yields.skipInlineBlanks h₁.ready hblanks hrest₁ hend).bind hrest₁
      fun c₂ h₂ hrest₂ => ?_).cast (List.append_nil blanks)
    refine Yields.current_bind rfl ?_
    rw [if_neg fun hcurrent => hcolon (hrest₂ ▸ (Cursor.current_eq_head? (by decide)).1 hcurrent)]
    exact Yields.pure h₂.ready _
  | @named _ name lead lead' valueText value _ hname hlead hlead' hliteral hspells =>
    -- an argument with a name leaves them to the round
    refine ⟨[], blanks, by simp, ?_⟩
    rw [List.append_nil]
    simp only [List.append_assoc, List.cons_append] at hrest
    have hends := hlead.ends_append (fun _ => isReferenceChar_of_isInlineBlank)
      (show Ends isReferenceChar (':' :: (lead' ++ (valueText ++ (blanks ++ rest)))).head? from
        Text.ends_some.2 (by decide))
    have hname' : IsEntryName name := .inl hname
    refine (hselector c name _ _ hlt hc (.reference hname' hends) hrest).bind hrest
      fun c₁ h₁ hrest₁ => ?_
    refine (Yields.skipInlineBlanks h₁.ready hlead hrest₁ (Text.ends_some.2 (by decide))).bind
      hrest₁ fun c₂ h₂ hrest₂ => ?_
    refine Yields.current_bind (Cursor.current_of_cons (by decide) hrest₂) ?_
    rw [if_pos rfl]
    dsimp only
    rw [hname.isTerm, if_neg (by decide)]
    exact namedArgument_yields h₂.ready (h₁.trans h₂).offset hlead' hliteral
      (hnext ▸ hspells) hrest₂

/-- One round reads a text that spells an argument, and does what the character behind it asks for.
-/
theorem callArgumentRound_yields {before : List CallArgument} {stop : Char} {tail : List Char}
    {result : Round (List CallArgument) (List CallArgument)} (hc : c.Ready)
    (hlt : c.remaining < limit)
    (h : SpellsArgument c.offset text argument (blanks ++ [stop]).head?) (hblanks : IsBlanks blanks)
    (hstop : Text.isVisible stop) (hcolon : stop ≠ ':')
    (herror : argumentError? before argument = none)
    (hrest : c.here.rest = text ++ (blanks ++ stop :: rest))
    (htail : ∀ d, c.Takes (text ++ blanks) d → d.here.rest = stop :: rest →
      Yields (if some stop = some ',' then do
          modify Cursor.next
          skipInlineBlanks
          return .again (argument :: before)
        else return .done (argument :: before).reverse) d tail result) :
    Yields (callArgumentRound (callArgument selector) before) c (text ++ (blanks ++ tail))
      result := by
  have hbreak := Text.not_isLineBreak_of_isVisible hstop
  have hend : Ends isInlineBlank (stop :: rest).head? := (Text.startsVisible_cons.2 hstop).ends
  -- an argument starts like no closing parenthesis
  have hclose : c.current ≠ some ')' := by
    obtain ⟨ch, more, rfl, hch⟩ := h.exists_head
    rw [ne_eq, Cursor.current_eq_head? (by decide), hrest]
    rintro ⟨⟩
    exact absurd hch (by decide)
  have hnext : (blanks ++ [stop]).head? = (blanks ++ stop :: rest).head? :=
    head?_append_of_head? rfl
  obtain ⟨read, left, rfl, hargument⟩ := callArgument_yields hselector hc hlt (hnext ▸ h) hblanks
    hend (by simpa using hcolon) hrest
  unfold callArgumentRound
  dsimp only
  refine Yields.current_bind rfl ?_
  rw [if_neg hclose]
  have hread : c.here.rest = text ++ read ++ (left ++ stop :: rest) := by simpa using hrest
  rw [show text ++ (read ++ left ++ tail) = text ++ read ++ (left ++ tail) by simp]
  refine hargument.bind hread fun c₁ h₁ hrest₁ => ?_
  rw [herror]
  dsimp only
  refine (Yields.skipInlineBlanks h₁.ready (Text.isBlanks_append.1 hblanks).2 hrest₁
    hend).bind hrest₁
    fun c₂ h₂ hrest₂ => ?_
  refine Yields.current_bind (Cursor.current_of_cons hbreak hrest₂) ?_
  exact htail c₂ (by simpa using h₁.trans h₂) hrest₂

/-- A text that spells arguments is read in rounds, in its order, behind those read before. -/
theorem callArgumentRounds_yields {before args : List CallArgument} (hc : c.Ready)
    (hlt : c.remaining < limit) (h : SpellsArguments c.offset before text args)
    (hrest : c.here.rest = text ++ ')' :: rest) :
    Yields (rounds (callArgumentRound (callArgument selector)) before) c text
      (before.reverse ++ args) := by
  induction args generalizing c before text with
  | nil =>
    cases h with
    | nil =>
      rw [List.append_nil]
      refine Yields.rounds_done ?_
      unfold callArgumentRound
      dsimp only
      refine Yields.current_bind rfl ?_
      rw [if_pos (Cursor.current_of_cons (by decide) hrest)]
      exact Yields.pure hc _
  | cons argument args ih =>
    cases h with
    | @last _ _ text _ blanks hspells hblanks herror =>
      rw [List.append_assoc] at hrest
      rw [show text ++ blanks = text ++ (blanks ++ []) by simp]
      refine Yields.rounds_done (callArgumentRound_yields hselector hc hlt hspells hblanks
        (by decide) (by decide) herror hrest fun d h₁ _ => ?_)
      rw [if_neg (by decide), List.reverse_cons]
      exact Yields.pure h₁.ready _
    | @more _ _ text _ blanks blanks' rest' _ hspells hblanks herror hblanks' hargs =>
      simp only [List.append_assoc, List.cons_append] at hrest
      -- the argument, its comma and the blanks behind it are one round
      have hround : Yields (callArgumentRound (callArgument selector) before) c
          (text ++ (blanks ++ ',' :: blanks')) (.again (argument :: before)) := by
        refine callArgumentRound_yields hselector hc hlt hspells hblanks (by decide) (by decide)
          herror hrest fun d h₁ hrest₁ => ?_
        rw [if_pos rfl]
        refine (Yields.next h₁.ready (by decide) hrest₁).bind hrest₁ fun c₁ h₂ hrest₂ => ?_
        refine ((Yields.skipInlineBlanks h₂.ready hblanks' hrest₂ hargs.startsVisible.ends).bind
          hrest₂ fun c₂ h₃ _ => ?_).cast (List.append_nil _)
        exact Yields.pure h₃.ready _
      have hsplit : c.here.rest = text ++ (blanks ++ ',' :: blanks') ++ (rest' ++ ')' :: rest) := by
        simpa using hrest
      have hne : text ++ (blanks ++ ',' :: blanks') ≠ [] := by simp
      rw [show text ++ (blanks ++ ',' :: (blanks' ++ rest')) =
        text ++ (blanks ++ ',' :: blanks') ++ rest' by simp]
      refine Yields.rounds_again hc hround hne hsplit fun d h₁ hrest₁ => ?_
      rw [← h₁.offset] at hargs
      have hrounds := ih h₁.ready (Nat.lt_of_le_of_lt (h₁.remaining_le hc) hlt) hargs hrest₁
      simpa using hrounds

/-- A text that spells arguments is read as these arguments. -/
theorem callArguments_yields {args : List CallArgument} (hc : c.Ready) (hlt : c.remaining < limit)
    (hblanks : IsBlanks blanks)
    (h : SpellsArguments (c.offset + byteLength blanks) [] text args)
    (hrest : c.here.rest = blanks ++ (text ++ ')' :: rest)) :
    Yields (callArguments (callArgument selector)) c (blanks ++ text) args := by
  unfold callArguments
  refine (Yields.skipInlineBlanks hc hblanks hrest h.startsVisible.ends).bind hrest
    fun d h₁ hrest₁ => ?_
  rw [← h₁.offset] at h
  exact callArgumentRounds_yields hselector h₁.ready (Nat.lt_of_le_of_lt (h₁.remaining_le hc) hlt)
    h hrest₁

/-! ### Texts that are read as references -/

omit hselector in
/-- A name that nothing follows is read as a reference. -/
theorem referenceTail_none_yields {id : Identifier} (hc : c.Ready)
    (hend : Ends isReferenceChar c.here.rest.head?) :
    Yields (referenceTail (callArgument selector) id) c [] (.messageReference id) := by
  have hne : ∀ ch, isReferenceChar ch → isLineBreak ch = false → c.current ≠ some ch := by
    intro ch hch hbreak hcurrent
    rw [hend ch ((Cursor.current_eq_head? hbreak).1 hcurrent)] at hch
    cases hch
  unfold referenceTail
  refine Yields.current_bind rfl ?_
  split
  · next hdot => exact absurd hdot (hne _ (by decide) (by decide))
  · next hbracket => exact absurd hbracket (hne _ (by decide) (by decide))
  · next hopen => exact absurd hopen (hne _ (by decide) (by decide))
  · exact Yields.pure hc _

omit hselector in
/-- A name with a dot and another name is read as an attribute. -/
theorem referenceTail_field_yields {name field : List Char} (h : c.Takes name d)
    (hfield : IsName field) (hend : Ends isIdentifierChar rest.head?)
    (hrest : d.here.rest = '.' :: (field ++ rest)) :
    Yields (referenceTail (callArgument selector) (identifierAt c.offset name)) d ('.' :: field)
      (.attribute (identifierAt c.offset name)
        (identifierAt (c.offset + byteLength (name ++ ['.'])) field)
        (spanOf c.offset (name ++ '.' :: field))) := by
  unfold referenceTail
  refine Yields.current_bind (Cursor.current_of_cons (by decide) hrest) ?_
  refine (Yields.next h.ready (by decide) hrest).bind hrest fun c₁ h₁ hrest₁ => ?_
  refine ((identifier_yields h₁.ready hfield hrest₁ hend).bind hrest₁ fun c₂ h₂ _ => ?_).cast
    (List.append_nil _)
  have hspan := spanOf_merge c.offset name ['.'] field
  rw [h₁.offset_from h.offset]
  rw [List.singleton_append] at hspan
  rw [← hspan]
  exact Yields.pure h₂.ready _

omit hselector in
/-- A text that spells a key is read as that key, with the blanks around it. -/
theorem bracketedKey_yields {α : Type} {f : VariantKey → Parser α} {a : α} {key : VariantKey}
    {blanks' tail : List Char} (hc : c.Ready) (hblanks : IsBlanks blanks)
    (hkey : SpellsKey (c.offset + byteLength blanks) text key (blanks' ++ [']']).head?)
    (hblanks' : IsBlanks blanks')
    (hrest : c.here.rest = blanks ++ (text ++ (blanks' ++ ']' :: rest)))
    (hf : ∀ d, c.Takes (blanks ++ (text ++ (blanks' ++ [']']))) d → d.here.rest = rest →
      Yields (f key) d tail a) :
    Yields (do
        skipInlineBlanks
        let key ← variantKey
        skipInlineBlanks
        expectChar ']'
        f key) c (blanks ++ (text ++ (blanks' ++ ']' :: tail))) a := by
  have hnext : (blanks' ++ [']']).head? = (blanks' ++ ']' :: rest).head? :=
    head?_append_of_head? rfl
  refine (Yields.skipInlineBlanks hc hblanks hrest hkey.startsVisible.ends).bind hrest
    fun c₁ h₁ hrest₁ => ?_
  rw [← h₁.offset, hnext] at hkey
  refine (variantKey_yields h₁.ready hkey hrest₁).bind hrest₁ fun c₂ h₂ hrest₂ => ?_
  refine (Yields.skipInlineBlanks h₂.ready hblanks' hrest₂
    (Text.startsVisible_cons.2 (by decide)).ends).bind hrest₂ fun c₃ h₃ hrest₃ => ?_
  refine (Yields.expectChar h₃.ready (by decide) hrest₃).bind hrest₃ fun c₄ h₄ hrest₄ => ?_
  exact hf c₄ (h₁.trans (h₂.trans (h₃.trans h₄))) hrest₄

omit hselector in
/-- A name with a key in brackets is read as a variant of a term. -/
theorem referenceTail_variant_yields {name keyText blanks' : List Char} {key : VariantKey}
    (h : c.Takes ('-' :: name) d) (hblanks : IsBlanks blanks)
    (hkey : SpellsKey (c.offset + byteLength ('-' :: (name ++ '[' :: blanks))) keyText key
      (blanks' ++ [']']).head?) (hblanks' : IsBlanks blanks')
    (hrest : d.here.rest = '[' :: (blanks ++ (keyText ++ (blanks' ++ ']' :: rest)))) :
    Yields (referenceTail (callArgument selector) (identifierAt c.offset ('-' :: name))) d
      ('[' :: (blanks ++ (keyText ++ (blanks' ++ [']']))))
      (.variant (identifierAt c.offset ('-' :: name)) key
        (spanOf c.offset
          ('-' :: (name ++ '[' :: (blanks ++ (keyText ++ (blanks' ++ [']']))))))) := by
  have hterm : (identifierAt c.offset ('-' :: name)).isTerm := by
    simp [Identifier.isTerm, identifierAt]
  unfold referenceTail
  refine Yields.current_bind (Cursor.current_of_cons (by decide) hrest) ?_
  dsimp only
  rw [if_neg (by simp [hterm])]
  refine (Yields.next h.ready (by decide) hrest).bind hrest fun c₁ h₁ hrest₁ => ?_
  have hoffset : c.offset + byteLength ('-' :: (name ++ '[' :: blanks)) =
      c₁.offset + byteLength blanks := by
    rw [h₁.offset_from h.offset]
    simp [Text.byteLength_append, Nat.add_assoc]
  rw [hoffset] at hkey
  refine bracketedKey_yields h₁.ready hblanks hkey hblanks' hrest₁ fun c₂ h₂ _ => ?_
  have hall := h.trans (h₁.trans h₂)
  refine Yields.spanFrom_bind ?_
  rw [show (identifierAt c.offset ('-' :: name)).span.start = c.offset from rfl, hall.span_eq]
  exact Yields.pure h₂.ready _

/-- The name of a function with arguments in brackets is read as a call. -/
theorem referenceTail_call_yields {name : List Char} {args : List CallArgument}
    (h : c.Takes name d) (hlt : d.remaining < limit) (hcallee : isCalleeName (String.ofList name))
    (hblanks : IsBlanks blanks)
    (hargs : SpellsArguments (c.offset + byteLength (name ++ '(' :: blanks)) [] text args)
    (hrest : d.here.rest = '(' :: (blanks ++ (text ++ ')' :: rest))) :
    Yields (referenceTail (callArgument selector) (identifierAt c.offset name)) d
      ('(' :: (blanks ++ (text ++ [')'])))
      (.call (identifierAt c.offset name) args
        (spanOf c.offset (name ++ '(' :: (blanks ++ (text ++ [')']))))) := by
  have hcalled : ¬(!isCalleeName (identifierAt c.offset name).name) = true := by
    simp [identifierAt, hcallee]
  unfold referenceTail
  refine Yields.current_bind (Cursor.current_of_cons (by decide) hrest) ?_
  dsimp only
  rw [if_neg hcalled]
  refine (Yields.next h.ready (by decide) hrest).bind hrest fun c₁ h₁ hrest₁ => ?_
  have hoffset : c₁.offset + byteLength blanks = c.offset + byteLength (name ++ '(' :: blanks) := by
    rw [h₁.offset_from h.offset]
    simp [Text.byteLength_append, Nat.add_assoc]
  have hlt₁ := Nat.lt_of_le_of_lt (h₁.remaining_le h.ready) hlt
  have hread : c₁.here.rest = blanks ++ text ++ ')' :: rest := by simpa using hrest₁
  refine Yields.cast ?_ (List.append_assoc blanks text [')'])
  refine (callArguments_yields hselector h₁.ready hlt₁ hblanks (hoffset ▸ hargs) hrest₁).bind hread
    fun c₂ h₂ hrest₂ => ?_
  refine ((Yields.expectChar h₂.ready (by decide) hrest₂).bind hrest₂ fun c₃ h₃ _ => ?_).cast
    (List.append_nil _)
  have hall := h.trans (h₁.trans (h₂.trans h₃))
  refine Yields.spanFrom_bind ?_
  rw [show (identifierAt c.offset name).span.start = c.offset from rfl, hall.span_eq]
  simpa using Yields.pure h₃.ready _

omit hselector in
/-- A name is read first, and what follows it decides what it is read as. -/
theorem selectorBody_name_yields {name tail : List Char} (hc : c.Ready) (hname : IsEntryName name)
    (hend : Ends isIdentifierChar (tail ++ rest).head?)
    (hrest : c.here.rest = name ++ (tail ++ rest))
    (htail : ∀ d, c.Takes name d → d.here.rest = tail ++ rest →
      Yields (referenceTail (callArgument selector) (identifierAt c.offset name)) d tail
        expression) :
    Yields (selectorBody (callArgument selector)) c (name ++ tail) expression := by
  unfold selectorBody
  exact (literal_name_yields hc hname hend hrest).bind hrest fun d h₁ hrest₁ => htail d h₁ hrest₁

omit hselector in
/-- A literal that is no bare name is read as it is. -/
theorem selectorBody_literal_yields (h : Yields literal c text expression)
    (hrest : c.here.rest = text ++ rest) (hne : ∀ id, expression ≠ .messageReference id) :
    Yields (selectorBody (callArgument selector)) c text expression := by
  unfold selectorBody
  refine (h.bind hrest fun d h₁ _ => ?_).cast (List.append_nil _)
  split
  · next id => exact absurd rfl (hne id)
  · exact Yields.pure h₁.ready _

/-- A text that spells a selector is read as that selector. -/
theorem selectorBody_yields (hc : c.Ready) (hlt : c.remaining ≤ limit)
    (h : SpellsSelector c.offset text expression rest.head?) (hrest : c.here.rest = text ++ rest) :
    Yields (selectorBody (callArgument selector)) c text expression := by
  generalize hnext : rest.head? = next at h
  cases h with
  | string hquotes =>
    have hliteral := (literal_string_yields hc hquotes (by simpa using hrest)).1
    exact selectorBody_literal_yields hliteral hrest (by simp)
  | number hdigits =>
    have hliteral := (literal_number_yields hc (hnext ▸ hdigits) hrest).1
    exact selectorBody_literal_yields hliteral hrest (by simp)
  | var hname hend =>
    have hliteral := literal_variable_yields hc hname (hnext ▸ hend) hrest
    exact selectorBody_literal_yields hliteral hrest (by simp)
  | reference hname hend =>
    have hend : Ends isReferenceChar rest.head? := hnext ▸ hend
    rw [← List.append_nil text]
    refine selectorBody_name_yields hc hname (fun ch hch => ?_) hrest fun d h₁ hrest₁ => ?_
    · have hch := hend ch hch
      simp only [isReferenceChar, Bool.or_eq_false_iff] at hch
      exact hch.1.1.1
    · rw [List.nil_append] at hrest₁
      rw [List.append_nil]
      exact referenceTail_none_yields h₁.ready (hrest₁ ▸ hend)
  | field hname hfield hend =>
    rw [List.append_assoc] at hrest
    exact selectorBody_name_yields hc hname (Text.ends_some.2 (by decide)) hrest fun d h₁ hrest₁ =>
      referenceTail_field_yields h₁ hfield (hnext ▸ hend) hrest₁
  | @variant _ name blanks key keyText blanks' _ hname hblanks hkey hblanks' =>
    have hterm : IsEntryName ('-' :: name) := .inr ⟨name, hname, rfl⟩
    have hsplit : c.here.rest = '-' :: name ++
        ('[' :: (blanks ++ (keyText ++ (blanks' ++ [']']))) ++ rest) := by simpa using hrest
    exact selectorBody_name_yields hc hterm (Text.ends_some.2 (by decide)) hsplit
      fun d h₁ hrest₁ =>
        referenceTail_variant_yields h₁ hblanks hkey hblanks' (by simpa using hrest₁)
  | call hname hcallee hblanks hargs =>
    rw [List.append_assoc] at hrest
    refine selectorBody_name_yields hc hname (Text.ends_some.2 (by decide)) hrest
      fun d h₁ hrest₁ => ?_
    -- the callee has been taken, so the arguments are within the limit
    have hlt₁ := Nat.lt_of_lt_of_le (h₁.remaining_lt hc hname.ne_nil) hlt
    exact referenceTail_call_yields hselector h₁ hlt₁ hcallee hblanks hargs (by simpa using hrest₁)

end Selector

/-- What is spelled as a selector is read as one. -/
theorem selectorExpression_yields {text rest : List Char} (hc : c.Ready)
    (h : SpellsSelector c.offset text expression rest.head?) (hrest : c.here.rest = text ++ rest) :
    Yields selectorExpression c text expression :=
  nested_yields (S := fun c text expression => c.Ready ∧
      ∃ rest, SpellsSelector c.offset text expression rest.head? ∧ c.here.rest = text ++ rest)
    (fun _ _ _ _ hself ⟨hc, _, h, hrest⟩ =>
      selectorBody_yields (fun d text e rest hlt hd hspells hrest =>
        hself d text e hlt ⟨hd, rest, hspells, hrest⟩) hc (Nat.le_refl _) h hrest)
    ⟨hc, rest, h, hrest⟩

end Localization.Parser
