import Localization.Proofs.Bundle.Additions
import Localization.Proofs.Format.Frame
import Localization.Proofs.Resource.Locality
import Localization.Proofs.Resource.Subtrees

/-!
# Calling functions

A function that has been added to a bundle is called by its name, and it goes before a built-in one
of that name. The names that a function can have are not all names that can be written, though: a
`?` stands in no identifier, so a function with a `?` in its name is never called.

## Main definitions

* `Message.IsCall` — messages that are a single call without arguments
* `CallLayout` — the ways to write such a message
* `CallFunction.shown` — what the call shows

## Main statements

* `CallLayout.body` — however it is written, the call is read as one
* `Bundle.resolve_call` — the call shows what the function returns
* `Bundle.addFunction_callable` — a function can be called unless its name holds a `?`
-/

namespace Localization

open Text (Ends IsBlanks IsGap byteLength)

/-! ### The names of functions -/

/-- The name of a function can be written as an identifier unless it holds a `?`. -/
theorem isName_of_isCalleeName {name : String} (h : isCalleeName name)
    (hmark : '?' ∉ name.toList) : IsName name.toList := by
  have hletter : ∀ ch : Char, ch.isUpper → ch.isAlpha := fun ch hch =>
    Bool.or_eq_true_iff.2 (.inl hch)
  unfold isCalleeName at h
  cases hname : name.toList with
  | nil => simp [hname] at h
  | cons first more =>
    rw [hname] at h hmark
    simp only [Bool.and_eq_true, List.all_eq_true, Bool.or_eq_true, decide_eq_true_eq] at h
    refine ⟨first, more, hletter first h.1, fun ch hch => ?_, rfl⟩
    -- of the characters that the name of a function can have, only `?` cannot be written
    rcases h.2 ch hch with ((hupper | rfl) | rfl) | rfl
    · simp [isIdentifierChar, Char.isAlphanum, hletter ch hupper]
    · decide
    · exact absurd (List.mem_cons_of_mem first hch) hmark
    · decide

theorem IsName.not_mem_questionMark {name : List Char} (h : IsName name) : '?' ∉ name := by
  obtain ⟨first, more, hfirst, hmore, rfl⟩ := h
  intro hmem
  rcases List.mem_cons.1 hmem with rfl | hmem
  · exact absurd hfirst (by decide)
  · exact absurd (hmore '?' hmem) (by decide)

/-- No identifier holds a `?`. -/
theorem IsEntryName.not_mem_questionMark {name : List Char} (h : IsEntryName name) :
    '?' ∉ name := by
  rcases h with h | ⟨rest, h, rfl⟩
  · exact h.not_mem_questionMark
  · intro hmem
    rcases List.mem_cons.1 hmem with heq | hmem
    · cases heq
    · exact h.not_mem_questionMark hmem

theorem SpellsSelector.isEntryName_callee {start : Nat} {text : List Char} {callee : Identifier}
    {args : List CallArgument} {span : Span} {next : Option Char}
    (h : SpellsSelector start text (.call callee args span) next) :
    IsEntryName callee.name.toList := by
  cases h with
  | call hname _ _ _ =>
    rw [identifierAt, String.toList_ofList]
    exact hname

/-- What is called in a resource is called by an identifier. -/
theorem Resource.isEntryName_callee {source : String} {callee : Identifier}
    {args : List CallArgument} {span : Span}
    (h : .expression (.call callee args span) ∈ (Resource.parse source).subtrees) :
    IsEntryName callee.name.toList := by
  rcases spelled_of_mem_subtrees h with ⟨_, _, _, hselector⟩ | ⟨_, _, hplaceable⟩
  · exact hselector.isEntryName_callee
  · cases hplaceable with
    | selector _ hselector _ _ => exact hselector.isEntryName_callee

/-! ### Messages that are a call -/

/-- A message whose value is a single call without arguments. -/
def Message.IsCall (message : Message) (name : String) : Prop :=
  ∃ nameSpan callSpan placeableSpan span, message.value =
    some ⟨[.placeable (.call ⟨name, nameSpan⟩ [] callSpan) placeableSpan], span⟩

/-- How a message that is a single call is written: its identifier, and what stands around the
signs and the name of the function. -/
structure CallLayout where
  id : List Char
  beforeEquals : List Char
  lead : List Char
  beforeName : List Char
  betweenParentheses : List Char
  behindCall : List Char
  behindBrace : List Char
  isName_id : IsName id
  isBlanks_beforeEquals : IsBlanks beforeEquals
  isLead_lead : IsLead lead ['{']
  isBlanks_beforeName : IsBlanks beforeName
  isBlanks_betweenParentheses : IsBlanks betweenParentheses
  isBlanks_behindCall : IsBlanks behindCall
  isBlanks_behindBrace : IsBlanks behindBrace

/-- A call that is written with single spaces. -/
def CallLayout.spaced (id : List Char) (hid : IsName id) : CallLayout where
  id := id
  beforeEquals := [' ']
  lead := [' ']
  beforeName := [' ']
  betweenParentheses := []
  behindCall := [' ']
  behindBrace := []
  isName_id := hid
  isBlanks_beforeEquals := Text.isBlanks_space
  isLead_lead := .inline Text.isBlanks_space (by decide)
  isBlanks_beforeName := Text.isBlanks_space
  isBlanks_betweenParentheses := Text.isBlanks_nil
  isBlanks_behindCall := Text.isBlanks_space
  isBlanks_behindBrace := Text.isBlanks_nil

namespace Text.IsBlanks

variable {blanks : List Char}

theorem spellsText (h : IsBlanks blanks) : SpellsText blanks blanks none := by
  induction blanks with
  | nil => exact .stop (by simp)
  | cons ch blanks ih =>
    obtain ⟨hch, hrest⟩ := Text.isBlanks_cons.1 h
    rcases Text.isInlineBlank_iff.1 hch with rfl | rfl
    · exact .plain (by decide) (by decide) (by decide) (ih hrest)
    · exact .plain (by decide) (by decide) (by decide) (ih hrest)

/-- Blanks are spelled as a text, of which nothing is left at the end of a pattern. -/
theorem exists_elements (h : IsBlanks blanks) (start : Nat) :
    ∃ elements, SpellsElements start blanks elements ∧
      Parser.trimLast elements.reverse = [] := by
  by_cases hnil : blanks = []
  · exact ⟨[], hnil ▸ .nil, rfl⟩
  · have htext : SpellsElements start (blanks ++ [])
        [.text (String.ofList ([] ++ blanks)) (spanOf start ([] ++ blanks))] :=
      .text hnil h.spellsText .nil
    rw [List.append_nil] at htext
    exact ⟨_, htext, trimLast_text h (by simp [Ends]) fun _ => rfl⟩

end Text.IsBlanks

namespace CallLayout

variable (layout : CallLayout) (name : List Char)

/-- The call in its braces, with the blanks behind them. -/
def pattern : List Char :=
  '{' :: (layout.beforeName ++ (name ++ '(' :: (layout.betweenParentheses ++ [')']) ++
    layout.behindCall) ++ '}' :: layout.behindBrace)

/-- The message up to its attributes. -/
def text : List Char :=
  layout.id ++ (layout.beforeEquals ++ '=' :: (layout.lead ++ layout.pattern name))

variable {name} {attributesText gap : List Char} {attributes : List Attribute}

theorem spellsPattern (layout : CallLayout) (start : Nat) (hname : IsName name)
    (hcallee : isCalleeName (String.ofList name)) :
    ∃ nameSpan callSpan placeableSpan span, SpellsPattern start (layout.pattern name)
      ⟨[.placeable (.call ⟨String.ofList name, nameSpan⟩ [] callSpan) placeableSpan], span⟩ := by
  -- from the inside out, up to the blanks that the pattern loses at its end
  obtain ⟨elements, helements, htrim⟩ := layout.isBlanks_behindBrace.exists_elements
    (start + byteLength ('{' :: (layout.beforeName ++ (name ++ '(' ::
      (layout.betweenParentheses ++ [')']) ++ layout.behindCall) ++ ['}'])))
  have hcall : SpellsSelector (start + 1 + byteLength layout.beforeName)
      (name ++ '(' :: (layout.betweenParentheses ++ [')'])) _ (layout.behindCall ++ ['}']).head? :=
    .call (.inl hname) hcallee layout.isBlanks_betweenParentheses .nil
  have hplaceable : SpellsPlaceable (start + 1) (layout.beforeName ++ (name ++ '(' ::
      (layout.betweenParentheses ++ [')']) ++ layout.behindCall)) _ :=
    .selector layout.isBlanks_beforeName hcall layout.isBlanks_behindCall rfl
  have hpattern := SpellsPattern.mk (SpellsElements.placeable hplaceable helements)
  rw [List.reverse_cons, trimLast_append_placeable, htrim] at hpattern
  exact ⟨_, _, _, _, hpattern⟩

theorem isLead_pattern (layout : CallLayout) (name : List Char) :
    IsLead layout.lead (layout.pattern name) := by
  have hlead := layout.isLead_lead
  generalize layout.lead = lead at hlead
  cases hlead with
  | inline hblanks hvisible => exact .inline hblanks hvisible
  | indent hblanks hgap hvisible hends => exact .indent hblanks hgap hvisible hends

/-- However it is written, the text spells a call. -/
theorem spellsMessage (layout : CallLayout) (hname : IsName name)
    (hcallee : isCalleeName (String.ofList name))
    (hattributes : SpellsAttributes (byteLength (layout.text name)) attributesText attributes) :
    ∃ message : Message, SpellsMessage 0 (layout.text name ++ attributesText) message ∧
      message.id.name = String.ofList layout.id ∧ message.attributes = attributes ∧
      message.IsCall (String.ofList name) := by
  obtain ⟨nameSpan, callSpan, placeableSpan, span, hpattern⟩ :=
    layout.spellsPattern (byteLength (layout.id ++ (layout.beforeEquals ++ ['='])) +
      byteLength layout.lead) hname hcallee
  have hvalue := SpellsValue.some (layout.isLead_pattern name) hpattern
  rw [← Nat.zero_add (byteLength (layout.id ++ _))] at hvalue
  rw [← Nat.zero_add (byteLength _)] at hattributes
  have hmessage := SpellsMessage.mk (.inl layout.isName_id) layout.isBlanks_beforeEquals hvalue
    hattributes (Bool.and_false _) (Bool.false_and _)
  rw [show layout.text name ++ attributesText = layout.id ++ (layout.beforeEquals ++
    '=' :: (layout.lead ++ layout.pattern name ++ attributesText)) by simp [text]]
  exact ⟨_, hmessage, rfl, rfl, nameSpan, callSpan, placeableSpan, span, rfl⟩

/-- However it is written, the call is read as one. -/
theorem body (layout : CallLayout) (hname : IsName name)
    (hcallee : isCalleeName (String.ofList name))
    (hattributes : SpellsAttributes (byteLength (layout.text name)) attributesText attributes)
    (hgap : IsGap gap) (hends : LineEnds gap) :
    ∃ message : Message,
      (Resource.read (layout.text name ++ attributesText ++ gap)).body = [.message message] ∧
      message.id.name = String.ofList layout.id ∧ message.attributes = attributes ∧
      message.IsCall (String.ofList name) := by
  obtain ⟨message, hspells, hid, hmessage⟩ := layout.spellsMessage hname hcallee hattributes
  have hterm : message.isTerm = false := by
    rw [Message.isTerm, Identifier.isTerm, hid]
    exact @IsName.isTerm 0 _ layout.isName_id
  have hentry : SpellsEntry 0 (layout.text name ++ attributesText) _ [] :=
    .message hspells (.inl rfl) rfl
  rw [hterm] at hentry
  obtain ⟨touches, hentries⟩ := (Cursor.starts_atStart _).takeEntries_of_spells
    (hentry.of_gap hgap hends) rfl hgap hends
  refine ⟨message, ?_, hid, hmessage⟩
  rw [Resource.body_read (hentry.hasContent.append gap), hentries, attachComments_singleton]
  rfl

end CallLayout

/-! ### What a call shows -/

namespace CallFunction

variable (function : CallFunction) (name : String)

/-- The value of a call without arguments, and the error if the function fails. -/
def result : Value × List ResolveError :=
  match function [] .empty with
  | .ok value => (value, [])
  | .error error => (Resolver.callFallback name, [error])

/-- What is shown of a call without arguments, cut to a length, with the errors. -/
def shown (limit : Nat) : String × List ResolveError :=
  let (value, errors) := function.result name
  let text := value.format.toList
  (String.ofList (text.take limit),
    errors ++ if limit < text.length then [.tooLong text.length limit] else [])

end CallFunction

namespace Resolver

variable {env : Environment} {name : String} {function : CallFunction} {V : List Site}

theorem outcome_apply :
    outcome (apply name function [] .empty) V = function.result name := by
  unfold apply CallFunction.result
  cases function [] .empty with
  | ok value => rfl
  | error error => rfl

/-- A pattern that is a single call shows what the function returns. -/
theorem run_formatPattern_call (hfunction : env.store.functions.get? name = some function)
    {nameSpan callSpan placeableSpan span : Span} (site : Site) :
    run (env.formatPattern
      ⟨[.placeable (.call ⟨name, nameSpan⟩ [] callSpan) placeableSpan], span⟩ site) =
      function.shown name env.options.maxLength := by
  have hfound : env.function? name = some function := by
    rw [Environment.function?, hfunction, Option.some_or]
  have helements : ∀ enter, elements env enter false site
      [.placeable (.call ⟨name, nameSpan⟩ [] callSpan) placeableSpan] 0 = (do
        let value ← apply name function [] .empty
        cut env value.format.toList) := by
    intro enter
    simp only [elements, expression, hfound, arguments, pure_bind, isolate, Bool.false_eq_true,
      if_false, List.append_nil, bind_pure]
  have hshown : ∀ V, outcome (do
        let value ← apply name function [] .empty
        cut env value.format.toList) V =
      ((function.shown name env.options.maxLength).1.toList,
        (function.shown name env.options.maxLength).2) := by
    intro V
    rw [(apply_tidy name function [] .empty).outcome_bind fun _ => cut_tidy _, outcome_apply,
      outcome_cut, CallFunction.shown, String.toList_ofList]
  -- there is room for this pattern at least
  have hroom : env.store.patternCount + Pattern.patternCount
      ⟨[.placeable (.call ⟨name, nameSpan⟩ [] callSpan) placeableSpan], span⟩ =
        env.store.patternCount + 1 := rfl
  rw [run_eq_outcome, Environment.formatPattern, hroom]
  rw [(pattern_tidy _ _ _).outcome_map, outcome_pattern]
  simp only [contribution, helements, hshown, Pattern.simpleText?, List.not_mem_nil, if_false,
    List.length_singleton, Nat.lt_irrefl, decide_false, Bool.and_false, List.zipIdx_singleton,
    List.map_singleton, List.flatMap_singleton, String.ofList_toList]
  rfl

end Resolver

namespace Bundle

variable {b : Bundle} {name : String} {function : CallFunction} {message : Message}

theorem addFunction_eq_none (hadd : (b.addFunction name function).2 = none) :
    isCalleeName name ∧
      (b.addFunction name function).1.store.functions.get? name = some function := by
  unfold addFunction at hadd ⊢
  split at hadd
  · cases hadd
  · split at hadd
    · cases hadd
    · next hcallee hfree =>
      rw [if_neg hcallee, if_neg hfree, Bindings.get?_set, if_pos rfl]
      exact ⟨by simpa using hcallee, rfl⟩

/-- A message that is a single call shows what the function returns. -/
theorem resolve_call (hfunction : b.store.functions.get? name = some function)
    (hmessage : message.IsCall name) (root : Root) (args : Option Arguments) :
    b.resolve message root args = function.shown name b.options.maxLength := by
  obtain ⟨nameSpan, callSpan, placeableSpan, span, hvalue⟩ := hmessage
  unfold resolve Environment.formatMessage
  rw [hvalue]
  exact Resolver.run_formatPattern_call hfunction _

/-- A source that is a single message adds it, unless its identifier is taken. -/
theorem addMessages_singleton {source : String}
    (hbody : (Resource.parse source).body = [.message message])
    (hfree : b.hasMessage message.id.name = false) :
    (b.addMessages source).2 = [] ∧
      (b.addMessages source).1.message? message.id.name = some message := by
  unfold hasMessage at hfree
  have hdiagnostics : (Resource.parse source).diagnostics = [] := by
    rw [Resource.diagnostics, Resource.junk, hbody]
    rfl
  have hadded : b.addResource (Resource.parse source) =
      ({ b with store.messages := b.store.messages.set message.id.name message }, []) := by
    rw [addResource, hbody]
    simp only [addEntries, addEntry, hfree, Bool.false_eq_true, if_false]
    rfl
  rw [addMessages, hdiagnostics, hadded]
  exact ⟨rfl, by rw [message?, Bindings.get?_set, if_pos rfl]⟩

theorem formatMessage_call (hfunction : b.store.functions.get? name = some function)
    (hmessage : message.IsCall name) {id : String} (hfound : b.message? id = some message)
    (args : Option Arguments) :
    b.formatMessage id args = some (function.shown name b.options.maxLength) := by
  obtain ⟨nameSpan, callSpan, placeableSpan, span, hvalue⟩ := hmessage
  unfold formatMessage
  simp only [hfound, hvalue, Option.bind_eq_bind, Option.bind_some]
  exact congrArg some (Resolver.run_formatPattern_call hfunction _)

/-- A function can be called unless its name holds a `?`: however a message that is a call is
written, it is read as one if it fits, and shows what the function returns. A name that holds a `?`
is called nowhere. -/
theorem addFunction_callable (b : Bundle) (name : String) (function : CallFunction)
    (hadd : (b.addFunction name function).2 = none) (additions : List Addition) :
    let filled := (b.addFunction name function).1.addAll additions
    ('?' ∉ name.toList → ∀ (layout : CallLayout) (attributesText : List Char)
      (attributes : List Attribute) (gap : List Char),
      SpellsAttributes (byteLength (layout.text name.toList)) attributesText attributes →
      IsGap gap → LineEnds gap →
      let source := String.ofList (layout.text name.toList ++ attributesText ++ gap)
      Cursor.Fits source.toList →
      ∃ message : Message, (Resource.parse source).body = [.message message] ∧
        message.id.name = String.ofList layout.id ∧ message.attributes = attributes ∧
        message.IsCall name ∧
        (∀ root args,
          filled.resolve message root args = function.shown name filled.options.maxLength) ∧
        (filled.hasMessage message.id.name = false → (filled.addMessages source).2 = [] ∧
          ∀ args, (filled.addMessages source).1.formatMessage message.id.name args =
            some (function.shown name filled.options.maxLength))) ∧
    ('?' ∈ name.toList → ∀ (source : String) (callee : Identifier) (args : List CallArgument)
      (span : Span), .expression (.call callee args span) ∈ (Resource.parse source).subtrees →
      callee.name ≠ name) := by
  intro filled
  obtain ⟨hcallee, hadded⟩ := addFunction_eq_none hadd
  have hfilled : Extends (b.addFunction name function).1 filled := addAll_extends _ additions
  have hfunction : filled.store.functions.get? name = some function := by
    rw [hfilled.functions, hadded]
  refine ⟨fun hmark layout attributesText attributes gap hattributes hgap hends => ?_,
    fun hmark source callee args span hcall => ?_⟩
  · have hsame : String.ofList name.toList = name := String.ofList_toList
    obtain ⟨message, hbody, hid, hattributes, hmessage⟩ := layout.body
      (isName_of_isCalleeName hcallee hmark) (by rwa [hsame]) hattributes hgap hends
    rw [hsame] at hmessage
    intro source hfits
    have hparse : (Resource.parse source).body = [.message message] := by
      rw [Resource.parse, Resource.ofText_of_fits hfits, String.toList_ofList, hbody]
    refine ⟨message, hparse, hid, hattributes, hmessage,
      fun root args => resolve_call hfunction hmessage root args, fun hfree => ?_⟩
    obtain ⟨hreport, hfound⟩ := addMessages_singleton hparse hfree
    -- the message is added behind the function, which stays
    have hextends : Extends filled (filled.addMessages source).1 :=
      add_extends filled (.source source)
    refine ⟨hreport, fun args => ?_⟩
    rw [← hextends.options]
    exact formatMessage_call (by rw [hextends.functions, hfunction]) hmessage hfound args
  · rintro rfl
    exact (Resource.isEntryName_callee hcall).not_mem_questionMark hmark

/-- A function of the name of a built-in one is called in its place. -/
theorem addFunction_callable_number :
    let function : CallFunction := fun _ _ => .ok (.string "n")
    let b := ((empty ["en-US"]).addFunction "NUMBER" function).1
    ((empty ["en-US"]).addFunction "NUMBER" function).2 = none ∧
      (b.addMessages "n = { NUMBER() }\n").2 = [] ∧
      (b.addMessages "n = { NUMBER() }\n").1.formatMessage "n" none = some ("n", []) := by
  intro function b
  have hid : IsName ['n'] := ⟨'n', [], by decide, by simp, rfl⟩
  have hadd : ((empty ["en-US"]).addFunction "NUMBER" function).2 = none := rfl
  have hfits : Cursor.Fits "n = \x7b NUMBER() \x7d\n".toList := by decide
  obtain ⟨message, -, hname, -, -, -, hformat⟩ :=
    (addFunction_callable (empty ["en-US"]) "NUMBER" function hadd []).1 (by decide)
      (.spaced ['n'] hid) [] [] ['\n'] .nil (Text.isGap_cons.2 ⟨rfl, Text.isGap_nil⟩)
      (lineEnds_iff.2 (.inr (Text.startsBreak_cons.2 rfl))) hfits
  rw [hname] at hformat
  obtain ⟨hreport, hformat⟩ := hformat rfl
  exact ⟨hadd, hreport, hformat none⟩

/-- A function with a `?` in its name is added, but a call of it cannot be read. -/
theorem addFunction_questionMark :
    let function : CallFunction := fun _ _ => .ok (.string "ok")
    let b := ((empty ["en-US"]).addFunction "IS-OK?" function).1
    ((empty ["en-US"]).addFunction "IS-OK?" function).2 = none ∧
      (Resource.parse "a = { IS-OK?() }\n").hasJunk = true ∧
      (b.addMessages "a = { IS-OK?() }\n").1.formatMessage "a" none = none := by
  refine ⟨rfl, ?_, ?_⟩
  · decide +kernel
  · decide +kernel

end Bundle

end Localization
