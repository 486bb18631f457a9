import Localization.Proofs.Resource.Answers
import Localization.Resource.Grammar.Entry

/-!
# How trees are spelled

The grammar of a resource as a relation between texts and trees: which text, starting at which
offset, spells which tree. What follows a text enters by its first character only, as the character
that must not go on with it. The lookahead of the parser does not appear: where it decides that a
construct goes on, the text of that construct shows it.

## Main definitions

* `IsName`, `IsNumber`, `Quotes` — names, numbers and quoted texts
* `SpellsKey`, `SpellsSelector`, `SpellsArguments` — keys, selectors and arguments
* `SpellsText`, `SpellsElements`, `SpellsPlaceable`, `SpellsVariants` — patterns
* `SpellsMessage` — messages and terms
-/

namespace Localization

open Text (Ends IsBlanks IsEnding IsGap IsIndent StartsBreak StartsVisible byteLength isVisible)

/-- The identifier of a name that starts at an offset. -/
def identifierAt (start : Nat) (name : List Char) : Identifier :=
  ⟨String.ofList name, spanOf start name⟩

/-- The spans of two texts merge to the span of both with what stands between them. -/
theorem spanOf_merge (start : Nat) (first between second : List Char) :
    (spanOf start first).merge (spanOf (start + byteLength (first ++ between)) second) =
      spanOf start (first ++ (between ++ second)) := by
  simp only [Span.merge, spanOf, Text.byteLength_append, Span.mk.injEq]
  omega

/-! ### Names, numbers and quoted texts -/

/-- A letter and identifier characters. -/
def IsName (name : List Char) : Prop :=
  ∃ first more, isIdentifierStart first ∧ (∀ ch ∈ more, isIdentifierChar ch) ∧
    name = first :: more

/-- A name, or a minus sign and a name. -/
def IsEntryName (name : List Char) : Prop :=
  IsName name ∨ ∃ rest, IsName rest ∧ name = '-' :: rest

/-- One or more digits. -/
def IsDigits (digits : List Char) : Prop := digits ≠ [] ∧ ∀ ch ∈ digits, ch.isDigit

/-- A number as it is written, and the character behind it. -/
inductive SpellsNumber : List Char → Option Char → Prop
  | whole {sign digits next} : sign = [] ∨ sign = ['-'] → IsDigits digits →
      Ends (fun ch => ch.isDigit || ch = '.') next → SpellsNumber (sign ++ digits) next
  | fraction {sign digits places next} : sign = [] ∨ sign = ['-'] → IsDigits digits →
      IsDigits places → Ends Char.isDigit next →
      SpellsNumber (sign ++ (digits ++ '.' :: places)) next

/-- The text between quotes and the value that it stands for. -/
inductive Quotes : List Char → List Char → Prop
  | nil : Quotes [] []
  | plain {ch body value} : ch ≠ '"' → ch ≠ '\\' → isLineBreak ch = false → Quotes body value →
      Quotes (ch :: body) (ch :: value)
  | pair {ch body value} : ch = '"' ∨ ch = '\\' → Quotes body value →
      Quotes ('\\' :: ch :: body) (ch :: value)
  | unicode {digits ch body value} : (∀ d ∈ digits, isHexDigit d) →
      Parser.charOfHex? digits = some ch → Quotes body value →
      Quotes ('\\' :: 'u' :: (digits ++ body)) (ch :: value)
  | slash {ch body value} : ch ≠ '"' → ch ≠ '\\' → ch ≠ 'u' → Quotes (ch :: body) value →
      Quotes ('\\' :: ch :: body) ('\\' :: value)

/-- The key of a variant; blanks behind a name belong to its text. -/
inductive SpellsKey : Nat → List Char → VariantKey → Option Char → Prop
  | number {start digits next} : SpellsNumber digits next →
      SpellsKey start digits (.number (String.ofList digits) (spanOf start digits)) next
  | name {start first more spaces next} : isIdentifierStart first →
      (∀ ch ∈ more, isVariantNameChar ch) → (first :: more).getLast? ≠ some ' ' →
      (∀ ch ∈ spaces, ch = ' ') → Ends isVariantNameChar next →
      SpellsKey start (first :: more ++ spaces)
        (.name (String.ofList (first :: more)) (spanOf start (first :: more))) next

/-! ### Selectors -/

/-- Whether an expression is a quoted text or a number. -/
def isLiteral : Expression → Bool
  | .stringLiteral _ _ => true
  | .numberLiteral _ _ => true
  | _ => false

/-- Characters that go on with the reference to a message or a term. -/
def isReferenceChar (ch : Char) : Bool :=
  isIdentifierChar ch || ch = '.' || ch = '[' || ch = '('

mutual

/-- The expressions without variants. -/
inductive SpellsSelector : Nat → List Char → Expression → Option Char → Prop
  | string {start body value next} : Quotes body value →
      SpellsSelector start ('"' :: (body ++ ['"']))
        (.stringLiteral (String.ofList value) (spanOf start ('"' :: (body ++ ['"'])))) next
  | number {start digits next} : SpellsNumber digits next →
      SpellsSelector start digits
        (.numberLiteral (String.ofList digits) (spanOf start digits)) next
  | var {start name next} : IsName name → Ends isIdentifierChar next →
      SpellsSelector start ('$' :: name)
        (.variableReference (identifierAt (start + 1) name) (spanOf start ('$' :: name))) next
  | reference {start name next} : IsEntryName name → Ends isReferenceChar next →
      SpellsSelector start name (.messageReference (identifierAt start name)) next
  | field {start name field next} : IsEntryName name → IsName field →
      Ends isIdentifierChar next →
      SpellsSelector start (name ++ '.' :: field)
        (.attribute (identifierAt start name)
          (identifierAt (start + byteLength (name ++ ['.'])) field)
          (spanOf start (name ++ '.' :: field))) next
  | variant {start name blanks key keyText blanks' next} : IsName name → IsBlanks blanks →
      SpellsKey (start + byteLength ('-' :: (name ++ '[' :: blanks))) keyText key
        (blanks' ++ [']']).head? → IsBlanks blanks' →
      SpellsSelector start ('-' :: (name ++ '[' :: (blanks ++ (keyText ++ (blanks' ++ [']'])))))
        (.variant (identifierAt start ('-' :: name)) key
          (spanOf start
            ('-' :: (name ++ '[' :: (blanks ++ (keyText ++ (blanks' ++ [']']))))))) next
  | call {start name blanks text args next} : IsEntryName name →
      isCalleeName (String.ofList name) → IsBlanks blanks →
      SpellsArguments (start + byteLength (name ++ '(' :: blanks)) [] text args →
      SpellsSelector start (name ++ '(' :: (blanks ++ (text ++ [')'])))
        (.call (identifierAt start name) args
          (spanOf start (name ++ '(' :: (blanks ++ (text ++ [')']))))) next

/-- The arguments of a call behind given ones, up to the closing parenthesis. -/
inductive SpellsArguments : Nat → List CallArgument → List Char → List CallArgument → Prop
  | nil {start before} : SpellsArguments start before [] []
  | last {start before text argument blanks} :
      SpellsArgument start text argument (blanks ++ [')']).head? → IsBlanks blanks →
      Parser.argumentError? before argument = none →
      SpellsArguments start before (text ++ blanks) [argument]
  | more {start before text argument blanks blanks' rest args} :
      SpellsArgument start text argument (blanks ++ [',']).head? → IsBlanks blanks →
      Parser.argumentError? before argument = none → IsBlanks blanks' →
      SpellsArguments (start + byteLength (text ++ (blanks ++ ',' :: blanks')))
        (argument :: before) rest args →
      SpellsArguments start before (text ++ (blanks ++ ',' :: (blanks' ++ rest)))
        (argument :: args)

/-- An argument of a call. -/
inductive SpellsArgument : Nat → List Char → CallArgument → Option Char → Prop
  | positional {start text value next} : SpellsSelector start text value next →
      SpellsArgument start text (.positional value) next
  | named {start name blanks blanks' text value next} : IsName name → IsBlanks blanks →
      IsBlanks blanks' → isLiteral value →
      SpellsSelector (start + byteLength (name ++ (blanks ++ ':' :: blanks'))) text value next →
      SpellsArgument start (name ++ (blanks ++ ':' :: (blanks' ++ text)))
        (.named (identifierAt start name) value
          (spanOf start (name ++ (blanks ++ ':' :: (blanks' ++ text))))) next

end

/-! ### Patterns -/

/-- A run of text, its value, and the character of the pattern behind it. -/
inductive SpellsText : List Char → List Char → Option Char → Prop
  | stop {next} : (∀ ch ∈ next, ch = '{') → SpellsText [] [] next
  | plain {ch raw value next} : ch ≠ '{' → ch ≠ '\\' → isLineBreak ch = false →
      SpellsText raw value next → SpellsText (ch :: raw) (ch :: value) next
  | escape {ch raw value next} : ch = '{' ∨ ch = '"' → SpellsText raw value next →
      SpellsText ('\\' :: ch :: raw) (ch :: value) next
  | slash {raw value next} : (∀ ch ∈ raw.head?.or next, ch ≠ '{' ∧ ch ≠ '"') →
      SpellsText raw value next → SpellsText ('\\' :: raw) ('\\' :: value) next
  | blankLine {ending blanks raw value next} : IsEnding ending →
      (ending = ['\r'] → (blanks ++ raw).head? ≠ some '\n') → IsBlanks blanks →
      StartsBreak raw → SpellsText raw value next →
      SpellsText (ending ++ (blanks ++ raw)) ('\n' :: value) next
  | indent {ending blanks raw value next} : IsEnding ending → IsBlanks blanks → blanks ≠ [] →
      (∃ ch ∈ raw.head?.or next, isVisible ch ∧ Cursor.endsPattern ch = false) →
      SpellsText raw value next → SpellsText (ending ++ (blanks ++ raw)) ('\n' :: value) next

/-- What stands between the start of a value and its pattern: blanks on the line, or an indent. -/
inductive IsLead : List Char → List Char → Prop
  | inline {blanks ch rest} : IsBlanks blanks → isVisible ch → IsLead blanks (ch :: rest)
  | indent {blanks gap ch rest} : IsBlanks blanks → IsIndent gap → isVisible ch →
      Cursor.endsPattern ch = false → IsLead (blanks ++ gap) (ch :: rest)

mutual

/-- The pattern of a text; the blanks at its end belong to the text only. -/
inductive SpellsPattern : Nat → List Char → Pattern → Prop
  | mk {start text elements} : SpellsElements start text elements →
      SpellsPattern start text (Parser.assemble start (Parser.trimLast elements.reverse))

/-- The elements of a pattern, with all their blanks. -/
inductive SpellsElements : Nat → List Char → List PatternElement → Prop
  | nil {start} : SpellsElements start [] []
  | text {start raw value rest elements} : raw ≠ [] → SpellsText raw value rest.head? →
      SpellsElements (start + byteLength raw) rest elements →
      SpellsElements start (raw ++ rest)
        (.text (String.ofList value) (spanOf start raw) :: elements)
  | placeable {start inner expression rest elements} :
      SpellsPlaceable (start + 1) inner expression →
      SpellsElements (start + byteLength ('{' :: (inner ++ ['}']))) rest elements →
      SpellsElements start ('{' :: (inner ++ '}' :: rest))
        (.placeable expression (spanOf start ('{' :: (inner ++ ['}']))) :: elements)

/-- What stands between the braces of a placeable. -/
inductive SpellsPlaceable : Nat → List Char → Expression → Prop
  | selector {start blanks text expression blanks'} : IsBlanks blanks →
      SpellsSelector (start + byteLength blanks) text expression (blanks' ++ ['}']).head? →
      IsBlanks blanks' → Parser.isTermAttribute expression = false →
      SpellsPlaceable start (blanks ++ (text ++ blanks')) expression
  | choice {start blanks text selector blanks' blanks'' variantsText variants defaultIndex gap} :
      IsBlanks blanks →
      SpellsSelector (start + byteLength blanks) text selector (blanks' ++ ['-']).head? →
      IsBlanks blanks' → Parser.selectorError? selector = none → IsBlanks blanks'' →
      SpellsVariants
        (start + byteLength (blanks ++ (text ++ (blanks' ++ '-' :: '>' :: blanks''))))
        variantsText 0 none variants defaultIndex →
      IsGap gap → StartsBreak gap →
      SpellsPlaceable start
        (blanks ++ (text ++ (blanks' ++ '-' :: '>' :: (blanks'' ++ (variantsText ++ gap)))))
        (.select (some selector) variants defaultIndex
          ⟨selector.span.start, start + byteLength (blanks ++ (text ++
            (blanks' ++ '-' :: '>' :: (blanks'' ++ (variantsText ++ gap)))))⟩)
  | bare {start blanks variantsText variants defaultIndex gap} : IsBlanks blanks →
      SpellsVariants (start + byteLength blanks) variantsText 0 none variants defaultIndex →
      IsGap gap → StartsBreak gap →
      SpellsPlaceable start (blanks ++ (variantsText ++ gap))
        (.select none variants defaultIndex (spanOf start (blanks ++ (variantsText ++ gap))))

/-- Variants behind a number of others, each on a line of its own, and the index of the default. -/
inductive SpellsVariants :
    Nat → List Char → Nat → Option Nat → List Variant → Nat → Prop
  | last {start gap text count default? variant defaultIndex} : IsIndent gap →
      SpellsVariant (start + byteLength gap) text default?.isSome variant →
      (if variant.isDefault then some count else default?) = some defaultIndex →
      SpellsVariants start (gap ++ text) count default? [variant] defaultIndex
  | more {start gap text rest count default? variant variants defaultIndex} : IsIndent gap →
      SpellsVariant (start + byteLength gap) text default?.isSome variant →
      SpellsVariants (start + byteLength (gap ++ text)) rest (count + 1)
        (if variant.isDefault then some count else default?) variants defaultIndex →
      SpellsVariants start (gap ++ (text ++ rest)) count default? (variant :: variants)
        defaultIndex

/-- A variant, from its star or bracket on. -/
inductive SpellsVariant : Nat → List Char → Bool → Variant → Prop
  | mk {start : Nat} {isDefault hasDefault : Bool}
      {star blanks key keyText blanks' lead text value} :
      (isDefault → hasDefault = false) → star = (if isDefault then ['*'] else []) →
      IsBlanks blanks →
      SpellsKey (start + byteLength (star ++ '[' :: blanks)) keyText key
        (blanks' ++ [']']).head? → IsBlanks blanks' → IsLead lead text →
      SpellsPattern
        (start + byteLength (star ++ '[' :: (blanks ++ (keyText ++ (blanks' ++ ']' :: lead)))))
        text value →
      SpellsVariant start
        (star ++ '[' :: (blanks ++ (keyText ++ (blanks' ++ ']' :: (lead ++ text))))) hasDefault
        ⟨key, value, isDefault, ⟨start, value.span.stop⟩⟩

end

/-! ### Messages and terms -/

/-- An attribute, from its dot on. -/
inductive SpellsAttribute : Nat → List Char → Attribute → Prop
  | mk {start name blanks lead text value} : IsName name → IsBlanks blanks → IsLead lead text →
      SpellsPattern (start + byteLength ('.' :: (name ++ (blanks ++ '=' :: lead)))) text value →
      SpellsAttribute start ('.' :: (name ++ (blanks ++ '=' :: (lead ++ text))))
        ⟨identifierAt (start + 1) name, value, ⟨start, value.span.stop⟩⟩

/-- Attributes, each on a line of its own. -/
inductive SpellsAttributes : Nat → List Char → List Attribute → Prop
  | nil {start} : SpellsAttributes start [] []
  | cons {start gap text named rest attributes} : IsIndent gap →
      SpellsAttribute (start + byteLength gap) text named →
      SpellsAttributes (start + byteLength (gap ++ text)) rest attributes →
      SpellsAttributes start (gap ++ (text ++ rest)) (named :: attributes)

/-- The value of a message, from behind its `=`, or the blanks there. -/
inductive SpellsValue : Nat → List Char → Option Pattern → Prop
  | none {start blanks} : IsBlanks blanks → SpellsValue start blanks none
  | some {start lead text value} : IsLead lead text →
      SpellsPattern (start + byteLength lead) text value →
      SpellsValue start (lead ++ text) (some value)

/-- A message or a term; a term has a value, and a message a value or an attribute. -/
inductive SpellsMessage : Nat → List Char → Message → Prop
  | mk {start name blanks valueText value attributesText attributes} : IsEntryName name →
      IsBlanks blanks →
      SpellsValue (start + byteLength (name ++ (blanks ++ ['=']))) valueText value →
      SpellsAttributes (start + byteLength (name ++ (blanks ++ '=' :: valueText))) attributesText
        attributes →
      ((identifierAt start name).isTerm && value.isNone) = false →
      (value.isNone && attributes.isEmpty) = false →
      SpellsMessage start (name ++ (blanks ++ '=' :: (valueText ++ attributesText)))
        ⟨identifierAt start name, value, attributes, none,
          ⟨start, Parser.messageStop (identifierAt start name) value attributes⟩⟩

/-! ### How names, numbers and selectors start -/

theorem isIdentifierChar_of_isInlineBlank {ch : Char} (h : isInlineBlank ch) :
    isIdentifierChar ch = false := by
  rcases Text.isInlineBlank_iff.1 h with rfl | rfl <;> decide

theorem isReferenceChar_of_isInlineBlank {ch : Char} (h : isInlineBlank ch) :
    isReferenceChar ch = false := by
  rcases Text.isInlineBlank_iff.1 h with rfl | rfl <;> decide

/-- Characters that start a number. -/
def isNumberStart (ch : Char) : Bool := ch.isDigit || ch = '-'

/-- Characters that start the name of a message or a term. -/
def isNameStart (ch : Char) : Bool := ch = '-' || isIdentifierStart ch

/-- Characters that start a selector. -/
def isSelectorStart (ch : Char) : Bool :=
  isNumberStart ch || isNameStart ch || ch = '$' || ch = '"'

/-- What a selector starts with is visible. -/
theorem isVisible_of_isSelectorStart {ch : Char} (h : isSelectorStart ch) : isVisible ch := by
  cases hvisible : isVisible ch with
  | true => rfl
  | false =>
    refine absurd h ?_
    rcases Text.isVisible_eq_false_iff.1 hvisible with hblank | hbreak
    · rcases Text.isInlineBlank_iff.1 hblank with rfl | rfl <;> decide
    · rcases Text.isLineBreak_iff.1 hbreak with rfl | rfl <;> decide

theorem isLineBreak_of_isSelectorStart {ch : Char} (h : isSelectorStart ch) :
    isLineBreak ch = false :=
  Text.not_isLineBreak_of_isVisible (isVisible_of_isSelectorStart h)

theorem isSelectorStart_of_isNumberStart {ch : Char} (h : isNumberStart ch) :
    isSelectorStart ch := by
  simp [isSelectorStart, h]

theorem isSelectorStart_of_isNameStart {ch : Char} (h : isNameStart ch) : isSelectorStart ch := by
  simp [isSelectorStart, h]

/-- A number starts with a digit or a minus. -/
theorem SpellsNumber.exists_head {digits : List Char} {next : Option Char}
    (h : SpellsNumber digits next) :
    ∃ ch more, digits = ch :: more ∧ isNumberStart ch := by
  have hhead : ∀ sign whole : List Char, (sign = [] ∨ sign = ['-']) → IsDigits whole →
      ∃ ch more, sign ++ whole = ch :: more ∧ isNumberStart ch := by
    rintro sign whole (rfl | rfl) ⟨hne, hall⟩
    · cases whole with
      | nil => exact absurd rfl hne
      | cons ch more => exact ⟨ch, more, rfl, by simp [isNumberStart, hall ch (by simp)]⟩
    · exact ⟨'-', whole, rfl, by decide⟩
  cases h with
  | whole hsign hdigits _ => exact hhead _ _ hsign hdigits
  | fraction hsign hdigits _ _ =>
    obtain ⟨ch, more, heq, hch⟩ := hhead _ _ hsign hdigits
    exact ⟨ch, _, by rw [← List.append_assoc, heq, List.cons_append], hch⟩

/-- Digits with a sign in front are known as a number from their start. -/
theorem IsDigits.startsNumber {sign digits : List Char} (h : IsDigits digits)
    (hsign : sign = [] ∨ sign = ['-']) (rest : List Char) :
    Text.startsNumber (sign ++ (digits ++ rest)) := by
  obtain ⟨hne, hall⟩ := h
  cases digits with
  | nil => exact absurd rfl hne
  | cons first more =>
    have hfirst := hall first (by simp)
    rcases hsign with rfl | rfl
    · have hminus : first ≠ '-' := by
        rintro rfl
        exact absurd hfirst (by decide)
      simpa [Text.startsNumber, hminus] using hfirst
    · simpa [Text.startsNumber] using hfirst

/-- A number is known as one from its start. -/
theorem SpellsNumber.startsNumber {digits rest : List Char} {next : Option Char}
    (h : SpellsNumber digits next) : Text.startsNumber (digits ++ rest) := by
  cases h with
  | whole hsign hdigits _ =>
    rw [List.append_assoc]
    exact hdigits.startsNumber hsign rest
  | fraction hsign hdigits _ _ =>
    rw [List.append_assoc, List.append_assoc]
    exact hdigits.startsNumber hsign _

/-- The name of an entry is never taken for a number, not even with a minus in front. -/
theorem IsEntryName.startsNumber {name rest : List Char} (h : IsEntryName name) :
    Text.startsNumber (name ++ rest) = false := by
  rcases h with ⟨first, more, hfirst, -, rfl⟩ | ⟨_, ⟨first, more, hfirst, -, rfl⟩, rfl⟩
  · have hminus : first ≠ '-' := by
      rintro rfl
      exact absurd hfirst (by decide)
    simpa [Text.startsNumber, hminus] using isDigit_of_isIdentifierStart hfirst
  · simpa [Text.startsNumber] using isDigit_of_isIdentifierStart hfirst

/-- Digits start with nothing else. -/
theorem IsDigits.head?_ne {digits rest : List Char} {ch : Char} (hdigits : IsDigits digits)
    (h : ch.isDigit = false) : (digits ++ rest).head? ≠ some ch := by
  cases digits with
  | nil => exact absurd rfl hdigits.1
  | cons first more =>
    rintro ⟨⟩
    have hfirst := hdigits.2 ch (by simp)
    rw [h] at hfirst
    cases hfirst

/-- A name starts with nothing that cannot start one. -/
theorem IsName.head?_ne {name rest : List Char} {ch : Char} (hname : IsName name)
    (h : isIdentifierStart ch = false) : (name ++ rest).head? ≠ some ch := by
  obtain ⟨first, more, hfirst, -, rfl⟩ := hname
  rintro ⟨⟩
  rw [h] at hfirst
  cases hfirst

/-- A name without a minus is no term. -/
theorem IsName.isTerm {start : Nat} {name : List Char} (h : IsName name) :
    (identifierAt start name).isTerm = false := by
  simpa [Identifier.isTerm, identifierAt] using @IsName.head?_ne name [] '-' h (by decide)

/-- The name of an entry that is no term has no minus. -/
theorem IsEntryName.isName {start : Nat} {name : List Char} (h : IsEntryName name)
    (hterm : (identifierAt start name).isTerm = false) : IsName name := by
  rcases h with hname | ⟨rest, -, rfl⟩
  · exact hname
  · simp [Identifier.isTerm, identifierAt] at hterm

/-- The name of a term is a minus and a name. -/
theorem IsEntryName.of_isTerm {start : Nat} {name : List Char} (h : IsEntryName name)
    (hterm : (identifierAt start name).isTerm) : ∃ rest, IsName rest ∧ name = '-' :: rest := by
  rcases h with hname | hterm
  · rw [hname.isTerm] at hterm
    cases hterm
  · exact hterm

/-- What spells a reference is the name of an entry. -/
theorem SpellsSelector.isEntryName {start : Nat} {text : List Char} {next : Option Char}
    {id : Identifier} (h : SpellsSelector start text (.messageReference id) next) :
    IsEntryName text ∧ id = identifierAt start text := by
  cases h with
  | reference hname _ => exact ⟨hname, rfl⟩

/-- The span of a selector is the span of the text that spells it. -/
theorem SpellsSelector.span_eq {start : Nat} {text : List Char} {next : Option Char}
    {expression : Expression} (h : SpellsSelector start text expression next) :
    expression.span = spanOf start text := by
  cases h with
  | field _ _ _ =>
    simp only [Expression.span, spanOf, Text.byteLength_append]
  | _ => rfl

/-- A key is not empty, and its first character is one that the grammar looks for. -/
theorem SpellsKey.exists_head {start : Nat} {text : List Char} {key : VariantKey}
    {next : Option Char} (h : SpellsKey start text key next) :
    ∃ ch more, text = ch :: more ∧ isSelectorStart ch := by
  cases h with
  | number hdigits =>
    obtain ⟨ch, more, rfl, hch⟩ := hdigits.exists_head
    exact ⟨ch, more, rfl, isSelectorStart_of_isNumberStart hch⟩
  | name hstart _ _ _ _ =>
    exact ⟨_, _, rfl, isSelectorStart_of_isNameStart (by simp [isNameStart, hstart])⟩

theorem SpellsKey.startsVisible {start : Nat} {text rest : List Char} {key : VariantKey}
    {next : Option Char} (h : SpellsKey start text key next) : StartsVisible (text ++ rest) := by
  obtain ⟨ch, more, rfl, hch⟩ := h.exists_head
  exact Text.startsVisible_cons.2 (isVisible_of_isSelectorStart hch)

theorem IsEntryName.exists_head {name : List Char} (h : IsEntryName name) :
    ∃ ch more, name = ch :: more ∧ isNameStart ch := by
  rcases h with ⟨first, more, hfirst, -, rfl⟩ | ⟨rest, -, rfl⟩
  · exact ⟨first, more, rfl, by simp [isNameStart, hfirst]⟩
  · exact ⟨'-', rest, rfl, by decide⟩

theorem IsEntryName.ne_nil {name : List Char} (h : IsEntryName name) : name ≠ [] := by
  obtain ⟨ch, more, rfl, -⟩ := h.exists_head
  exact List.cons_ne_nil ch more

/-- A selector is not empty, and its first character is one that the grammar looks for. -/
theorem SpellsSelector.exists_head {start : Nat} {text : List Char} {next : Option Char}
    {expression : Expression} (h : SpellsSelector start text expression next) :
    ∃ ch more, text = ch :: more ∧ isSelectorStart ch := by
  have hname : ∀ {name : List Char} (rest : List Char), IsEntryName name →
      ∃ ch more, name ++ rest = ch :: more ∧ isSelectorStart ch := by
    intro name rest hname
    obtain ⟨ch, more, rfl, hch⟩ := hname.exists_head
    exact ⟨ch, more ++ rest, rfl, isSelectorStart_of_isNameStart hch⟩
  cases h with
  | string _ => exact ⟨_, _, rfl, by decide⟩
  | number hdigits =>
    obtain ⟨ch, more, rfl, hch⟩ := hdigits.exists_head
    exact ⟨ch, more, rfl, isSelectorStart_of_isNumberStart hch⟩
  | var _ _ => exact ⟨_, _, rfl, by decide⟩
  | reference hentry _ => simpa using hname [] hentry
  | field hentry _ _ => exact hname _ hentry
  | variant _ _ _ _ => exact ⟨_, _, rfl, by decide⟩
  | call hentry _ _ _ => exact hname _ hentry

theorem SpellsSelector.startsVisible {start : Nat} {text rest : List Char} {next : Option Char}
    {expression : Expression} (h : SpellsSelector start text expression next) :
    StartsVisible (text ++ rest) := by
  obtain ⟨ch, more, rfl, hch⟩ := h.exists_head
  exact Text.startsVisible_cons.2 (isVisible_of_isSelectorStart hch)

/-- An argument is not empty, and its first character is one that the grammar looks for. -/
theorem SpellsArgument.exists_head {start : Nat} {text : List Char} {next : Option Char}
    {argument : CallArgument} (h : SpellsArgument start text argument next) :
    ∃ ch more, text = ch :: more ∧ isSelectorStart ch := by
  cases h with
  | positional hspells => exact hspells.exists_head
  | named hname _ _ _ _ =>
    obtain ⟨ch, more, rfl, hch⟩ := (IsEntryName.exists_head (.inl hname))
    exact ⟨ch, _, rfl, isSelectorStart_of_isNameStart hch⟩

/-- Arguments with the closing bracket start with something visible, even if there are none. -/
theorem SpellsArguments.startsVisible {start : Nat} {before args : List CallArgument}
    {text rest : List Char} (h : SpellsArguments start before text args) :
    StartsVisible (text ++ ')' :: rest) := by
  have hargument : ∀ {text rest : List Char} {start next argument},
      SpellsArgument start text argument next → StartsVisible (text ++ rest) := by
    intro text rest start next argument hspells
    obtain ⟨ch, more, rfl, hch⟩ := hspells.exists_head
    exact Text.startsVisible_cons.2 (isVisible_of_isSelectorStart hch)
  cases h with
  | nil => exact Text.startsVisible_cons.2 (by decide)
  | last hspells _ _ =>
    rw [List.append_assoc]
    exact hargument hspells
  | more hspells _ _ _ _ =>
    rw [List.append_assoc]
    exact hargument hspells

end Localization
