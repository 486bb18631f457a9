import Localization.Format.Resolve
import Localization.Proofs.Resource.SingleMessages
import Localization.Proofs.Resource.Subtrees

/-!
# Number texts

What the grammar of a resource takes for a number, in a placeable or as the key of a variant, is
what can be read as a number, and nothing else. So a number of a resource is a number when it is
resolved, and never a mere text.

## Main definitions

* `IsDecimal` — the texts of numbers
* `SelectFrame` — what stands around the only variant of a select
* `ReadsAs` — a source is a single message that holds one expression

## Main statements

* `Number.isSome_parse?_iff` — which texts can be read as a number
* `number_texts` — the same texts are numbers for the grammar and for the evaluation
-/

namespace Localization

open Text (Ends IsBlanks IsGap IsIndent StartsBreak byteLength)

/-! ### Decimal texts -/

/-- Digits, with a minus sign in front or not, and behind them a point and more digits or not. -/
inductive IsDecimal : List Char → Prop
  | whole {sign digits} : sign = [] ∨ sign = ['-'] → IsDigits digits → IsDecimal (sign ++ digits)
  | fraction {sign digits places} : sign = [] ∨ sign = ['-'] → IsDigits digits →
      IsDigits places → IsDecimal (sign ++ (digits ++ '.' :: places))

section

variable {text raw : List Char} {next : Option Char}

/-- What the grammar reads as a number is a decimal. -/
theorem SpellsNumber.isDecimal (h : SpellsNumber text next) : IsDecimal text := by
  cases h with
  | whole hsign hdigits _ => exact .whole hsign hdigits
  | fraction hsign hdigits hplaces _ => exact .fraction hsign hdigits hplaces

/-- A decimal text is spelled as a number wherever no digit and no point follows. -/
theorem IsDecimal.spellsNumber (h : IsDecimal text)
    (hnext : Ends (fun ch => ch.isDigit || ch = '.') next) : SpellsNumber text next := by
  cases h with
  | whole hsign hdigits => exact .whole hsign hdigits hnext
  | fraction hsign hdigits hplaces =>
    exact .fraction hsign hdigits hplaces fun ch hch => (Bool.or_eq_false_iff.1 (hnext ch hch)).1

theorem IsDecimal.mem (h : IsDecimal text) :
    ∀ ch ∈ text, ch.isDigit ∨ ch = '-' ∨ ch = '.' := by
  have hsigned : ∀ sign : List Char, (sign = [] ∨ sign = ['-']) → ∀ ch ∈ sign, ch = '-' := by
    rintro sign (rfl | rfl) <;> simp
  cases h with
  | whole hsign hdigits =>
    exact List.forall_mem_append.2
      ⟨fun ch hch => .inr (.inl (hsigned _ hsign ch hch)), fun ch hch => .inl (hdigits.2 ch hch)⟩
  | fraction hsign hdigits hplaces =>
    exact List.forall_mem_append.2 ⟨fun ch hch => .inr (.inl (hsigned _ hsign ch hch)),
      List.forall_mem_append.2 ⟨fun ch hch => .inl (hdigits.2 ch hch),
        List.forall_mem_cons.2 ⟨.inr (.inr rfl), fun ch hch => .inl (hplaces.2 ch hch)⟩⟩⟩

theorem isBlank_of_isDigit {ch : Char} (h : ch.isDigit) : Text.isBlank ch = false := by
  obtain ⟨hge, hle⟩ : 48 ≤ ch.toNat ∧ ch.toNat ≤ 57 := Char.isDigit_iff_toNat.1 h
  simp only [Text.isBlank, Text.CodePoints.contains, Text.blank, List.any_cons, List.any_nil,
    Bool.or_false, Bool.or_eq_false_iff, Bool.and_eq_false_iff, decide_eq_false_iff_not]
  omega

/-- A text without blanks at its ends is not trimmed. -/
theorem Text.trim_of_ends (hhead : Ends isBlank text.head?) (hlast : Ends isBlank text.getLast?) :
    trim text = text := by
  rw [trim, dropWhile_of_ends hhead, dropWhile_of_ends (by rwa [List.head?_reverse]),
    List.reverse_reverse]

/-- A decimal text has no white space to trim. -/
theorem IsDecimal.trim (h : IsDecimal text) : Text.trim text = text := by
  have hblank : ∀ ch ∈ text, Text.isBlank ch = false := by
    intro ch hch
    rcases h.mem ch hch with hdigit | rfl | rfl
    · exact isBlank_of_isDigit hdigit
    · decide
    · decide
  exact Text.trim_of_ends (fun ch hch => hblank ch (List.mem_of_mem_head? hch))
    fun ch hch => hblank ch (List.mem_of_getLast? hch)

end

/-! ### Reading a number -/

section

variable {sign digits rest : List Char}

/-- A minus sign, or none in front of a text that starts with none. -/
def IsSign (sign rest : List Char) : Prop := sign = ['-'] ∨ sign = [] ∧ rest.head? ≠ some '-'

theorem IsSign.or (h : IsSign sign rest) : sign = [] ∨ sign = ['-'] := h.symm.imp_left And.left

theorem IsDigits.isSign (h : IsDigits digits) (hsign : sign = [] ∨ sign = ['-'])
    (rest : List Char) : IsSign sign (digits ++ rest) :=
  hsign.symm.imp_right fun hnil => ⟨hnil, h.head?_ne (by decide)⟩

end

namespace Number

variable {text : String} {raw sign digits places rest : List Char} {n : Number}

theorem isDigits_iff : isDigits digits ↔ IsDigits digits := by
  simp [isDigits, IsDigits]

/-- Behind the sign a text is cut at its first point. -/
theorem Parts.read_append (hsign : IsSign sign rest) :
    (Parts.ofText (sign ++ rest)).whole = rest.takeWhile (· ≠ '.') ∧
      (Parts.ofText (sign ++ rest)).fraction = (rest.dropWhile (· ≠ '.')).tail? := by
  have hunsigned : (if (sign ++ rest).head? = some '-' then (sign ++ rest).tail
      else sign ++ rest) = rest := by
    rcases hsign with rfl | ⟨rfl, hhead⟩
    · rfl
    · exact if_neg hhead
  unfold Parts.ofText
  rw [hunsigned]
  dsimp only
  refine ⟨rfl, ?_⟩
  cases rest.dropWhile (· ≠ '.') <;> rfl

theorem Parts.ofText_whole (hsign : IsSign sign digits) (hpoint : ∀ ch ∈ digits, ch ≠ '.') :
    (Parts.ofText (sign ++ digits)).whole = digits ∧
      (Parts.ofText (sign ++ digits)).fraction = none := by
  obtain ⟨hwhole, hfraction⟩ := Parts.read_append hsign
  rw [hwhole, hfraction, List.takeWhile_eq_self_iff.2 (by simpa using hpoint),
    List.dropWhile_eq_nil_iff.2 (by simpa using hpoint)]
  exact ⟨rfl, rfl⟩

theorem Parts.ofText_fraction (hsign : IsSign sign (digits ++ '.' :: places))
    (hpoint : ∀ ch ∈ digits, ch ≠ '.') :
    (Parts.ofText (sign ++ (digits ++ '.' :: places))).whole = digits ∧
      (Parts.ofText (sign ++ (digits ++ '.' :: places))).fraction = some places := by
  obtain ⟨hwhole, hfraction⟩ := Parts.read_append hsign
  rw [hwhole, hfraction, Text.takeWhile_append_of_ends (by simpa using hpoint) (by simp [Ends]),
    List.dropWhile_append_of_pos (by simpa using hpoint)]
  exact ⟨rfl, rfl⟩

/-- Every text is cut behind its sign and at its first point. -/
theorem exists_parts (raw : List Char) : ∃ sign digits, (∀ ch ∈ digits, ch ≠ '.') ∧
    ((IsSign sign digits ∧ raw = sign ++ digits) ∨
      ∃ places, IsSign sign (digits ++ '.' :: places) ∧
        raw = sign ++ (digits ++ '.' :: places)) := by
  obtain ⟨sign, rest, hsign, rfl⟩ : ∃ sign rest, IsSign sign rest ∧ raw = sign ++ rest := by
    by_cases hhead : raw.head? = some '-'
    · obtain ⟨rest, rfl⟩ := List.head?_eq_some_iff.1 hhead
      exact ⟨['-'], rest, .inl rfl, rfl⟩
    · exact ⟨[], raw, .inr ⟨rfl, hhead⟩, rfl⟩
  refine ⟨sign, rest.takeWhile (· ≠ '.'), fun ch hch => ?_, ?_⟩
  · simpa using List.mem_takeWhile_imp hch
  · have hsplit := List.takeWhile_append_dropWhile (p := (· ≠ '.')) (l := rest)
    cases htail : rest.dropWhile (· ≠ '.') with
    | nil =>
      rw [htail, List.append_nil] at hsplit
      exact .inl (by rw [hsplit]; exact ⟨hsign, rfl⟩)
    | cons ch places =>
      obtain rfl : ch = '.' := by
        simpa using Text.ends_dropWhile (· ≠ '.') rest ch (by rw [htail]; rfl)
      rw [htail] at hsplit
      exact .inr ⟨places, by rw [hsplit]; exact hsign, by rw [hsplit]⟩

/-- A text is cut into digits exactly if it is a decimal text. -/
theorem Parts.isDecimal_iff :
    (isDigits (Parts.ofText raw).whole && (Parts.ofText raw).fraction.all isDigits) ↔
      IsDecimal raw := by
  constructor
  · intro h
    obtain ⟨sign, digits, hpoint, ⟨hsign, rfl⟩ | ⟨places, hsign, rfl⟩⟩ := exists_parts raw
    · obtain ⟨hwhole, hfraction⟩ := Parts.ofText_whole hsign hpoint
      rw [hwhole, hfraction] at h
      exact .whole hsign.or (isDigits_iff.1 (by simpa using h))
    · obtain ⟨hwhole, hfraction⟩ := Parts.ofText_fraction hsign hpoint
      rw [hwhole, hfraction, Option.all_some, Bool.and_eq_true] at h
      exact .fraction hsign.or (isDigits_iff.1 h.1) (isDigits_iff.1 h.2)
  · intro h
    -- digits hold no point, so the first point is the one behind them
    have hpoint : ∀ {digits : List Char}, IsDigits digits → ∀ ch ∈ digits, ch ≠ '.' := by
      rintro digits hdigits ch hch rfl
      exact absurd (hdigits.2 _ hch) (by decide)
    cases h with
    | whole hsign hdigits =>
      have hsigned := hdigits.isSign hsign []
      rw [List.append_nil] at hsigned
      obtain ⟨hwhole, hfraction⟩ := Parts.ofText_whole hsigned (hpoint hdigits)
      rw [hwhole, hfraction, isDigits_iff.2 hdigits]
      rfl
    | fraction hsign hdigits hplaces =>
      obtain ⟨hwhole, hfraction⟩ :=
        Parts.ofText_fraction (hdigits.isSign hsign _) (hpoint hdigits)
      rw [hwhole, hfraction, isDigits_iff.2 hdigits, Option.all_some, isDigits_iff.2 hplaces]
      rfl

/-- A text is read as a number just if it is a decimal up to the blanks around it. -/
theorem isSome_parse?_iff : (parse? text).isSome ↔ IsDecimal (Text.trim text.toList) := by
  rw [← Parts.isDecimal_iff]
  unfold parse?
  dsimp only
  split_ifs with h <;> simp [h]

/-- A number that was read keeps its text without the blanks around it. -/
theorem raw_of_parse? (h : parse? text = some n) :
    n.raw = String.ofList (Text.trim text.toList) := by
  unfold parse? at h
  dsimp only at h
  split_ifs at h with hdigits
  cases h
  rfl

end Number

/-! ### Numbers in a source -/

/-- What stands in a placeable in front of variants: a selector and an arrow, or neither. -/
inductive Opening (start : Nat) : List Char → Option Expression → Prop
  | bare {blanks} : IsBlanks blanks → Opening start blanks none
  | choice {blanks text selector blanks' blanks''} : IsBlanks blanks →
      SpellsSelector (start + byteLength blanks) text selector (blanks' ++ ['-']).head? →
      IsBlanks blanks' → Parser.selectorError? selector = none → IsBlanks blanks'' →
      Opening start (blanks ++ (text ++ (blanks' ++ '-' :: '>' :: blanks''))) (some selector)

/-- What stands around the only variant of a select: what opens it, the lines up to the variant
with its indentation, and the lines up to the closing brace. -/
structure SelectFrame where
  opening : List Char
  selector : Option Expression
  indentation : List Char
  closing : List Char
  isOpening : Opening 5 opening selector
  isIndent_indentation : IsIndent indentation
  isGap_closing : IsGap closing
  startsBreak_closing : StartsBreak closing

/-- The default variant `*[text] y`. -/
def variantSource (text : List Char) : List Char := '*' :: '[' :: (text ++ [']', ' ', 'y'])

/-- The source of a message that is a select with one variant, whose key is a text. -/
def SelectFrame.source (frame : SelectFrame) (text : List Char) : List Char :=
  assignment ['m'] ('{' :: (frame.opening ++ (frame.indentation ++ variantSource text ++
    frame.closing) ++ ['}']))

/-- A source is read as one message, and its value is one expression. -/
def ReadsAs (source : List Char) (holds : Expression → Prop) : Prop :=
  ∃ message expression span whole, (Resource.ofText source).body = [.message message] ∧
    message.value = some ⟨[.placeable expression span], whole⟩ ∧ holds expression

/-- The keys by which an expression selects a variant. -/
def Expression.keys : Expression → List VariantKey
  | .select _ variants _ _ => variants.map Variant.key
  | .variant _ key _ => [key]
  | _ => []

theorem Expression.mem_subtrees (expression : Expression) :
    .expression expression ∈ expression.subtrees := by
  cases expression <;> exact List.mem_cons_self

section

variable {text : List Char} {source : List Char} {start : Nat}

/-- The variant whose key is a decimal text is spelled by it. -/
theorem IsDecimal.spellsVariant (h : IsDecimal text) (start : Nat) :
    ∃ keySpan value span, SpellsVariant start (variantSource text) false
      ⟨.number (String.ofList text) keySpan, value, true, span⟩ := by
  have hkey : SpellsNumber text ([] ++ [']']).head? :=
    h.spellsNumber (Text.ends_some.2 (by decide))
  have hvalue : SpellsText ['y'] ['y'] none :=
    .plain (by decide) (by decide) (by decide) (.stop (by simp))
  have hvariant := @SpellsVariant.mk start true false ['*'] [] _ text [] [' '] ['y'] _
    (fun _ => rfl) rfl Text.isBlanks_nil (.number hkey) Text.isBlanks_nil
    (.inline Text.isBlanks_space (by decide))
    (hvalue.spellsPattern _ (by simp) (Text.ends_some.2 (by decide)))
  exact ⟨_, _, _, hvariant⟩

/-- An opening, a variant that is the default one, and a closing gap make a select. -/
theorem Opening.spellsPlaceable {opening indentation variantText closing : List Char}
    {selector : Option Expression} {variant : Variant} (h : Opening start opening selector)
    (hindent : IsIndent indentation)
    (hvariant : SpellsVariant (start + byteLength opening + byteLength indentation) variantText
      false variant)
    (hdefault : variant.isDefault) (hgap : IsGap closing) (hbreak : StartsBreak closing) :
    ∃ span, SpellsPlaceable start (opening ++ (indentation ++ variantText ++ closing))
      (.select selector [variant] 0 span) := by
  have hvariants : SpellsVariants (start + byteLength opening) (indentation ++ variantText) 0 none
      [variant] 0 := .last hindent hvariant (if_pos hdefault)
  cases h with
  | bare hblanks => exact ⟨_, .bare hblanks hvariants hgap hbreak⟩
  | choice hblanks hselector hblanks' herror hblanks'' =>
    have hplaceable := SpellsPlaceable.choice hblanks hselector hblanks' herror hblanks'' hvariants
      hgap hbreak
    simp only [List.append_assoc, List.cons_append] at hplaceable ⊢
    exact ⟨_, hplaceable⟩

/-- An expression that a source is read as stands in the source. -/
theorem ReadsAs.exists_subtree {holds : Expression → Prop} (h : ReadsAs source holds) :
    ∃ expression, holds expression ∧
      .expression expression ∈ (Resource.parse (String.ofList source)).subtrees := by
  obtain ⟨message, expression, span, whole, hbody, hvalue, hholds⟩ := h
  refine ⟨expression, hholds, ?_⟩
  rw [Resource.parse, String.toList_ofList, Resource.subtrees, hbody, List.flatMap_singleton,
    Entry.subtrees, Message.subtrees, hvalue]
  refine List.mem_append_left _ ?_
  simp [Pattern.subtrees, elementsSubtrees, PatternElement.subtrees, expression.mem_subtrees]

/-! ### Numbers of a resource -/

/-- A key that is a number is a decimal. -/
theorem SpellsKey.isDecimal {digits : String} {span : Span} {next : Option Char}
    (h : SpellsKey start text (.number digits span) next) : IsDecimal digits.toList := by
  cases h with
  | number hdigits =>
    rw [String.toList_ofList]
    exact hdigits.isDecimal

theorem SpellsVariants.exists_key {count defaultIndex : Nat} {default? : Option Nat}
    {variants : List Variant} (h : SpellsVariants start text count default? variants defaultIndex)
    {variant : Variant} (hvariant : variant ∈ variants) :
    ∃ start text next, SpellsKey start text variant.key next := by
  induction variants generalizing start text count default? with
  | nil => cases hvariant
  | cons first variants ih =>
    have hkey : ∀ {start text hasDefault}, SpellsVariant start text hasDefault first →
        ∃ start text next, SpellsKey start text first.key next := by
      rintro start text hasDefault ⟨-, -, -, hkey, -, -, -⟩
      exact ⟨_, _, _, hkey⟩
    cases h with
    | last _ hspells _ =>
      obtain rfl := List.mem_singleton.1 hvariant
      exact hkey hspells
    | more _ hspells hmore =>
      rcases List.mem_cons.1 hvariant with rfl | hmem
      · exact hkey hspells
      · exact ih hmore hmem

/-- A selector that is a number is a decimal. -/
theorem SpellsSelector.isDecimal {digits : String} {span : Span} {next : Option Char}
    (h : SpellsSelector start text (.numberLiteral digits span) next) :
    IsDecimal digits.toList := by
  cases h with
  | number hdigits =>
    rw [String.toList_ofList]
    exact hdigits.isDecimal

/-- The keys of an expression that is spelled are spelled. -/
theorem SpellsSelector.exists_key {expression : Expression} {next : Option Char}
    (h : SpellsSelector start text expression next) {key : VariantKey}
    (hkey : key ∈ expression.keys) : ∃ start text next, SpellsKey start text key next := by
  cases h with
  | variant _ _ hspells _ =>
    obtain rfl := List.mem_singleton.1 hkey
    exact ⟨_, _, _, hspells⟩
  | _ => cases hkey

/-- Each key in a placeable that was read is spelled by some text. -/
theorem SpellsPlaceable.exists_key {expression : Expression}
    (h : SpellsPlaceable start text expression) {key : VariantKey}
    (hkey : key ∈ expression.keys) : ∃ start text next, SpellsKey start text key next := by
  cases h with
  | selector _ hspells _ _ => exact hspells.exists_key hkey
  | choice _ _ _ _ _ hvariants _ _ =>
    obtain ⟨variant, hvariant, rfl⟩ := List.mem_map.1 hkey
    exact hvariants.exists_key hvariant
  | bare _ hvariants _ _ =>
    obtain ⟨variant, hvariant, rfl⟩ := List.mem_map.1 hkey
    exact hvariants.exists_key hvariant

namespace Resource

variable {source digits : String} {span : Span} {expression : Expression}

/-- The number literals of a resource are decimal texts. -/
theorem isDecimal_literal
    (h : .expression (.numberLiteral digits span) ∈ (parse source).subtrees) :
    IsDecimal digits.toList := by
  rcases spelled_of_mem_subtrees h with ⟨_, _, _, hselector⟩ | ⟨_, _, hplaceable⟩
  · exact hselector.isDecimal
  · cases hplaceable with
    | selector _ hselector _ _ => exact hselector.isDecimal

/-- The number keys of a resource are decimal texts. -/
theorem isDecimal_key (h : .expression expression ∈ (parse source).subtrees)
    (hkey : .number digits span ∈ expression.keys) : IsDecimal digits.toList := by
  obtain ⟨_, _, _, hspells⟩ :
      ∃ start text next, SpellsKey start text (.number digits span) next := by
    rcases spelled_of_mem_subtrees h with ⟨_, _, _, hselector⟩ | ⟨_, _, hplaceable⟩
    · exact hselector.exists_key hkey
    · exact hplaceable.exists_key hkey
  exact hspells.isDecimal

end Resource

/-- A decimal text is read as a number that keeps it. -/
theorem IsDecimal.exists_number {text : String} (h : IsDecimal text.toList) :
    ∃ n, Number.parse? text = some n ∧ Value.ofNumberText text = .number n ∧ n.raw = text := by
  obtain ⟨n, hn⟩ := Option.isSome_iff_exists.1 (Number.isSome_parse?_iff.2 (h.trim.symm ▸ h))
  refine ⟨n, hn, ?_, ?_⟩
  · rw [Value.ofNumberText, hn]
  · rw [Number.raw_of_parse? hn, h.trim, String.ofList_toList]

/-- A text in a placeable is read as a number literal exactly if it is a decimal text. -/
theorem readsAs_placed_iff {text : String} (hfits : Cursor.Fits (placed text).toList) :
    ReadsAs (placed text).toList (fun e => ∃ span, e = .numberLiteral text span) ↔
      IsDecimal text.toList := by
  constructor
  · intro h
    obtain ⟨_, ⟨span, rfl⟩, hmem⟩ := h.exists_subtree
    exact Resource.isDecimal_literal hmem
  · intro h
    have hnumber : SpellsSelector 6 text.toList _ (some ' ') :=
      .number (h.spellsNumber (Text.ends_some.2 (by decide)))
    have hbody := Resource.body_selector hnumber rfl
    rw [String.ofList_toList, ← Resource.ofText_of_fits hfits] at hbody
    exact ⟨_, _, _, _, hbody, rfl, _, rfl⟩

/-- A text in the place of a key is read as a number key exactly if it is a decimal text. -/
theorem SelectFrame.readsAs_source_iff (frame : SelectFrame) {text : String}
    (hfits : Cursor.Fits (frame.source text.toList)) :
    ReadsAs (frame.source text.toList) (fun e => ∃ keySpan value whole span,
      e = .select frame.selector [⟨.number text keySpan, value, true, whole⟩] 0 span) ↔
      IsDecimal text.toList := by
  constructor
  · intro h
    obtain ⟨_, ⟨keySpan, value, whole, span, rfl⟩, hmem⟩ := h.exists_subtree
    exact Resource.isDecimal_key hmem (List.mem_singleton.2 rfl)
  · intro h
    obtain ⟨keySpan, value, whole, hvariant⟩ :=
      h.spellsVariant (5 + byteLength frame.opening + byteLength frame.indentation)
    obtain ⟨span, hplaceable⟩ := frame.isOpening.spellsPlaceable frame.isIndent_indentation hvariant
      rfl frame.isGap_closing frame.startsBreak_closing
    have hid : IsName ['m'] := isName_singleton (by decide)
    have hbody := Resource.body_placeable hid hplaceable
    rw [String.ofList_toList, ← SelectFrame.source, ← Resource.ofText_of_fits hfits] at hbody
    exact ⟨_, _, _, _, hbody, rfl, _, _, _, _, rfl⟩

end

/-- The same texts are numbers for the evaluation and for the grammar, in a placeable and as the key
of a variant, in a source that fits. A number keeps its text, and whatever number stands in a
resource is resolved to a number. -/
theorem number_texts (text : String) (hhead : Ends Text.isBlank text.toList.head?)
    (hlast : Ends Text.isBlank text.toList.getLast?) :
    ((Number.parse? text).isSome ↔ IsDecimal text.toList) ∧
    (Cursor.Fits (placed text).toList →
      (ReadsAs (placed text).toList (fun e => ∃ span, e = .numberLiteral text span) ↔
        IsDecimal text.toList)) ∧
    (∀ frame : SelectFrame, Cursor.Fits (frame.source text.toList) →
      (ReadsAs (frame.source text.toList) (fun e => ∃ keySpan value whole span,
        e = .select frame.selector [⟨.number text keySpan, value, true, whole⟩] 0 span) ↔
          IsDecimal text.toList)) ∧
    (∀ n, Number.parse? text = some n → n.raw = text) ∧
    ∀ (source : String) (e : Expression), .expression e ∈ (Resource.parse source).subtrees →
      (∀ digits span, e = .numberLiteral digits span → ∃ n : Number, n.raw = digits ∧
        ∀ env enter site, Resolver.expression env enter e site = pure (.number n)) ∧
      ∀ digits span, .number digits span ∈ e.keys → ∃ n : Number, n.raw = digits ∧
        Resolver.keyValue (.number digits span) = .number n := by
  have htrim := Text.trim_of_ends hhead hlast
  -- literals and keys that were read are decimal texts, so neither is resolved to a mere text
  refine ⟨?_, readsAs_placed_iff, fun frame => frame.readsAs_source_iff, fun n hn => ?_,
    fun source e he => ⟨?_, fun digits span hkey => ?_⟩⟩
  · rw [Number.isSome_parse?_iff, htrim]
  · rw [Number.raw_of_parse? hn, htrim, String.ofList_toList]
  · rintro digits span rfl
    obtain ⟨n, -, hvalue, hraw⟩ := (Resource.isDecimal_literal he).exists_number
    refine ⟨n, hraw, fun env enter site => ?_⟩
    rw [Resolver.expression, hvalue]
  · obtain ⟨n, -, hvalue, hraw⟩ := (Resource.isDecimal_key he hkey).exists_number
    exact ⟨n, hraw, hvalue⟩

/-- A select on `$n` whose variant stands on the next line, two blanks in. -/
def SelectFrame.onVariable : SelectFrame where
  opening := [' '] ++ ('$' :: ['n'] ++ ([' '] ++ '-' :: '>' :: []))
  selector := some (.variableReference (identifierAt 7 ['n']) (spanOf 6 ['$', 'n']))
  indentation := ['\n', ' ', ' ']
  closing := ['\n']
  isOpening := .choice Text.isBlanks_space
    (.var (isName_singleton (by decide)) (Text.ends_some.2 (by decide))) Text.isBlanks_space rfl
    Text.isBlanks_nil
  isIndent_indentation := Text.IsEnding.isIndent (.inl rfl)
    (Text.isBlanks_cons.2 ⟨rfl, Text.isBlanks_space⟩) (List.cons_ne_nil _ _)
  isGap_closing := Text.isGap_cons.2 ⟨rfl, Text.isGap_nil⟩
  startsBreak_closing := Text.startsBreak_cons.2 rfl

/-- A number with a sign and places is a key; a lone minus sign is no number anywhere. -/
theorem number_texts_signed :
    ReadsAs (SelectFrame.onVariable.source "-1.50".toList) (fun e => ∃ keySpan value whole span,
      e = .select SelectFrame.onVariable.selector
        [⟨.number "-1.50" keySpan, value, true, whole⟩] 0 span) ∧
    ¬ReadsAs (placed "-").toList (fun e => ∃ span, e = .numberLiteral "-" span) := by
  obtain ⟨hparse, -, hframe, -, -⟩ :=
    number_texts "-1.50" (Text.ends_some.2 (by decide)) (Text.ends_some.2 (by decide))
  obtain ⟨hminus, hplaced, -, -, -⟩ :=
    number_texts "-" (Text.ends_some.2 (by decide)) (Text.ends_some.2 (by decide))
  refine ⟨(hframe _ (by decide)).2 (hparse.1 (by decide +kernel)), fun hreads => ?_⟩
  exact absurd (hminus.2 ((hplaced (by decide)).1 hreads)) (by decide +kernel)

end Localization
