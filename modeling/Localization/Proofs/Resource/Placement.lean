import Localization.Proofs.Resource.Nodes
import Localization.Proofs.Resource.Tiling

/-!
# The nodes of a resource are well placed

What spells a tree is made of the texts of its nodes, and between two of these texts no line break
is torn apart: most of them lie within a line, and a text that runs over lines does not end with a
line break.

## Main statements

* `SpellsSelector.wellPlaced`, `SpellsElements.wellPlaced` — expressions and patterns
* `SpellsMessage.wellPlaced`, `Covers.wellPlaced` — messages and entries
* `Resource.diagnostics_inOrder` — what is reported about a source follows the source
* `Resource.parse_wellPlaced` — every node of a resource is well placed in its source
-/

namespace Localization

open Text (EndsLine IsBlanks IsCut IsEnding IsGap IsIndent Joins byteLength isVisible)

variable {source text rest : List Char} {start : Nat} {next : Option Char}

/-! ### Selectors -/

namespace Piece

/-- The text of a piece behind a text within a line. -/
theorem within (h : Piece source start text) (first third : List Char) {second : List Char}
    (htext : text = first ++ (second ++ third)) (hfirst : IsLine first)
    (hsecond : ¬Joins second third) : Piece source (start + byteLength first) second := by
  rw [htext] at h
  exact h.mid hfirst.not_joins hsecond

/-- The text at the start of a piece. -/
theorem head (h : Piece source start text) {first second : List Char}
    (htext : text = first ++ second) (hfirst : ¬Joins first second) : Piece source start first := by
  rw [htext] at h
  exact h.fst hfirst

/-- A text behind a gap, and what follows it. -/
theorem behind {gap : List Char} (h : Piece source start (gap ++ (text ++ rest)))
    (hgap : ¬EndsLine gap) (htext : ¬EndsLine text) :
    Piece source (start + byteLength gap) text ∧
      Piece source (start + byteLength (gap ++ text)) rest := by
  have hbehind := h.snd (Text.not_joins_of_not_endsLine hgap)
  have hjoins := @Text.not_joins_of_not_endsLine _ rest htext
  refine ⟨hbehind.fst hjoins, ?_⟩
  rw [Text.byteLength_append, ← Nat.add_assoc]
  exact hbehind.snd hjoins

theorem identifier {name : List Char} (h : Piece source start name) :
    (identifierAt start name).node.WellPlaced source := h.rawLeaf

end Piece

/-- Blanks behind a key belong to its text, but not to its span. -/
theorem SpellsKey.wellPlaced {key : VariantKey} (h : SpellsKey start text key next)
    (hpiece : Piece source start text) :
    key.node.WellPlaced source ∧ InOrder start [key.span] (start + byteLength text) := by
  cases h with
  | number hdigits => exact ⟨hpiece.rawLeaf, .cons_spanOf (Nat.le_refl _) (Nat.le_refl _)⟩
  | name hfirst hmore _ _ _ =>
    have hline : IsLine _ := isLine_cons.2 ⟨isLineBreak_of_isIdentifierStart hfirst,
      isLine_of_forall (fun _ => isVariantNameChar_of_isLineBreak) hmore⟩
    refine ⟨(hpiece.fst hline.not_joins).rawLeaf, .cons_spanOf (Nat.le_refl _) ?_⟩
    rw [InOrder, Text.byteLength_append, ← Nat.add_assoc]
    exact Nat.le_add_right _ _

theorem SpellsArgument.span_eq {argument : CallArgument}
    (h : SpellsArgument start text argument next) : argument.span = spanOf start text := by
  cases h with
  | positional hspells => exact hspells.span_eq
  | named => rfl

theorem SpellsArguments.inOrder {before args : List CallArgument}
    (h : SpellsArguments start before text args) :
    InOrder start (args.map CallArgument.span) (start + byteLength text) := by
  induction args generalizing start before text with
  | nil =>
    cases h
    exact Nat.le_refl _
  | cons argument args ih =>
    cases h with
    | last hspells _ _ =>
      rw [List.map_cons, hspells.span_eq]
      refine .cons_spanOf (Nat.le_refl _) ?_
      simp only [List.map_nil, InOrder, Text.byteLength_append]
      omega
    | more hspells _ _ _ hmore =>
      rw [List.map_cons, hspells.span_eq]
      refine .cons_spanOf (Nat.le_refl _) ((ih hmore).mono_left ?_ |>.mono_right ?_)
      all_goals simp only [Text.byteLength_append, Text.byteLength_cons]; omega

mutual

/-- The nodes of a selector are well placed where its text stands. -/
theorem SpellsSelector.wellPlaced : ∀ {start text next} (expression : Expression),
    SpellsSelector start text expression next → Piece source start text →
    ∀ node ∈ expression.nodes, node.WellPlaced source
  | _, _, _, .stringLiteral _ _, h, hpiece => by
    cases h with
    | string _ => exact List.forall_mem_singleton.2 hpiece.leaf
  | _, _, _, .numberLiteral _ _, h, hpiece => by
    cases h with
    | number _ => exact List.forall_mem_singleton.2 hpiece.rawLeaf
  | start, _, _, .variableReference _ _, h, hpiece => by
    cases h with
    | @var _ name _ hname _ =>
      -- the identifier lies behind the dollar sign
      have hid : Piece source (start + 1) name :=
        hpiece.within ['$'] [] (by simp) (isLine_cons.2 ⟨rfl, isLine_nil⟩) hname.isLine.not_joins
      have hdollar : '$'.utf8Size = 1 := rfl
      refine List.forall_mem_cons.2 ⟨hpiece.inner ?_, List.forall_mem_singleton.2 hid.identifier⟩
      simp only [InOrder, identifierAt, spanOf, Text.byteLength_cons]
      omega
  | _, _, _, .messageReference _, h, hpiece => by
    obtain ⟨-, rfl⟩ := h.isEntryName
    exact List.forall_mem_singleton.2 hpiece.identifier
  | start, _, _, .attribute _ _ _, h, hpiece => by
    cases h with
    | @field _ name field _ hname hfield _ =>
      have hid : Piece source start name := hpiece.fst hname.isLine.not_joins
      have hfieldPiece : Piece source (start + byteLength (name ++ ['.'])) field :=
        hpiece.within (name ++ ['.']) [] (by simp)
          (isLine_append.2 ⟨hname.isLine, isLine_cons.2 ⟨rfl, isLine_nil⟩⟩) hfield.isLine.not_joins
      refine List.forall_mem_cons.2 ⟨hpiece.inner ?_, List.forall_mem_cons.2 ⟨hid.identifier,
        List.forall_mem_singleton.2 hfieldPiece.identifier⟩⟩
      simp only [InOrder, identifierAt, spanOf, Text.byteLength_append, Text.byteLength_cons,
        Text.byteLength_nil]
      omega
  | start, _, _, .variant _ _ _, h, hpiece => by
    cases h with
    | @variant _ name blanks key keyText blanks' _ hname hblanks hkey hblanks' =>
      -- the identifier of a term keeps its minus
      have hterm : IsLine ('-' :: name) := isLine_cons.2 ⟨rfl, hname.isLine⟩
      have hid : Piece source start ('-' :: name) := hpiece.head rfl hterm.not_joins
      have hfirst : IsLine ('-' :: (name ++ '[' :: blanks)) := by
        simp [isLine_cons, isLine_append, hname.isLine, hblanks.isLine, isLineBreak]
      obtain ⟨hkeyNode, hkeySpan⟩ := hkey.wellPlaced
        (hpiece.within _ (blanks' ++ [']']) (by simp) hfirst hkey.isLine.not_joins)
      refine List.forall_mem_cons.2 ⟨hpiece.inner ?_, List.forall_mem_cons.2 ⟨hid.identifier,
        List.forall_mem_singleton.2 hkeyNode⟩⟩
      simp only [InOrder, identifierAt, spanOf, Text.byteLength_append, Text.byteLength_cons,
        Text.byteLength_nil] at hkeySpan ⊢
      omega
  | start, _, _, .call _ args _, h, hpiece => by
    cases h with
    | @call _ name blanks text _ _ hname _ hblanks hargs =>
      have hid : Piece source start name := hpiece.fst hname.isLine.not_joins
      have hfirst : IsLine (name ++ '(' :: blanks) := by
        simp [isLine_cons, isLine_append, hname.isLine, hblanks.isLine, isLineBreak]
      have hargsPiece : Piece source (start + byteLength (name ++ '(' :: blanks)) text :=
        hpiece.within _ [')'] (by simp) hfirst (SpellsArguments.isLine _ hargs).not_joins
      refine List.forall_mem_cons.2 ⟨hpiece.inner (.cons_spanOf (Nat.le_refl _)
        ((hargs.inOrder.mono_left ?_).mono_right ?_)), List.forall_mem_cons.2 ⟨hid.identifier,
          SpellsArguments.wellPlaced args hargs hargsPiece⟩⟩
      all_goals
        simp only [Text.byteLength_append, Text.byteLength_cons]
        omega

theorem SpellsArguments.wellPlaced : ∀ {start before text} (args : List CallArgument),
    SpellsArguments start before text args → Piece source start text →
    ∀ node ∈ argumentsNodes args, node.WellPlaced source
  | _, _, _, [], _, _ => fun node hnode => by cases hnode
  | _, _, _, argument :: args, h, hpiece => by
    cases h with
    | last hspells _ _ =>
      have hfirst := SpellsArgument.wellPlaced argument hspells
        (hpiece.fst (SpellsArgument.isLine _ hspells).not_joins)
      exact List.forall_mem_append.2 ⟨hfirst, fun node hnode => by cases hnode⟩
    | more hspells hblanks _ hblanks' hmore =>
      have hline := SpellsArgument.isLine _ hspells
      have hfirst := SpellsArgument.wellPlaced argument hspells (hpiece.fst hline.not_joins)
      refine List.forall_mem_append.2 ⟨hfirst, SpellsArguments.wellPlaced args hmore
        (hpiece.within _ [] (by simp) ?_ (SpellsArguments.isLine _ hmore).not_joins)⟩
      simp [isLine_cons, isLine_append, hline, hblanks.isLine, hblanks'.isLine, isLineBreak]

theorem SpellsArgument.wellPlaced : ∀ {start text next} (argument : CallArgument),
    SpellsArgument start text argument next → Piece source start text →
    ∀ node ∈ argument.nodes, node.WellPlaced source
  | _, _, _, .positional value, h, hpiece => by
    cases h with
    | positional hspells => exact SpellsSelector.wellPlaced value hspells hpiece
  | start, _, _, .named _ value _, h, hpiece => by
    cases h with
    | @named _ name blanks blanks' text _ _ hname hblanks hblanks' _ hspells =>
      have hid : Piece source start name := hpiece.fst hname.isLine.not_joins
      have hfirst : IsLine (name ++ (blanks ++ ':' :: blanks')) := by
        simp [isLine_cons, isLine_append, hname.isLine, hblanks.isLine, hblanks'.isLine,
          isLineBreak]
      have hvalue : Piece source (start + byteLength (name ++ (blanks ++ ':' :: blanks'))) text :=
        hpiece.within _ [] (by simp) hfirst (SpellsSelector.isLine _ hspells).not_joins
      refine List.forall_mem_cons.2 ⟨hpiece.inner ?_, List.forall_mem_cons.2 ⟨hid.identifier,
        SpellsSelector.wellPlaced value hspells hvalue⟩⟩
      rw [hspells.span_eq]
      simp only [InOrder, identifierAt, spanOf, Text.byteLength_append, Text.byteLength_cons]
      omega

end

/-! ### Patterns -/

/-- The elements of a pattern follow one another within its text. -/
theorem SpellsElements.inOrder {elements : List PatternElement}
    (h : SpellsElements start text elements) :
    InOrder start (elements.map PatternElement.span) (start + byteLength text) := by
  induction elements generalizing start text with
  | nil =>
    cases h
    exact Nat.le_refl _
  | cons element elements ih =>
    cases h with
    | text _ _ hrest =>
      rw [Text.byteLength_append, ← Nat.add_assoc]
      exact .cons_spanOf (Nat.le_refl _) (ih hrest)
    | @placeable _ inner _ rest _ _ hrest =>
      rw [show '{' :: (inner ++ '}' :: rest) = '{' :: (inner ++ ['}']) ++ rest by simp,
        Text.byteLength_append, ← Nat.add_assoc]
      exact .cons_spanOf (Nat.le_refl _) (ih hrest)

/-- The span of a pattern lies within its text. -/
theorem SpellsPattern.inOrder {pattern : Pattern} (h : SpellsPattern start text pattern)
    (hvisible : ∃ ch more, text = ch :: more ∧ isVisible ch) :
    InOrder start [pattern.span] (start + byteLength text) := by
  obtain ⟨kept, blanks, rfl, -, -, -, hspan⟩ := h.trim hvisible
  rw [hspan]
  refine .cons_spanOf (Nat.le_refl _) ?_
  rw [InOrder, Text.byteLength_append]
  omega

/-- What leads to a value is cut off in front of it. -/
theorem IsLead.piece {before lead : List Char} (h : IsLead lead text)
    (hpiece : Piece source start (before ++ text)) :
    Piece source (start + byteLength before) text := by
  obtain ⟨ch, more, rfl, hvisible⟩ := h.exists_visible
  exact hpiece.snd (Text.not_joins_cons (Text.not_isLineBreak_of_isVisible hvisible))

/-- A variant starts its text, and blanks may follow it there. -/
theorem SpellsVariant.span_start {hasDefault : Bool} {variant : Variant}
    (h : SpellsVariant start text hasDefault variant) :
    variant.span.start = start ∧ start ≤ variant.span.stop ∧
      variant.span.stop ≤ start + byteLength text := by
  cases h with
  | mk _ _ _ _ _ hlead hspells =>
    have hvalue := hspells.inOrder hlead.exists_visible
    refine ⟨rfl, ?_⟩
    simp only [InOrder, Text.byteLength_append, Text.byteLength_cons] at hvalue ⊢
    omega

/-- Variants follow one another within their text. -/
theorem SpellsVariants.inOrder {count : Nat} {default? : Option Nat} {variants : List Variant}
    {defaultIndex : Nat} (h : SpellsVariants start text count default? variants defaultIndex) :
    InOrder start (variants.map Variant.span) (start + byteLength text) := by
  induction variants generalizing start text count default? with
  | nil => cases h
  | cons variant variants ih =>
    cases h with
    | last _ hspells _ =>
      have hspan := hspells.span_start
      simp only [List.map_cons, List.map_nil, InOrder, Text.byteLength_append]
      omega
    | more _ hspells hmore =>
      have hspan := hspells.span_start
      have hrest := ih hmore
      simp only [Text.byteLength_append] at hrest ⊢
      refine .cons ?_ ?_ ((hrest.mono_left ?_).mono_right ?_)
      all_goals omega

theorem SpellsPlaceable.span_le {expression : Expression}
    (h : SpellsPlaceable start text expression) :
    InOrder start [expression.span] (start + byteLength text) := by
  cases h with
  | selector _ hspells _ _ =>
    rw [hspells.span_eq]
    simp only [InOrder, spanOf, Text.byteLength_append]
    omega
  | choice _ hspells _ _ _ _ _ _ =>
    refine .cons ?_ ?_ (Nat.le_refl _)
    all_goals
      rw [Expression.span, hspells.span_eq]
      simp only [spanOf, Text.byteLength_append]
      omega
  | bare _ _ _ _ => exact .cons_spanOf (Nat.le_refl _) (Nat.le_refl _)

mutual

/-- The nodes of a pattern are well placed where its text stands. -/
theorem SpellsPattern.wellPlaced : ∀ {start text} (pattern : Pattern),
    SpellsPattern start text pattern → (∃ ch more, text = ch :: more ∧ isVisible ch) →
    Piece source start text →
    IsCut source pattern.span.stop ∧ ∀ node ∈ pattern.nodes, node.WellPlaced source
  | _, _, ⟨elements, _⟩, h, hvisible, hpiece => by
    obtain ⟨kept, blanks, ⟨rfl, -, hspells, -, -⟩, hne, hpattern⟩ := h.exists_elements hvisible
    have hspan := (congrArg Pattern.span hpattern).trans (hspells.assemble_span hne)
    have hkept := hpiece.fst (Text.not_joins_of_not_endsLine hspells.not_endsLine)
    dsimp only at hspan hspells
    subst hspan
    exact ⟨hkept.right, List.forall_mem_cons.2
      ⟨hkept.inner hspells.inOrder, SpellsElements.wellPlaced elements hspells hkept⟩⟩

theorem SpellsElements.wellPlaced : ∀ {start text} (elements : List PatternElement),
    SpellsElements start text elements → Piece source start text →
    ∀ node ∈ elementsNodes elements, node.WellPlaced source
  | _, _, [], _, _ => fun node hnode => by cases hnode
  | _, _, .text _ _ :: elements, h, hpiece => by
    cases h with
    | @text _ _ _ rest _ _ hspells hrest =>
      have hjoins := @Text.not_joins_of_not_endsLine _ rest hspells.not_endsLine
      exact List.forall_mem_append.2 ⟨List.forall_mem_singleton.2 (hpiece.fst hjoins).leaf,
        SpellsElements.wellPlaced elements hrest (hpiece.snd hjoins)⟩
  | start, _, .placeable expression _ :: elements, h, hpiece => by
    cases h with
    | @placeable _ inner _ rest _ hinner hrest =>
      -- no line break can be cut at a brace
      have hbrace : ¬EndsLine ('{' :: (inner ++ ['}'])) :=
        @Text.not_endsLine_append_cons ('{' :: inner) _ _ rfl Text.not_endsLine_nil
      rw [show '{' :: (inner ++ '}' :: rest) = '{' :: (inner ++ ['}']) ++ rest by simp] at hpiece
      have hplaceable := hpiece.fst (Text.not_joins_of_not_endsLine hbrace)
      have hexpression : Piece source (start + 1) inner :=
        hplaceable.within ['{'] ['}'] rfl (isLine_cons.2 ⟨rfl, isLine_nil⟩)
          (Text.not_joins_cons rfl)
      refine List.forall_mem_append.2 ⟨List.forall_mem_cons.2 ⟨hplaceable.inner ?_,
        SpellsPlaceable.wellPlaced expression hinner hexpression⟩,
        SpellsElements.wellPlaced elements hrest
          (hpiece.snd (Text.not_joins_of_not_endsLine hbrace))⟩
      refine (hinner.span_le.mono_left (Nat.le_add_right _ _)).mono_right ?_
      have hopen : '{'.utf8Size = 1 := rfl
      simp only [Text.byteLength_cons, Text.byteLength_append]
      omega

/-- The nodes of a placeable are well placed where its text stands. -/
theorem SpellsPlaceable.wellPlaced : ∀ {start text} (expression : Expression),
    SpellsPlaceable start text expression → Piece source start text →
    ∀ node ∈ expression.nodes, node.WellPlaced source
  | start, _, expression, h, hpiece => by
    cases h with
    | selector hblanks hspells _ _ =>
      exact SpellsSelector.wellPlaced _ hspells
        (hpiece.within _ _ rfl hblanks.isLine (SpellsSelector.isLine _ hspells).not_joins)
    -- the span of the choice begins with its selector, behind the blanks
    | @choice _ blanks text selector blanks' blanks'' variantsText variants _ gap hblanks hspells
        hblanks' _ hblanks'' hvariants hgap hbreak =>
      have hline := SpellsSelector.isLine _ hspells
      have hselector := hpiece.within _ _ rfl hblanks.isLine hline.not_joins
      have hfirst : IsLine (blanks ++ (text ++ (blanks' ++ '-' :: '>' :: blanks''))) := by
        simp [isLine_cons, isLine_append, hline, hblanks.isLine, hblanks'.isLine, hblanks''.isLine,
          isLineBreak]
      have hlist := hpiece.within _ gap (by simp) hfirst
        (Text.not_joins_of_not_endsLine hvariants.not_endsLine)
      have hspan := hspells.span_eq
      refine List.forall_mem_cons.2 ⟨⟨?_, hpiece.right, ?_, fun _ hraw => by cases hraw⟩,
        List.forall_mem_append.2 ⟨SpellsSelector.wellPlaced _ hspells hselector,
          SpellsVariants.wellPlaced variants hvariants hlist⟩⟩
      · rw [hspan]
        exact hselector.left
      · refine .cons (Nat.le_refl _) ?_ ((hvariants.inOrder.mono_left ?_).mono_right ?_)
        all_goals
          try rw [hspan]
          simp only [spanOf, Text.byteLength_append, Text.byteLength_cons]
          omega
    -- without a selector it begins with the placeable
    | @bare _ blanks variantsText variants _ gap hblanks hvariants hgap hbreak =>
      have hlist := hpiece.within _ gap rfl hblanks.isLine
        (Text.not_joins_of_not_endsLine hvariants.not_endsLine)
      refine List.forall_mem_cons.2 ⟨hpiece.inner ((hvariants.inOrder.mono_left ?_).mono_right ?_),
        SpellsVariants.wellPlaced variants hvariants hlist⟩
      · exact Nat.le_add_right _ _
      · simp only [Text.byteLength_append]
        omega

theorem SpellsVariants.wellPlaced : ∀ {start text count default? defaultIndex}
    (variants : List Variant), SpellsVariants start text count default? variants defaultIndex →
    Piece source start text → ∀ node ∈ variantsNodes variants, node.WellPlaced source
  | _, _, _, _, _, [], _, _ => fun node hnode => by cases hnode
  | start, _, _, _, _, variant :: variants, h, hpiece => by
    cases h with
    | last hgap hspells _ =>
      have hvariant := hpiece.snd (Text.not_joins_of_not_endsLine hgap.not_endsLine)
      exact List.forall_mem_append.2 ⟨SpellsVariant.wellPlaced variant hspells hvariant,
        fun node hnode => by cases hnode⟩
    | more hgap hspells hmore =>
      obtain ⟨hvariant, hrest⟩ := hpiece.behind hgap.not_endsLine hspells.not_endsLine
      exact List.forall_mem_append.2 ⟨SpellsVariant.wellPlaced variant hspells hvariant,
        SpellsVariants.wellPlaced variants hmore hrest⟩

/-- The nodes of a variant are well placed where its text stands. -/
theorem SpellsVariant.wellPlaced : ∀ {start text hasDefault} (variant : Variant),
    SpellsVariant start text hasDefault variant → Piece source start text →
    ∀ node ∈ variant.nodes, node.WellPlaced source
  | start, _, _, ⟨key, value, _, _⟩, h, hpiece => by
    have hspan := h.span_start
    cases h with
    | @mk _ _ _ star blanks _ keyText blanks' lead text _ _ hstar hblanks hkey hblanks' hlead
        hspells =>
      have hstarLine : IsLine star := by
        rw [hstar]
        split
        · exact isLine_cons.2 ⟨rfl, isLine_nil⟩
        · exact isLine_nil
      have hfirst : IsLine (star ++ '[' :: blanks) := by
        simp [isLine_cons, isLine_append, hstarLine, hblanks.isLine, isLineBreak]
      obtain ⟨hkeyNode, hkeySpan⟩ := hkey.wellPlaced
        (hpiece.within _ (blanks' ++ ']' :: (lead ++ text)) (by simp) hfirst hkey.isLine.not_joins)
      have hvalue := hspells.inOrder hlead.exists_visible
      obtain ⟨hstop, hvalueNodes⟩ := SpellsPattern.wellPlaced value hspells hlead.exists_visible
        (hlead.piece (by simpa using hpiece))
      refine List.forall_mem_cons.2 ⟨⟨hpiece.left, hstop, ?_, fun _ hraw => by cases hraw⟩,
        List.forall_mem_cons.2 ⟨hkeyNode, hvalueNodes⟩⟩
      simp only [InOrder, Text.byteLength_append, Text.byteLength_cons] at hkeySpan hvalue ⊢
      omega

end

/-! ### Messages -/

/-- An attribute starts its text, and blanks may follow it there. -/
theorem SpellsAttribute.span_start {named : Attribute} (h : SpellsAttribute start text named) :
    named.span.start = start ∧ start ≤ named.span.stop ∧
      named.span.stop ≤ start + byteLength text := by
  cases h with
  | mk _ _ hlead hspells =>
    have hvalue := hspells.inOrder hlead.exists_visible
    refine ⟨rfl, ?_⟩
    simp only [InOrder, Text.byteLength_append, Text.byteLength_cons] at hvalue ⊢
    omega

/-- The nodes of an attribute are well placed where its text stands. -/
theorem SpellsAttribute.wellPlaced {named : Attribute} (h : SpellsAttribute start text named)
    (hpiece : Piece source start text) : ∀ node ∈ named.nodes, node.WellPlaced source := by
  cases h with
  | @mk name blanks lead text value hname hblanks hlead hspells =>
    have hid : Piece source (start + 1) name :=
      hpiece.within ['.'] _ rfl (isLine_cons.2 ⟨rfl, isLine_nil⟩) hname.isLine.not_joins
    have hvalue := hspells.inOrder hlead.exists_visible
    obtain ⟨hstop, hvalueNodes⟩ := SpellsPattern.wellPlaced value hspells hlead.exists_visible
      (hlead.piece (by simpa using hpiece))
    refine List.forall_mem_cons.2 ⟨⟨hpiece.left, hstop, ?_, fun _ hraw => by cases hraw⟩,
      List.forall_mem_cons.2 ⟨hid.identifier, hvalueNodes⟩⟩
    have hdot : '.'.utf8Size = 1 := rfl
    simp only [InOrder, identifierAt, spanOf, Text.byteLength_append,
      Text.byteLength_cons] at hvalue ⊢
    omega

theorem SpellsAttributes.inOrder {attributes : List Attribute}
    (h : SpellsAttributes start text attributes) :
    InOrder start (attributes.map Attribute.span) (start + byteLength text) := by
  induction h with
  | nil => exact Nat.le_refl _
  | cons _ hspells _ ih =>
    have hspan := hspells.span_start
    simp only [Text.byteLength_append] at ih ⊢
    refine .cons ?_ ?_ ((ih.mono_left ?_).mono_right ?_)
    all_goals omega

theorem SpellsAttributes.wellPlaced {attributes : List Attribute}
    (h : SpellsAttributes start text attributes) (hpiece : Piece source start text) :
    ∀ node ∈ attributes.flatMap Attribute.nodes, node.WellPlaced source := by
  induction h with
  | nil => exact fun node hnode => by cases hnode
  | cons hgap hspells _ ih =>
    obtain ⟨hattribute, hrest⟩ := hpiece.behind hgap.not_endsLine hspells.not_endsLine
    exact List.forall_mem_append.2 ⟨hspells.wellPlaced hattribute, ih hrest⟩

theorem SpellsValue.wellPlaced {value : Option Pattern} (h : SpellsValue start text value)
    (hpiece : Piece source start text) :
    InOrder start (value.map Pattern.span).toList (start + byteLength text) ∧
      ∀ node ∈ (value.map Pattern.nodes).getD [], node.WellPlaced source := by
  cases h with
  | none _ => exact ⟨Nat.le_add_right _ _, fun node hnode => by cases hnode⟩
  | @some lead text value hlead hspells =>
    have horder := hspells.inOrder hlead.exists_visible
    rw [Nat.add_assoc, ← Text.byteLength_append] at horder
    exact ⟨horder.mono_left (Nat.le_add_right _ _),
      (SpellsPattern.wellPlaced value hspells hlead.exists_visible (hlead.piece hpiece)).2⟩

/-- The spans and the nodes below a message or a term that has no comment yet. -/
theorem SpellsMessage.wellPlaced {message : Message} (h : SpellsMessage start text message)
    (hpiece : Piece source start text) :
    message.comment = none ∧
    InOrder start (message.id.span ::
      ((message.value.map Pattern.span).toList ++ message.attributes.map Attribute.span))
      (start + byteLength text) ∧
    ∀ node ∈ message.id.node ::
      ((message.value.map Pattern.nodes).getD [] ++ message.attributes.flatMap Attribute.nodes),
      node.WellPlaced source := by
  cases h with
  | @mk name blanks valueText value attributesText attributes hname hblanks hvalue hattributes
      _ _ =>
    have hid : Piece source start name := hpiece.fst hname.isLine.not_joins
    have hfirst : IsLine (name ++ (blanks ++ ['='])) := by
      simp [isLine_cons, isLine_append, isLine_nil, hname.isLine, hblanks.isLine, isLineBreak]
    obtain ⟨hvalueSpan, hvalueNodes⟩ := hvalue.wellPlaced
      (hpiece.within _ attributesText (by simp) hfirst
        (Text.not_joins_of_not_endsLine hvalue.not_endsLine))
    -- a value ends inside a line, so the line break in front of the attributes is whole
    have hattributesPiece : Piece source
        (start + byteLength (name ++ (blanks ++ '=' :: valueText))) attributesText := by
      refine Piece.snd ?_ (Text.not_joins_of_not_endsLine ?_)
      · simpa using hpiece
      · intro hends
        rw [show name ++ (blanks ++ '=' :: valueText) = name ++ blanks ++ '=' :: valueText by simp]
          at hends
        exact Text.not_endsLine_append_cons rfl hvalue.not_endsLine hends
    refine ⟨rfl, .cons_spanOf (Nat.le_refl _) (InOrder.append (hvalueSpan.mono_left ?_)
        ((hattributes.inOrder.mono_left ?_).mono_right ?_)),
      List.forall_mem_cons.2 ⟨hid.identifier, List.forall_mem_append.2
        ⟨hvalueNodes, hattributes.wellPlaced hattributesPiece⟩⟩⟩
    all_goals
      simp only [Text.byteLength_append, Text.byteLength_cons, Text.byteLength_nil]
      omega

/-! ### Entries -/

/-- The nodes of an entry that is spelled in front of nothing. -/
theorem SpellsEntry.wellPlaced {entry : Entry} (h : SpellsEntry start text entry rest)
    (hspan : entry.span = spanOf start text) (hpiece : Piece source start text) :
    ∀ node ∈ entry.nodes, node.WellPlaced source := by
  cases h with
  | @message _ message _ hspells _ _ =>
    obtain ⟨hcomment, hspans, hnodes⟩ := hspells.wellPlaced hpiece
    rw [span_ofMessage] at hspan
    have hmessage : ∀ node ∈ message.nodes, node.WellPlaced source := by
      rw [Message.nodes, hcomment, hspan]
      exact List.forall_mem_cons.2 ⟨hpiece.inner hspans, hnodes⟩
    split <;> exact hmessage
  | _ => exact List.forall_mem_singleton.2 hpiece.leaf

/-- The nodes of a message or a term together with the comment attached to it. -/
theorem SpellsEntry.wellPlaced_withComment {entry : Entry} {comment : Comment}
    {between behind : List Char}
    (h : SpellsEntry (start + byteLength (text ++ between)) behind entry rest)
    (hmessage : entry.IsMessage)
    (hspan : entry.span = spanOf (start + byteLength (text ++ between)) behind)
    (hcomment : comment.span = spanOf start text)
    (hpiece : Piece source start (text ++ (between ++ behind)))
    (htext : ∀ rest, ¬Joins text rest) :
    ∀ node ∈ (entry.withComment comment).nodes, node.WellPlaced source := by
  obtain ⟨message, hspells, rfl⟩ := h.exists_message hmessage
  rw [span_ofMessage] at hspan
  -- a message starts with a letter, which is no second half of a line break
  have hbehind : ¬Joins (text ++ between) behind := by
    obtain ⟨ch, more, rfl, hch⟩ := hspells.exists_head
    exact Text.not_joins_cons (isLineBreak_of_isSelectorStart (isSelectorStart_of_isNameStart hch))
  have hpiece' : Piece source start ((text ++ between) ++ behind) := by simpa using hpiece
  obtain ⟨-, hspans, hnodes⟩ := hspells.wellPlaced (hpiece'.snd hbehind)
  have hnode : comment.node.WellPlaced source := by
    rw [Comment.node, hcomment]
    exact (hpiece.fst (htext _)).leaf
  have hall : ∀ node ∈ (message.withComment comment).nodes, node.WellPlaced source := by
    refine List.forall_mem_cons.2 ⟨⟨?_, ?_, ?_, fun _ hraw => by cases hraw⟩,
      List.forall_mem_cons.2 ⟨hnode, hnodes⟩⟩
    · rw [Message.withComment, hcomment]
      exact hpiece.left
    · rw [Message.withComment, hspan]
      exact (hpiece'.snd hbehind).right
    · change InOrder comment.span.start (comment.span :: _) message.span.stop
      rw [hcomment, hspan]
      refine .cons_spanOf (Nat.le_refl _) (hspans.mono_left ?_)
      rw [Text.byteLength_append]
      omega
  split <;> exact hall

/-! ### Junk -/

/-- What is wrong with a text that is read as junk stands inside no character and no line break of
it. -/
theorem exists_diagnostic {junk : Junk} (hentry : (Cursor.atStart text).takeEntry.1 = .junk junk)
    (hend : (Cursor.atStart text).behindEntry.here.rest = []) (hne : text ≠ []) :
    ∃ diagnostic taken behind, text = taken ++ behind ∧ ¬Joins taken behind ∧
      junk.diagnostics = [diagnostic] ∧ diagnostic.span = .point (byteLength taken) := by
  obtain ⟨text', e, k, hrun, -, htakes, -, rfl⟩ :=
    (Cursor.starts_atStart text).exists_junk hne hentry
  obtain ⟨taken, hsplit, hjoins, hstop⟩ := Cursor.exists_stop hrun
  rw [show (Cursor.atStart text).here.rest = text from rfl] at hsplit
  rw [show (Cursor.atStart text).offset = 0 from rfl, Nat.zero_add] at hstop
  have hoffset : (Cursor.atStart text).behindEntry.offset = byteLength text := by
    have hrest := htakes.rest
    rw [hend, List.append_nil] at hrest
    rw [htakes.offset, ← hrest]
    exact Nat.zero_add _
  refine ⟨_, taken, k.here.rest, hsplit, hjoins, rfl, ?_⟩
  have hle : byteLength taken ≤ byteLength text := by
    rw [hsplit, Text.byteLength_append]
    exact Nat.le_add_right _ _
  -- clamped to the junk, it stays where it is
  change Span.point (min (max e.offset 0) (Cursor.atStart text).behindEntry.offset) = _
  rw [hstop, hoffset, Nat.max_zero, Nat.min_eq_left hle]

/-- What is reported about junk lies within the text that is read as junk. -/
theorem junk_diagnostics_inOrder {junk : Junk}
    (hentry : (Cursor.atStart text).takeEntry.1 = .junk junk)
    (hend : (Cursor.atStart text).behindEntry.here.rest = []) (hne : text ≠ []) (start : Nat) :
    InOrder start ((junk.mapOffsets (· + start)).diagnostics.map Diagnostic.span)
      (start + byteLength text) := by
  obtain ⟨diagnostic, taken, behind, rfl, -, hdiagnostics, hpoint⟩ :=
    exists_diagnostic hentry hend hne
  simp only [Junk.mapOffsets, hdiagnostics, List.map_cons, List.map_nil, Diagnostic.mapOffsets,
    hpoint, InOrder, Span.mapOffsets, Span.point, Text.byteLength_append]
  omega

/-- The nodes of an entry are well placed where the text that it covers stands. -/
theorem Covers.wellPlaced {entry : Entry} (h : Covers start text entry)
    (hpiece : Piece source start text) : ∀ node ∈ entry.nodes, node.WellPlaced source := by
  have hcovered := h.span_eq
  cases h with
  | read hspells hspan => exact hspells.wellPlaced hspan hpiece
  | attached hcomment _ hspells hmessage hspan =>
    exact hspells.wellPlaced_withComment hmessage hspan hcomment.comment_span hpiece
      fun _ => Text.not_joins_of_not_endsLine hcomment.not_endsLine
  | @junk text junk hentry hend hcontent =>
    -- the junk was read from offset zero: what is known there is shifted to its place
    obtain ⟨diagnostic, taken, behind, hsplit, hjoins, hdiagnostics, hpoint⟩ :=
      exists_diagnostic hentry hend hcontent.ne_nil
    have hchildren := junk_diagnostics_inOrder hentry hend hcontent.ne_nil start
    have hraw := (junk_eq hentry hend hcontent.ne_nil).1
    have hcut : IsCut source (byteLength taken + start) := by
      rw [hsplit] at hpiece
      rw [Nat.add_comm]
      exact hpiece.isCut hjoins
    have hbelow : (diagnostic.mapOffsets (· + start)).node.WellPlaced source := by
      rw [Diagnostic.node, Diagnostic.mapOffsets, hpoint]
      exact ⟨hcut, hcut, Nat.le_refl _, fun _ hraw => by cases hraw⟩
    change ∀ node ∈ (junk.mapOffsets (· + start)).nodes, node.WellPlaced source
    have hspan : (junk.mapOffsets (· + start)).span = spanOf start text := hcovered
    rw [Junk.nodes, hspan]
    simp only [Junk.mapOffsets, hdiagnostics, hraw] at hchildren ⊢
    exact List.forall_mem_cons.2 ⟨⟨hpiece.left, hpiece.right, hchildren, hpiece.rawLeaf.raw⟩,
      List.forall_mem_singleton.2 hbelow⟩

/-! ### What is reported -/

/-- What is reported about an entry. -/
def Entry.diagnostics : Entry → List Diagnostic
  | .junk j => j.diagnostics
  | _ => []

/-- Nothing is reported about an entry that is spelled. -/
theorem SpellsEntry.diagnostics_eq {entry : Entry} (h : SpellsEntry start text entry rest) :
    entry.diagnostics = [] := by
  cases h with
  | message => split <;> rfl
  | _ => rfl

theorem Entry.diagnostics_withComment (entry : Entry) (comment : Comment) :
    (entry.withComment comment).diagnostics = entry.diagnostics := by
  cases entry <;> rfl

/-- What is reported about an entry lies within the text that it covers. -/
theorem Covers.diagnostics_inOrder {entry : Entry} (h : Covers start text entry) :
    InOrder start (entry.diagnostics.map Diagnostic.span) (start + byteLength text) := by
  have hnone : entry.diagnostics = [] →
      InOrder start (entry.diagnostics.map Diagnostic.span) (start + byteLength text) := by
    intro hnil
    rw [hnil]
    exact Nat.le_add_right _ _
  cases h with
  | read hspells _ => exact hnone hspells.diagnostics_eq
  | attached _ _ hspells _ _ =>
    exact hnone ((Entry.diagnostics_withComment _ _).trans hspells.diagnostics_eq)
  | junk hentry hend hcontent => exact junk_diagnostics_inOrder hentry hend hcontent.ne_nil start

theorem Tiles.diagnostics_inOrder {entries : List Entry} (h : Tiles start text entries) :
    InOrder start ((entries.flatMap Entry.diagnostics).map Diagnostic.span)
      (start + byteLength text) := by
  induction h with
  | nil => exact Nat.le_refl _
  | cons hcovers _ _ _ _ ih =>
    simp only [Text.byteLength_append] at ih ⊢
    rw [List.flatMap_cons, List.map_append]
    refine hcovers.diagnostics_inOrder.append ((ih.mono_left ?_).mono_right ?_)
    all_goals omega

theorem Resource.diagnostics_eq (resource : Resource) :
    resource.diagnostics = resource.body.flatMap Entry.diagnostics := by
  unfold diagnostics junk
  induction resource.body with
  | nil => rfl
  | cons entry rest ih => cases entry <;> simp [Entry.diagnostics, ih]

/-- What is reported about a source follows the source. -/
theorem Resource.diagnostics_inOrder (source : List Char) :
    InOrder 0 ((read source).diagnostics.map Diagnostic.span) (byteLength source) := by
  obtain ⟨gap, rest, hsource, -, -, htiles⟩ := tiles source
  have horder := htiles.diagnostics_inOrder.mono_left (Nat.zero_le _)
  rwa [← Text.byteLength_append, ← hsource, ← diagnostics_eq] at horder

/-- What is reported about a source that is too long stays within what is held of it. -/
theorem Resource.parse_diagnostics_inOrder (source : String) :
    InOrder 0 ((parse source).diagnostics.map Diagnostic.span) (byteLength source.toList) :=
  (diagnostics_inOrder (Cursor.held source.toList)).mono_right
    (Text.byteLength_le_of_isInfix (Cursor.held_isPrefix source.toList).isInfix)

/-! ### Resources -/

/-- The entries of a tiled text follow one another. -/
theorem Tiles.inOrder {entries : List Entry} (h : Tiles start text entries) :
    InOrder start (entries.map Entry.span) (start + byteLength text) := by
  induction h with
  | nil => exact Nat.le_refl _
  | cons hcovers _ _ _ _ ih =>
    rw [List.map_cons, hcovers.span_eq]
    simp only [Text.byteLength_append] at ih ⊢
    refine .cons_spanOf (Nat.le_refl _) ((ih.mono_left ?_).mono_right ?_)
    all_goals omega

namespace Resource

/-- The span of every node of a resource can be cut out of what is held of the source, lies in that
of the node above it and follows those of the nodes in front; names, numbers and junk are what is
cut out. -/
theorem parse_wellPlaced (source : String) :
    (parse source).WellPlaced (Cursor.held source.toList) := by
  refine List.forall_mem_cons.2 ⟨⟨?_, ?_, ?_, fun _ hraw => by cases hraw⟩, fun node hnode => ?_⟩
  · exact ⟨[], _, rfl, rfl, fun hjoins => by cases hjoins.1⟩
  · exact ⟨_, [], (List.append_nil _).symm, rfl, fun hjoins => by cases hjoins.2⟩
  · obtain ⟨gap, rest, hsource, -, -, htiles⟩ := tiles (Cursor.held source.toList)
    have horder := htiles.inOrder.mono_left (Nat.zero_le _)
    rwa [← Text.byteLength_append, ← hsource] at horder
  · obtain ⟨entry, hentry, hnode⟩ := List.mem_flatMap.1 hnode
    obtain ⟨before, covered, after, hsource, hbefore, hjoins, hcovers⟩ := exists_covers hentry
    refine hcovers.wellPlaced ⟨⟨before, after, hsource, rfl⟩, ?_, ?_⟩ node hnode
    · exact ⟨before, _, hsource, rfl,
        Text.not_joins_of_head? (hcovers.hasContent.append after).head?_ne⟩
    · refine ⟨before ++ covered, after, by rw [hsource, List.append_assoc],
        Text.byteLength_append _ _, ?_⟩
      rw [Joins, List.getLast?_append_of_ne_nil _ hcovers.hasContent.ne_nil]
      exact hjoins

end Resource

end Localization
