import Localization.Proofs.Resource.Locality

/-!
# Sources that are a single message

A source that is an identifier, an equals sign between two spaces and a pattern from its first
character on is read as one message that has this pattern for its value. A pattern that is a single
placeable needs no more than the spelling of its expression.

## Main definitions

* `assignment` — the source that gives an identifier a value
* `placed` — the source of a message that holds one placeable

## Main statements

* `Resource.body_assignment` — a source that gives an identifier a value is one message
* `Resource.body_placeable`, `Resource.body_selector` — the value may be a single placeable, which
  may hold an expression without variants
-/

namespace Localization

open Text (byteLength isVisible)

variable {id text inner : List Char}

/-- The source that gives an identifier a value. -/
def assignment (id text : List Char) : List Char := id ++ ' ' :: '=' :: ' ' :: text

/-- The source `m = { text }`. -/
def placed (text : String) : String := "m = \x7b " ++ text ++ " \x7d"

theorem byteLength_assignment (id text : List Char) :
    byteLength (assignment id text) = byteLength id + 3 + byteLength text := by
  simp only [assignment, Text.byteLength_append, Text.byteLength_cons,
    show Char.utf8Size ' ' = 1 from rfl, show Char.utf8Size '=' = 1 from rfl]
  omega

/-- A letter is a name. -/
theorem isName_singleton {letter : Char} (h : isIdentifierStart letter) : IsName [letter] :=
  ⟨letter, [], h, by simp, rfl⟩

/-- A single element that loses no blanks is a pattern of its own. -/
theorem SpellsElements.spellsPattern {start : Nat} {element : PatternElement}
    (h : SpellsElements start text [element]) (htrim : Parser.trimLast [element] = [element]) :
    SpellsPattern start text ⟨[element], spanOf start text⟩ := by
  have hspan := h.assemble_span (h.ne_nil (List.cons_ne_nil _ _))
  have hpattern := SpellsPattern.mk h
  rw [List.reverse_singleton] at hspan hpattern
  rw [htrim] at hpattern
  rw [← hspan]
  exact hpattern

/-- A text that ends with no blank is a pattern of its own. -/
theorem SpellsText.spellsPattern {value : List Char} (start : Nat) (h : SpellsText text value none)
    (hne : value ≠ []) (hends : Text.Ends isInlineBlank value.getLast?) :
    SpellsPattern start text
      ⟨[.text (String.ofList value) (spanOf start text)], spanOf start text⟩ := by
  have htrim := @trimLast_text text [] start value [] Text.isBlanks_nil hends h.eq_nil
  rw [List.append_nil, List.append_nil, if_neg hne] at htrim
  have hspells := @SpellsElements.text start text value [] [] (mt h.value_eq_nil hne) h .nil
  rw [List.append_nil] at hspells
  exact hspells.spellsPattern htrim

/-- A placeable is a pattern of its own. -/
theorem SpellsPlaceable.spellsPattern {start : Nat} {expression : Expression}
    (h : SpellsPlaceable (start + 1) inner expression) :
    let text := '{' :: (inner ++ ['}'])
    SpellsPattern start text ⟨[.placeable expression (spanOf start text)], spanOf start text⟩ :=
  (SpellsElements.placeable h .nil).spellsPattern rfl

namespace Resource

/-- A source that gives an identifier a value is one message with that value. -/
theorem body_assignment (hid : IsName id) {pattern : Pattern}
    (hvisible : ∃ ch more, text = ch :: more ∧ isVisible ch)
    (h : SpellsPattern (byteLength id + 3) text pattern) :
    (read (assignment id text)).body =
      [.message ⟨identifierAt 0 id, some pattern, [], none, ⟨0, pattern.span.stop⟩⟩] := by
  obtain ⟨ch, more, rfl, hch⟩ := hvisible
  have hstart : byteLength id + 3 = 0 + byteLength (id ++ ([' '] ++ ['='])) + byteLength [' '] := by
    simp only [Text.byteLength_append, Text.byteLength_cons, Text.byteLength_nil,
      show Char.utf8Size ' ' = 1 from rfl, show Char.utf8Size '=' = 1 from rfl]
    omega
  rw [hstart] at h
  have hvalue := SpellsValue.some (.inline Text.isBlanks_space hch) h
  have hmessage := SpellsMessage.mk (.inl hid) Text.isBlanks_space hvalue .nil
    (Bool.and_false _) (Bool.false_and _)
  rw [List.append_nil] at hmessage
  have hentry := SpellsEntry.message hmessage (.inl rfl) rfl
  have hterm : (identifierAt 0 id).isTerm = false := hid.isTerm
  simp only [Message.isTerm, hterm] at hentry
  obtain ⟨touches, hentries⟩ := (Cursor.starts_atStart _).takeEntries_of_spells hentry
    (List.append_nil _).symm Text.isGap_nil lineEnds_nil
  have hbody := body_read hentry.hasContent
  rw [hentries, attachComments_singleton] at hbody
  exact hbody

/-- A source that gives an identifier a placeable is one message with that expression. -/
theorem body_placeable (hid : IsName id) {expression : Expression}
    (h : SpellsPlaceable (byteLength id + 4) inner expression) :
    let span := spanOf (byteLength id + 3) ('{' :: (inner ++ ['}']))
    (read (assignment id ('{' :: (inner ++ ['}'])))).body =
      [.message ⟨identifierAt 0 id, some ⟨[.placeable expression span], span⟩, [], none,
        ⟨0, span.stop⟩⟩] :=
  body_assignment hid ⟨_, _, rfl, by decide⟩ h.spellsPattern

/-- A source that places an expression without variants is one message with that expression. -/
theorem body_selector {text : String} {expression : Expression}
    (h : SpellsSelector 6 text.toList expression (some ' '))
    (hterm : Parser.isTermAttribute expression = false) :
    let span : Span := ⟨4, 8 + byteLength text.toList⟩
    (read (placed text).toList).body =
      [.message ⟨⟨"m", ⟨0, 1⟩⟩, some ⟨[.placeable expression span], span⟩, [], none,
        ⟨0, span.stop⟩⟩] := by
  have hid : IsName ['m'] := isName_singleton (by decide)
  have hinner : SpellsPlaceable (byteLength ['m'] + 4) ([' '] ++ (text.toList ++ [' ']))
      expression := .selector Text.isBlanks_space h Text.isBlanks_space hterm
  have hspan : spanOf (byteLength ['m'] + 3) ('{' :: ([' '] ++ (text.toList ++ [' ']) ++ ['}'])) =
      ⟨4, 8 + byteLength text.toList⟩ := by
    simp only [spanOf, Text.byteLength_append, Text.byteLength_cons, Text.byteLength_nil,
      List.cons_append, List.nil_append, show byteLength ['m'] = 1 from rfl,
      show Char.utf8Size ' ' = 1 from rfl, show Char.utf8Size '{' = 1 from rfl,
      show Char.utf8Size '}' = 1 from rfl, Span.mk.injEq, true_and]
    omega
  have hbody := body_placeable hid hinner
  rw [hspan] at hbody
  have hsource : (placed text).toList =
      assignment ['m'] ('{' :: ([' '] ++ (text.toList ++ [' ']) ++ ['}'])) := by
    simp [placed, assignment, String.toList_append]
  rw [hsource, hbody]
  rfl

end Resource

end Localization
