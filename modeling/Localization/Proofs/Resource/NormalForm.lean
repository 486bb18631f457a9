import Localization.Proofs.Resource.Subtrees
import Mathlib.Data.List.Chain

/-!
# Normal form of entries and patterns

Escapes, indentation and blank lines are gone from the texts of what was read, and so are the
blanks around a pattern. What is left has a normal form: texts are joined as far as they go, they
hold no indentation and no carriage return, and an entry is a term exactly if its name says so.

## Main definitions

* `NormalText` — the value of a text anywhere in a pattern
* `Pattern.Normal`, `Entry.Normal` — the normal form of patterns and entries
* `Resource.Normal` — a resource in normal form, at any depth

## Main statements

* `SpellsText.normal` — a run of text has a normal value
* `SpellsElements.follow` — what can follow an element
* `Resource.parse_normal` — what is read is in normal form
-/

namespace Localization

open Localization.Parser (trimLast)
open Text (Ends IsBlanks StartsBreak isVisible)

/-! ### Normal forms -/

/-- The value of a text: lines joined by line feeds, without indentation, that could not have ended
the pattern. -/
structure NormalText (value : List Char) : Prop where
  ne_nil : value ≠ []
  no_return : '\r' ∉ value
  lines : value.IsChain fun ch next =>
    ch = '\n' → isInlineBlank next = false ∧ Cursor.endsPattern next = false

/-- What can follow an element: no text behind a text, and no placeable behind a backslash. -/
def PatternElement.Precedes : PatternElement → PatternElement → Prop
  | .text _ _, .text _ _ => False
  | .text value _, .placeable _ _ => value.toList.getLast? ≠ some '\\'
  | .placeable _ _, _ => True

/-- A pattern with an element whose texts are normal, joined, and without blanks around them. -/
structure Pattern.Normal (pattern : Pattern) : Prop where
  ne_nil : pattern.elements ≠ []
  texts : ∀ value span, .text value span ∈ pattern.elements → NormalText value.toList
  chain : pattern.elements.IsChain PatternElement.Precedes
  first : ∀ value span, pattern.elements.head? = some (.text value span) →
    ∀ ch ∈ value.toList.head?, ch ≠ ' ' ∧ ch ≠ '\t' ∧ ch ≠ '\n'
  last : ∀ value span, pattern.elements.getLast? = some (.text value span) →
    ∀ ch ∈ value.toList.getLast?, ch ≠ ' ' ∧ ch ≠ '\t' ∧ ch ≠ '\n'

/-- A message or a term with its names, and a value or an attribute. -/
structure Message.Normal (message : Message) : Prop where
  isEntryName : IsEntryName message.id.name.toList
  attributes : ∀ named ∈ message.attributes, IsName named.id.name.toList
  content : message.value.isSome ∨ message.attributes ≠ []

/-- An entry is a term if its name starts with a minus sign, and a term has a value. -/
def Entry.Normal : Entry → Prop
  | .message m => m.Normal ∧ m.isTerm = false
  | .term m => m.Normal ∧ m.isTerm ∧ m.value.isSome
  | .comment _ _ => True
  | .junk _ => True

/-- The entries of a resource and its patterns at any depth are in normal form. -/
structure Resource.Normal (resource : Resource) : Prop where
  entries : ∀ entry ∈ resource.body, entry.Normal
  patterns : ∀ pattern, .pattern pattern ∈ resource.subtrees → pattern.Normal

variable {start : Nat} {raw value text : List Char} {next : Option Char}

/-! ### How the value of a text starts -/

theorem SpellsText.head?_of_startsBreak (h : SpellsText raw value next) (hbreak : StartsBreak raw) :
    value.head? = some '\n' := by
  cases h with
  | stop _ => exact absurd hbreak (by simp [StartsBreak])
  | plain _ _ hplain _ =>
    rw [Text.startsBreak_cons, hplain] at hbreak
    cases hbreak
  | escape _ _ => exact absurd hbreak (by simp [StartsBreak, isLineBreak])
  | slash _ _ => exact absurd hbreak (by simp [StartsBreak, isLineBreak])
  | blankLine _ _ _ _ _ => rfl
  | indent _ _ _ _ _ => rfl

/-- A value starts with the character that its text starts with, unless an escape stands there. -/
theorem SpellsText.head?_of_isVisible (h : SpellsText raw value next)
    (hvisible : ∀ ch ∈ raw.head?, isVisible ch) :
    ∀ ch ∈ value.head?, raw.head? = some ch ∨ ch = '{' ∨ ch = '"' := by
  intro ch hch
  cases h with
  | stop _ => cases hch
  | plain _ _ _ _ => exact .inl hch
  | escape hescape _ =>
    obtain rfl := Option.some.inj hch
    exact .inr hescape
  | slash _ _ => exact .inl hch
  | blankLine hending _ _ _ _ =>
    exact absurd hending.startsBreak (Text.StartsVisible.not_startsBreak hvisible)
  | indent hending _ _ _ _ =>
    exact absurd hending.startsBreak (Text.StartsVisible.not_startsBreak hvisible)

/-! ### The value of a text -/

theorem SpellsText.not_mem_return (h : SpellsText raw value next) : '\r' ∉ value := by
  induction h with
  | stop _ => exact List.not_mem_nil
  | plain _ _ hbreak _ ih =>
    refine List.not_mem_cons_of_ne_of_not_mem ?_ ih
    rintro rfl
    cases hbreak
  | escape hescape _ ih =>
    refine List.not_mem_cons_of_ne_of_not_mem ?_ ih
    rintro rfl
    simp at hescape
  | slash _ _ ih => exact List.not_mem_cons_of_ne_of_not_mem (by decide) ih
  | blankLine _ _ _ _ _ ih => exact List.not_mem_cons_of_ne_of_not_mem (by decide) ih
  | indent _ _ _ _ _ ih => exact List.not_mem_cons_of_ne_of_not_mem (by decide) ih

/-- Behind a line feed stands the next one, or what could not have ended the pattern. -/
theorem SpellsText.lines (h : SpellsText raw value next) : value.IsChain fun ch next =>
    ch = '\n' → isInlineBlank next = false ∧ Cursor.endsPattern next = false := by
  induction h with
  | stop _ => exact .nil
  | plain _ _ hbreak _ ih =>
    refine ih.cons fun _ _ hfeed => ?_
    rw [hfeed] at hbreak
    cases hbreak
  | escape hescape _ ih =>
    refine ih.cons fun _ _ hfeed => ?_
    rw [hfeed] at hescape
    simp at hescape
  | slash _ _ ih => exact ih.cons fun _ _ hfeed => absurd hfeed (by decide)
  | blankLine _ _ _ hbreak hspells ih =>
    -- the line behind the break is blank, too: another line feed stands for it
    refine ih.cons fun ch hch _ => ?_
    obtain rfl := Option.mem_unique hch (hspells.head?_of_startsBreak hbreak)
    decide
  | @indent _ _ raw value next _ _ _ hcontent hspells ih =>
    -- the pattern went on behind the break, so the first visible character did not end it
    refine ih.cons fun ch hch _ => ?_
    obtain ⟨content, hcontent, hvisible, hends⟩ := hcontent
    have hhead : ∀ first ∈ raw.head?, first = content := by
      intro first hfirst
      rw [Option.mem_def.1 hfirst] at hcontent
      exact Option.some.inj hcontent
    have hfirst := hspells.head?_of_isVisible fun first hfirst => hhead first hfirst ▸ hvisible
    rcases hfirst ch hch with heq | rfl | rfl
    · rw [hhead ch heq]
      exact ⟨Text.not_isInlineBlank_of_isVisible hvisible, hends⟩
    · decide
    · decide

theorem SpellsText.normal (h : SpellsText raw value next) (hne : raw ≠ []) : NormalText value where
  ne_nil := mt h.eq_nil hne
  no_return := h.not_mem_return
  lines := h.lines

/-! ### How the value of a text ends -/

theorem getLast?_cons_ne {ch last : Char} (h : value.getLast? ≠ some last)
    (hch : value = [] → ch ≠ last) : (ch :: value).getLast? ≠ some last := by
  cases value with
  | nil => simpa using hch rfl
  | cons first value => rwa [List.getLast?_cons_cons]

/-- At the end of a pattern no text ends with a line feed. -/
theorem SpellsText.getLast?_ne_newline (h : SpellsText raw value none) :
    value.getLast? ≠ some '\n' := by
  generalize hnext : (none : Option Char) = next at h
  induction h with
  | stop _ => simp
  | plain _ _ hbreak _ ih =>
    refine getLast?_cons_ne (ih hnext) fun _ hch => ?_
    rw [hch] at hbreak
    cases hbreak
  | escape hescape _ ih =>
    refine getLast?_cons_ne (ih hnext) fun _ hch => ?_
    rw [hch] at hescape
    simp at hescape
  | slash _ _ ih => exact getLast?_cons_ne (ih hnext) fun _ => by decide
  | blankLine _ _ _ hbreak hspells ih =>
    -- more of the text follows a line break, so the line feed is not the last character
    refine getLast?_cons_ne (ih hnext) fun hnil _ => ?_
    rw [hspells.eq_nil hnil] at hbreak
    simp [StartsBreak] at hbreak
  | indent _ _ _ hcontent hspells ih =>
    refine getLast?_cons_ne (ih hnext) fun hnil _ => ?_
    rw [hspells.eq_nil hnil, ← hnext] at hcontent
    simp at hcontent

/-- In front of a placeable no text ends with a backslash. -/
theorem SpellsText.getLast?_ne_backslash (h : SpellsText raw value (some '{')) :
    value.getLast? ≠ some '\\' := by
  generalize hnext : some '{' = next at h
  induction h with
  | stop _ => simp
  | plain _ hslash _ _ ih => exact getLast?_cons_ne (ih hnext) fun _ => hslash
  | escape hescape _ ih =>
    refine getLast?_cons_ne (ih hnext) fun _ hch => ?_
    rw [hch] at hescape
    simp at hescape
  | slash hhead hspells ih =>
    refine getLast?_cons_ne (ih hnext) fun hnil _ => ?_
    -- the brace would have been escaped
    rw [hspells.eq_nil hnil, ← hnext] at hhead
    exact (hhead '{' rfl).1 rfl
  | blankLine _ _ _ _ _ ih => exact getLast?_cons_ne (ih hnext) fun _ => by decide
  | indent _ _ _ _ _ ih => exact getLast?_cons_ne (ih hnext) fun _ => by decide

/-! ### Elements -/

theorem SpellsElements.texts : ∀ {start text} (elements : List PatternElement),
    SpellsElements start text elements →
    ∀ value span, .text value span ∈ elements → NormalText value.toList
  | _, _, [], _, _, _, hmem => by cases hmem
  | _, _, .text _ _ :: elements, h, value, span, hmem => by
    cases h with
    | text hne hspells hrest =>
      rcases List.mem_cons.1 hmem with heq | hmem
      · cases heq
        rw [String.toList_ofList]
        exact hspells.normal hne
      · exact SpellsElements.texts elements hrest value span hmem
  | _, _, .placeable _ _ :: elements, h, value, span, hmem => by
    cases h with
    | placeable _ hrest =>
      exact SpellsElements.texts elements hrest value span (List.mem_of_ne_of_mem (by simp) hmem)

/-- What follows a text is a placeable, and the text did not escape its brace. -/
theorem SpellsElements.follow {start : Nat} {text : List Char} (elements : List PatternElement)
    (h : SpellsElements start text elements) : elements.IsChain PatternElement.Precedes := by
  induction elements generalizing start text with
  | nil => exact .nil
  | cons element elements ih =>
    cases h with
    | text _ hspells hrest =>
      refine (ih hrest).cons fun element helement => ?_
      obtain ⟨elements, rfl⟩ := List.head?_eq_some_iff.1 helement
      cases hrest with
      | @text _ raw _ _ _ hne hspells' _ =>
        -- a text within a pattern ends in front of a brace, and no text starts with one
        rw [List.head?_append_of_ne_nil _ hne] at hspells
        cases raw with
        | nil => exact absurd rfl hne
        | cons first raw => exact hspells'.head?_ne (congrArg some (hspells.next_eq first rfl))
      | placeable _ _ =>
        rw [PatternElement.Precedes, String.toList_ofList]
        exact hspells.getLast?_ne_backslash
    | placeable _ hrest => exact (ih hrest).cons fun _ _ => trivial

theorem SpellsElements.first_text {span : Span} {value : String}
    {elements : List PatternElement} (h : SpellsElements start text (.text value span :: elements))
    (hvisible : ∀ ch ∈ text.head?, isVisible ch) :
    ∀ ch ∈ value.toList.head?, ch ≠ ' ' ∧ ch ≠ '\t' ∧ ch ≠ '\n' := by
  cases h with
  | @text _ raw _ rest _ hne hspells _ =>
    rw [String.toList_ofList]
    rw [List.head?_append_of_ne_nil _ hne] at hvisible
    intro ch hch
    rcases hspells.head?_of_isVisible hvisible ch hch with heq | rfl | rfl
    · have hch := hvisible ch heq
      refine ⟨?_, ?_, ?_⟩ <;> rintro rfl <;> cases hch
    · decide
    · decide

theorem SpellsElements.last_text : ∀ {start text} (elements : List PatternElement),
    SpellsElements start text elements →
    ∀ value span, elements.getLast? = some (.text value span) →
      value.toList.getLast? ≠ some '\n'
  | _, _, [], _, _, _, hlast => by cases hlast
  | _, _, [.text _ _], h, value, span, hlast => by
    cases h with
    | text _ hspells hrest =>
      cases hlast
      cases hrest
      rw [String.toList_ofList]
      exact hspells.getLast?_ne_newline
  | _, _, [.placeable _ _], _, _, _, hlast => by cases hlast
  -- any other element is in front of the last one
  | _, _, .text _ _ :: second :: elements, h, value, span, hlast => by
    rw [List.getLast?_cons_cons] at hlast
    cases h with
    | text _ _ hrest => exact SpellsElements.last_text (second :: elements) hrest value span hlast
  | _, _, .placeable _ _ :: second :: elements, h, value, span, hlast => by
    rw [List.getLast?_cons_cons] at hlast
    cases h with
    | placeable _ hrest =>
      exact SpellsElements.last_text (second :: elements) hrest value span hlast

/-- Where no blanks can be cut from the last element, it does not end with any. -/
theorem ends_of_trimLast {value : String} {span : Span} {before : List PatternElement}
    (h : trimLast (.text value span :: before) = .text value span :: before) :
    Ends isInlineBlank value.toList.getLast? := by
  unfold trimLast at h
  dsimp only at h
  split at h
  · -- the element would have been dropped
    exact absurd (congrArg List.length h) (by simp)
  · injection h with hhead _
    injection hhead with hvalue _
    rw [← hvalue, String.toList_ofList, List.getLast?_reverse]
    intro ch hch
    have hdrop := List.head?_dropWhile_not isInlineBlank value.toList.reverse
    rw [Option.mem_def.1 hch] at hdrop
    simpa using hdrop

theorem SpellsPattern.normal {pattern : Pattern} (h : SpellsPattern start text pattern)
    (hvisible : ∃ ch more, text = ch :: more ∧ isVisible ch) : pattern.Normal := by
  obtain ⟨kept, blanks, htrimmed, hne, -⟩ := h.exists_elements hvisible
  have hspells := htrimmed.spells
  refine ⟨mt hspells.eq_nil hne, hspells.texts, hspells.follow, ?_, ?_⟩
  · intro value span hfirst
    obtain ⟨elements, heq⟩ := List.head?_eq_some_iff.1 hfirst
    rw [heq] at hspells
    refine hspells.first_text fun ch hch => ?_
    obtain ⟨first, more, htext, hfirst⟩ := hvisible
    -- trimming has cut nothing from the start
    have hhead : text.head? = kept.head? := by
      rw [htrimmed.text_eq, List.head?_append_of_ne_nil _ hne]
    rw [htext] at hhead
    obtain rfl := Option.mem_unique hch hhead.symm
    exact hfirst
  · intro value span hlast ch hch
    have hfeed := hspells.last_text _ value span hlast
    have htrim := htrimmed.trimLast_kept
    obtain ⟨before, heq⟩ := List.head?_eq_some_iff.1 ((List.head?_reverse ..).trans hlast)
    rw [heq] at htrim
    have hblank := ends_of_trimLast htrim ch hch
    refine ⟨?_, ?_, ?_⟩
    · rintro rfl
      cases hblank
    · rintro rfl
      cases hblank
    · rintro rfl
      exact hfeed hch

/-! ### Entries -/

theorem SpellsMessage.normal {message : Message} (h : SpellsMessage start text message) :
    message.Normal ∧ (message.isTerm → message.value.isSome) := by
  cases h with
  | mk hname _ _ hattributes hterm hsays =>
    refine ⟨⟨?_, fun named hnamed => ?_, ?_⟩, ?_⟩
    · rwa [identifierAt, String.toList_ofList]
    · obtain ⟨_, _, _, -, -, hspells⟩ := hattributes.exists_attribute hnamed
      cases hspells with
      | mk hname _ _ _ => rwa [identifierAt, String.toList_ofList]
    · simpa [or_iff_not_imp_left, ← Option.isSome_iff_ne_none] using hsays
    · intro hisTerm
      rw [show (identifierAt _ _).isTerm = true from hisTerm] at hterm
      simpa [← Option.isSome_iff_ne_none] using hterm

theorem Message.normal_entry {message : Message} {comment : Option Comment} {span : Span}
    (h : message.Normal) (hterm : message.isTerm → message.value.isSome) :
    (message.entry comment span).Normal := by
  have hwhole : ({ message with comment, span } : Message).Normal := ⟨h.1, h.2, h.3⟩
  unfold Message.entry
  cases hisTerm : message.isTerm with
  | true => exact ⟨hwhole, hisTerm, hterm hisTerm⟩
  | false => exact ⟨hwhole, hisTerm⟩

/-- Whatever is read is in normal form: a term is what its name says and has a value, a message says
something, and the patterns at any depth consist of normal texts and placeables without blanks
around them. -/
theorem Resource.parse_normal (source : String) : (parse source).Normal where
  entries entry hentry := by
    have hmessage : entry.IsMessage → entry.Normal := by
      intro hmessage
      obtain ⟨_, _, message, comment, span, hspells, rfl⟩ :=
        exists_spellsMessage hentry hmessage
      exact Message.normal_entry hspells.normal.1 hspells.normal.2
    cases entry with
    | message m => exact hmessage ⟨m, .inl rfl⟩
    | term m => exact hmessage ⟨m, .inr rfl⟩
    | comment _ _ => trivial
    | junk _ => trivial
  patterns pattern hpattern := by
    obtain ⟨_, _, hspells, hvisible⟩ := spelled_of_mem_subtrees hpattern
    exact hspells.normal hvisible

end Localization
