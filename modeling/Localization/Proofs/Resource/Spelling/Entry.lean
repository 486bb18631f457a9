import Localization.Proofs.Resource.Spelling.Comment
import Localization.Proofs.Resource.Spelling.Message
import Localization.Proofs.Resource.Spelling.Trim

/-!
# How entries are spelled

An entry is a comment in one of its three forms, or a message or a term. It is read as far as its
text goes, provided that the text behind it does not go on with it.

## Main definitions

* `SpellsEntry` — which text spells which entry, in front of which text
* `Parser.entryLine` — an entry and the end of its line

## Main statements

* `Parser.entryLine_returns`, `Parser.entryLine_yields` — what is read is spelled, and the other way
* `SpellsEntry.trim` — the span of an entry covers a text that spells it alone
-/

namespace Localization

open Text (Ends IsBlanks IsGap byteLength startsAttribute startsComment startsLegacyComment)

/-- A text that spells an entry in front of another text. -/
inductive SpellsEntry : Nat → List Char → Entry → List Char → Prop
  | marked {start level text content rest} : 1 ≤ level → level ≤ 3 →
      CommentLines MarkedLine (marks level) text content → LineEnds rest →
      startsComment level rest = false →
      SpellsEntry start (marks level ++ text)
        (.comment (Parser.commentLevel level)
          ⟨String.ofList content, spanOf start (marks level ++ text)⟩) rest
  | slashed {start text content rest} : CommentLines SlashedLine ['/', '/'] text content →
      LineEnds rest → startsLegacyComment rest = false →
      SpellsEntry start ('/' :: '/' :: text)
        (.comment .plain ⟨String.ofList content, spanOf start ('/' :: '/' :: text)⟩) rest
  | header {start blanks first more spaces blanks' rest} : IsBlanks blanks →
      isIdentifierStart first → (∀ ch ∈ more, isVariantNameChar ch) →
      (first :: more).getLast? ≠ some ' ' → (∀ ch ∈ spaces, ch = ' ') → IsBlanks blanks' →
      Ends isVariantNameChar (blanks' ++ [']']).head? →
      SpellsEntry start
        ('[' :: '[' :: (blanks ++ (first :: (more ++ spaces ++ (blanks' ++ [']', ']'])))))
        (.comment .group ⟨String.ofList (first :: more), spanOf start
          ('[' :: '[' :: (blanks ++ (first :: (more ++ spaces ++ (blanks' ++ [']', ']'])))))⟩) rest
  | message {start text message rest} : SpellsMessage start text message → PatternEnds rest →
      startsAttribute rest = false →
      SpellsEntry start text (if message.isTerm then .term message else .message message) rest

variable {start : Nat} {text rest : List Char} {entry : Entry}

/-- What ends a line: a line break, or nothing at the end of the text. -/
def IsLineEnd (ending rest : List Char) : Prop :=
  ending = [] ∧ rest = [] ∨ Text.afterBreak? (ending ++ rest) = some rest

theorem IsLineEnd.isGap {ending : List Char} (h : IsLineEnd ending rest) : IsGap ending := by
  rcases h with ⟨rfl, -⟩ | hbreak
  · exact Text.isGap_nil
  · obtain ⟨ending', hending, htext⟩ := Text.afterBreak?_eq_some hbreak
    rw [List.append_cancel_right htext]
    exact hending.isGap

theorem SpellsMessage.exists_head {message : Message} (h : SpellsMessage start text message) :
    ∃ ch more, text = ch :: more ∧ isNameStart ch := by
  cases h with
  | mk hname _ _ _ _ _ =>
    obtain ⟨ch, more, rfl, hch⟩ := hname.exists_head
    exact ⟨ch, _, rfl, hch⟩

theorem isEntryStart_of_isNameStart {ch : Char} (h : isNameStart ch) : isEntryStart ch := by
  simp only [isNameStart, Bool.or_eq_true, decide_eq_true_eq] at h
  rcases h with rfl | h
  · decide
  · simp [isEntryStart, h]

/-- An entry starts with a character that can start one. -/
theorem SpellsEntry.exists_head (h : SpellsEntry start text entry rest) :
    ∃ ch more, text = ch :: more ∧ isEntryStart ch := by
  cases h with
  | @marked level _ _ _ hlevel _ _ _ _ =>
    obtain ⟨level, rfl⟩ := Nat.exists_eq_succ_of_ne_zero (Nat.one_le_iff_ne_zero.1 hlevel)
    exact ⟨'#', _, rfl, by decide⟩
  | slashed _ _ _ => exact ⟨'/', _, rfl, by decide⟩
  | header _ _ _ _ _ _ _ => exact ⟨'[', _, rfl, by decide⟩
  | message hspells _ _ =>
    obtain ⟨ch, more, rfl, hch⟩ := hspells.exists_head
    exact ⟨ch, more, rfl, isEntryStart_of_isNameStart hch⟩

theorem span_ofMessage (message : Message) :
    (if message.isTerm then Entry.term message else Entry.message message).span = message.span := by
  split <;> rfl

/-- The span of an entry covers a text that spells it alone, and blanks follow that text. -/
theorem SpellsEntry.trim (h : SpellsEntry start text entry rest) :
    ∃ kept blanks, text = kept ++ blanks ∧ IsBlanks blanks ∧ entry.span = spanOf start kept ∧
      SpellsEntry start kept entry [] := by
  cases h with
  | marked hlevel hle hlines _ _ =>
    exact ⟨_, [], (List.append_nil _).symm, Text.isBlanks_nil, rfl,
      .marked hlevel hle hlines lineEnds_nil rfl⟩
  | slashed hlines _ _ =>
    exact ⟨_, [], (List.append_nil _).symm, Text.isBlanks_nil, rfl,
      .slashed hlines lineEnds_nil rfl⟩
  | header hblanks hfirst hmore hlast hspaces hblanks' hend =>
    exact ⟨_, [], (List.append_nil _).symm, Text.isBlanks_nil, rfl,
      .header hblanks hfirst hmore hlast hspaces hblanks' hend⟩
  | message hspells _ _ =>
    obtain ⟨kept, blanks, rfl, hblanks, hspells, hspan⟩ := hspells.trim
    exact ⟨kept, blanks, rfl, hblanks, (span_ofMessage _).trans hspan,
      .message hspells (.inl rfl) rfl⟩

namespace Parser

variable {c d : Cursor}

/-! ### Entries that are read -/

theorem sectionHeader_returns (hc : c.Ready) (h : Returns sectionHeader c entry d) :
    ∃ text, c.Takes text d ∧ SpellsEntry c.offset text entry d.here.rest := by
  unfold sectionHeader at h
  dsimp only at h
  obtain ⟨c₁, h₁, h⟩ := expectTwice_returns hc (by decide) h.offset_bind
  obtain ⟨blanks, hblanks, h₂⟩ := h₁.ready.takes_blanks
  obtain ⟨first, c₃, hfirst, h⟩ := h.skipInlineBlanks_bind.bind
  obtain ⟨h₃, hfirst⟩ := takeIdentifierStart_returns h₂.ready hfirst
  have h := h.takeWhile_bind fun _ => isVariantNameChar_of_isLineBreak
  have h₄ := h₃.ready.skipWhile_takes fun _ => isVariantNameChar_of_isLineBreak
  have hend : Ends isVariantNameChar (c₃.skipWhile isVariantNameChar).here.rest.head? := by
    rw [Cursor.skipWhile_rest fun _ => isVariantNameChar_of_isLineBreak]
    exact Text.ends_dropWhile _ _
  have hspace : first ≠ ' ' := by
    rintro rfl
    exact absurd hfirst (by decide)
  -- the blanks taken with the name are trimmed off it
  obtain ⟨words, spaces, hmore, hspaces, hlast, hname⟩ :=
    Text.exists_words hspace (c₃.here.rest.takeWhile isVariantNameChar)
  have hall : ∀ ch ∈ words, isVariantNameChar ch := fun ch hch =>
    List.mem_takeWhile_imp (hmore ▸ List.mem_append_left _ hch)
  rw [hmore] at h₄
  obtain ⟨blanks', hblanks', h₅⟩ := h₄.ready.takes_blanks
  obtain ⟨c₆, h₆, h⟩ := expectTwice_returns h₅.ready (by decide) h.skipInlineBlanks_bind
  obtain ⟨rfl, rfl⟩ := Returns.pure_iff.1 h.spanFrom_bind
  rw [hname]
  -- what ended the name is the first character behind it, a blank or the bracket
  have hbehind : Ends isVariantNameChar (blanks' ++ [']']).head? := by
    rw [h₅.rest, h₆.rest] at hend
    rwa [head?_append_of_head? (show ([']', ']'] ++ c₆.here.rest).head? = [']'].head? from rfl)]
      at hend
  have hall' := h₁.trans (h₂.trans (h₃.trans (h₄.trans (h₅.trans h₆))))
  refine ⟨_, by simpa using hall', ?_⟩
  rw [hall'.span_eq]
  simpa using SpellsEntry.header hblanks hfirst hall hlast hspaces hblanks' hbehind

/-- What is read as an entry is spelled as one. -/
theorem entry_returns (hc : c.Ready) (h : Returns Parser.entry c entry d) :
    ∃ text, c.Takes text d ∧ SpellsEntry c.offset text entry d.here.rest := by
  unfold Parser.entry at h
  have h := h.current_bind
  split at h
  · next hcurrent =>
    obtain ⟨level, text, content, hlevel, hle, h₁, hlines, hends, hnone, rfl⟩ :=
      comment_returns hc hcurrent h
    exact ⟨_, h₁, .marked hlevel hle hlines hends hnone⟩
  · obtain ⟨text, content, h₁, hlines, hends, hnone, rfl⟩ := legacyComment_returns hc h
    exact ⟨_, h₁, .slashed hlines hends hnone⟩
  · exact sectionHeader_returns hc h
  · split at h
    · obtain ⟨text, message, h₁, hspells, hends, hnone, rfl⟩ := messageEntry_returns hc h
      exact ⟨text, h₁, .message hspells hends hnone⟩
    · exact absurd h Returns.not_fail
  · exact absurd h Returns.not_fail

theorem expectLineEnd_returns {u : Unit} (hc : c.Ready) (h : Returns expectLineEnd c u d) :
    ∃ ending, c.Takes ending d ∧ IsLineEnd ending d.here.rest := by
  unfold expectLineEnd at h
  have h := h.current_bind
  split at h
  · next hcurrent =>
    obtain ⟨-, rfl⟩ := Returns.pure_iff.1 h
    exact ⟨[], .refl hc, .inl ⟨rfl, Cursor.current_eq_none_iff.1 hcurrent⟩⟩
  · next hcurrent =>
    obtain rfl : c.next = d := by injection h
    obtain ⟨rest, hbreak⟩ := Option.isSome_iff_exists.1 (Cursor.current_eq_newline_iff.1 hcurrent)
    obtain ⟨ending, -, hrest⟩ := Text.afterBreak?_eq_some hbreak
    have h₁ := hc.next_takes_break hbreak hrest
    refine ⟨ending, h₁, .inr ?_⟩
    rw [← h₁.rest, hbreak, h₁.rest_eq hrest]
  · exact absurd h Returns.not_fail

/-- What is read as an entry with its line end is spelled as one. -/
theorem entryLine_returns (hc : c.Ready) (h : Returns entryLine c entry d) :
    ∃ text ending, c.Takes (text ++ ending) d ∧
      SpellsEntry c.offset text entry (ending ++ d.here.rest) ∧ IsLineEnd ending d.here.rest := by
  unfold entryLine at h
  obtain ⟨entry', c₁, hentry, h⟩ := h.bind
  obtain ⟨text, h₁, hspells⟩ := entry_returns hc hentry
  obtain ⟨_, c₂, hend, h⟩ := h.bind
  obtain ⟨ending, h₂, hending⟩ := expectLineEnd_returns h₁.ready hend
  obtain ⟨rfl, rfl⟩ := Returns.pure_iff.1 h
  rw [h₂.rest] at hspells
  exact ⟨text, ending, h₁.trans h₂, hspells, hending⟩

/-! ### Texts that are read as entries -/

theorem sectionHeader_yields {blanks more spaces blanks' : List Char} {first : Char} (hc : c.Ready)
    (hblanks : IsBlanks blanks) (hfirst : isIdentifierStart first)
    (hmore : ∀ ch ∈ more, isVariantNameChar ch) (hlast : (first :: more).getLast? ≠ some ' ')
    (hspaces : ∀ ch ∈ spaces, ch = ' ') (hblanks' : IsBlanks blanks')
    (hend : Ends isVariantNameChar (blanks' ++ [']']).head?)
    (hrest : c.here.rest =
      '[' :: '[' :: (blanks ++ (first :: (more ++ spaces ++ (blanks' ++ ']' :: ']' :: rest))))) :
    Yields sectionHeader c
      ('[' :: '[' :: (blanks ++ (first :: (more ++ spaces ++ (blanks' ++ [']', ']'])))))
      (.comment .group ⟨String.ofList (first :: more), spanOf c.offset
        ('[' :: '[' :: (blanks ++ (first :: (more ++ spaces ++ (blanks' ++ [']', ']'])))))⟩) := by
  have hall : ∀ ch ∈ more ++ spaces, isVariantNameChar ch := by
    intro ch hch
    rcases List.mem_append.1 hch with hmem | hmem
    · exact hmore ch hmem
    · rw [hspaces ch hmem]
      decide
  -- the trimming gives back the name that was spelled
  have hname : ((first :: (more ++ spaces)).reverse.dropWhile (· = ' ')).reverse = first :: more :=
    Text.rdropWhile_append_of_ends (fun space hspace => decide_eq_true (hspaces space hspace))
      fun last hlast' => decide_eq_false fun heq => hlast (heq ▸ hlast')
  have hend' : Ends isVariantNameChar (blanks' ++ ']' :: ']' :: rest).head? := by
    rw [head?_append_of_head? (show (']' :: ']' :: rest).head? = [']'].head? from rfl)]
    exact hend
  have hfirst' : Text.isVisible first :=
    isVisible_of_isSelectorStart (isSelectorStart_of_isNameStart (by simp [isNameStart, hfirst]))
  unfold sectionHeader
  dsimp only
  refine Yields.offset_bind (Yields.expectTwice_bind hc (by decide) hrest fun c₁ h₁ hrest₁ => ?_)
  refine (Yields.skipInlineBlanks h₁.ready hblanks hrest₁
    (Text.startsVisible_cons.2 hfirst').ends).bind hrest₁ fun c₂ h₂ hrest₂ => ?_
  refine (takeIdentifierStart_yields h₂.ready hfirst hrest₂).bind hrest₂ fun c₃ h₃ hrest₃ => ?_
  refine (Yields.takeWhile (fun _ => isVariantNameChar_of_isLineBreak) h₃.ready hall hrest₃
    hend').bind hrest₃ fun c₄ h₄ hrest₄ => ?_
  refine (Yields.skipInlineBlanks h₄.ready hblanks' hrest₄
    (Text.startsVisible_cons.2 (by decide)).ends).bind hrest₄ fun c₅ h₅ hrest₅ => ?_
  refine Yields.expectTwice_bind h₅.ready (by decide) hrest₅ fun c₆ h₆ _ => ?_
  rw [hname]
  have hread := h₁.trans (h₂.trans (h₃.trans (h₄.trans (h₅.trans h₆))))
  exact Yields.span hread fun span => Entry.comment .group ⟨_, span⟩

/-- What is spelled as an entry is read as one. -/
theorem entry_yields (hc : c.Ready) (h : SpellsEntry c.offset text entry rest)
    (hrest : c.here.rest = text ++ rest) : Yields Parser.entry c text entry := by
  unfold Parser.entry
  cases h with
  | @marked level _ _ _ hlevel hle hlines hends hnone =>
    obtain ⟨n, rfl⟩ := Nat.exists_eq_succ_of_ne_zero (Nat.one_le_iff_ne_zero.1 hlevel)
    refine Yields.current_bind (Cursor.current_of_cons (by decide) hrest) ?_
    exact comment_yields hc hlevel hle hlines hrest hends hnone
  | slashed hlines hends hnone =>
    refine Yields.current_bind (Cursor.current_of_cons (by decide) hrest) ?_
    exact legacyComment_yields hc hlines hrest hends hnone
  | header hblanks hfirst hmore hlast hspaces hblanks' hend =>
    refine Yields.current_bind (Cursor.current_of_cons (by decide) hrest) ?_
    exact sectionHeader_yields hc hblanks hfirst hmore hlast hspaces hblanks' hend
      (by simpa using hrest)
  | message hspells hends hnone =>
    obtain ⟨ch, more, rfl, hch⟩ := hspells.exists_head
    have hbreak := isLineBreak_of_isSelectorStart (isSelectorStart_of_isNameStart hch)
    refine Yields.current_bind (Cursor.current_of_cons hbreak hrest) ?_
    have hyields := messageEntry_yields hc hspells hrest hends hnone
    -- a name starts none of the three kinds of comment
    split
    · next heq =>
      cases heq
      exact absurd hch (by decide)
    · next heq =>
      cases heq
      exact absurd hch (by decide)
    · next heq =>
      cases heq
      exact absurd hch (by decide)
    · next first _ _ _ heq =>
      obtain rfl : ch = first := Option.some.inj heq
      rw [if_pos (by exact hch)]
      exact hyields
    · next heq => cases heq

theorem expectLineEnd_yields {ending : List Char} (hc : c.Ready)
    (hrest : c.here.rest = ending ++ rest) (hend : IsLineEnd ending rest) :
    Yields expectLineEnd c ending () := by
  unfold expectLineEnd
  rcases hend with ⟨rfl, rfl⟩ | hbreak
  · exact Yields.current_bind (Cursor.current_eq_none_iff.2 hrest) (Yields.pure hc ())
  · rw [← hrest] at hbreak
    refine Yields.current_bind (Cursor.current_eq_newline_iff.2 (by simp [hbreak])) ?_
    exact ⟨c.next, rfl, hc.next_takes_break hbreak hrest⟩

/-- What is spelled as an entry on lines of its own is read as one. -/
theorem entryLine_yields {ending : List Char} (hc : c.Ready)
    (h : SpellsEntry c.offset text entry (ending ++ rest))
    (hrest : c.here.rest = text ++ (ending ++ rest)) (hend : IsLineEnd ending rest) :
    Yields entryLine c (text ++ ending) entry := by
  unfold entryLine
  refine (entry_yields hc h hrest).bind hrest fun d h₁ hrest₁ => ?_
  refine ((expectLineEnd_yields h₁.ready hrest₁ hend).bind hrest₁ fun e h₂ _ => ?_).cast
    (List.append_nil _)
  exact Yields.pure h₂.ready entry

end Parser

end Localization
