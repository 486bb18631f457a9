import Localization.Proofs.Resource.Mirrors.Pattern
import Localization.Proofs.Resource.Spelling.Entry

/-!
# Entries side by side

Section headers, messages and terms are read alike. A comment looks at the start of the next line,
where only the second reading may go on, so that comments are read alike is left as a hypothesis.

## Main statements

* `Parser.sectionHeader_alike`, `Parser.messageEntry_alike` — the runs mirror each other
* `Parser.entryLine_mirrors` — so do runs on entries, if they do on comments
-/

namespace Localization.Parser

variable {A : Alignment}

theorem sectionHeader_alike :
    Alike A (Entry.mapOffsets A.shift) sectionHeader sectionHeader := by
  intro c d h
  unfold sectionHeader
  dsimp only
  refine Mirrors.offset_bind h.toFollowed ?_
  refine (expectChar_alike (by decide) c d h).bind fun _ c₁ d₁ h₁ => ?_
  refine (expectChar_alike (by decide) c₁ d₁ h₁).bind fun _ c₂ d₂ h₂ => ?_
  refine Mirrors.skipInlineBlanks_bind ?_
  refine (takeIdentifierStart_alike _ _ h₂.skipInlineBlanks).bind fun first c₃ d₃ h₃ => ?_
  refine Mirrors.takeWhile_bind (fun _ => isVariantNameChar_of_isLineBreak) h₃
    fun more c₄ d₄ h₄ => ?_
  refine Mirrors.skipInlineBlanks_bind ?_
  refine (expectChar_alike (by decide) _ _ h₄.skipInlineBlanks).bind fun _ c₅ d₅ h₅ => ?_
  refine (expectChar_alike (by decide) c₅ d₅ h₅).bind fun _ c₆ d₆ h₆ => ?_
  exact Mirrors.spanFrom_bind h₆.toFollowed (Mirrors.pure h₆ rfl)

/-! ### Messages and terms -/

theorem attributeLine_alike :
    Alike A (Attribute.mapOffsets A.shift) attributeLine attributeLine := by
  intro c d h
  unfold attributeLine
  dsimp only
  refine Mirrors.offset_bind h.toFollowed ?_
  refine (expectChar_alike (by decide) c d h).bind fun _ c₁ d₁ h₁ => ?_
  refine (identifier_alike c₁ d₁ h₁).bind fun id c₂ d₂ h₂ => Mirrors.skipInlineBlanks_bind ?_
  refine (expectChar_alike (by decide) _ _ h₂.skipInlineBlanks).bind fun _ c₃ d₃ h₃ => ?_
  refine Mirrors.ask_bind h₃.left.isValueStart h₃.isValueStart ?_
  refine Mirrors.ite (fun _ => Mirrors.fail_bind h₃.toFollowed _ _) fun hvalue => ?_
  refine Mirrors.skipIndent_bind ?_
  refine (pattern_alike _ _ (A.beside_value h₃ (by simpa using hvalue))).bind
    fun value c₄ d₄ h₄ => Mirrors.pure h₄ ?_
  rw [Pattern.span_mapOffsets]
  rfl

theorem attributeRound_alike (before : List Attribute) :
    Alike A
      (Round.map (List.map (Attribute.mapOffsets A.shift))
        (List.map (Attribute.mapOffsets A.shift)))
      (attributeRound before) (attributeRound (before.map (Attribute.mapOffsets A.shift))) := by
  intro c d h
  unfold attributeRound
  refine Mirrors.ask_bind h.left.isNextLineAttribute h.isNextLineAttribute ?_
  refine Mirrors.ite (fun _ => ?_) fun _ => ?_
  · refine (expectIndent_alike c d h).bind fun _ c₁ d₁ h₁ => ?_
    exact (attributeLine_alike c₁ d₁ h₁).bind fun named c₂ d₂ h₂ => Mirrors.pure h₂ rfl
  · exact Mirrors.pure h (by rw [Round.map, List.map_reverse])

theorem messageValue_alike :
    Alike A (Option.map (Pattern.mapOffsets A.shift)) messageValue messageValue := by
  intro c d h
  unfold messageValue
  refine Mirrors.ask_bind h.left.isValueStart h.isValueStart ?_
  refine Mirrors.ite (fun hvalue => Mirrors.skipIndent_bind ?_) fun _ =>
    Mirrors.skipInlineBlanks_bind (Mirrors.pure h.skipInlineBlanks rfl)
  exact (pattern_alike _ _ (A.beside_value h hvalue)).bind fun value c₁ d₁ h₁ => Mirrors.pure h₁ rfl

/-- The end of a message is shifted with what the message ends with. -/
theorem messageStop_map (id : Identifier) (value : Option Pattern)
    (attributes : List Attribute) :
    messageStop (id.mapOffsets A.shift) (value.map (Pattern.mapOffsets A.shift))
        (attributes.map (Attribute.mapOffsets A.shift)) =
      A.shift (messageStop id value attributes) := by
  unfold messageStop
  rw [List.getLast?_map]
  cases attributes.getLast? with
  | some last => rfl
  | none =>
    cases value with
    | some value => simp only [Option.map_none, Option.map_some, Pattern.span_mapOffsets]; rfl
    | none => rfl

/-- Messages and terms are mirrored. -/
theorem messageEntry_alike :
    Alike A (Entry.mapOffsets A.shift) messageEntry messageEntry := by
  intro c d h
  unfold messageEntry
  dsimp only
  refine Mirrors.offset_bind h.toFollowed ?_
  refine (entryIdentifier_alike c d h).bind fun id c₁ d₁ h₁ => Mirrors.skipInlineBlanks_bind ?_
  refine (expectChar_alike (by decide) _ _ h₁.skipInlineBlanks).bind fun _ c₂ d₂ h₂ => ?_
  refine (messageValue_alike c₂ d₂ h₂).bind fun value c₃ d₃ h₃ => ?_
  refine (Alike.rounds attributeRound_alike [] c₃ d₃ h₃).bind fun attributes c₄ d₄ h₄ => ?_
  rw [Identifier.isTerm_mapOffsets, Option.isNone_map, List.isEmpty_map]
  refine Mirrors.ite (fun _ => Mirrors.fail_bind h₄.toFollowed _ _) fun _ => ?_
  refine Mirrors.ite (fun _ => Mirrors.fail_bind h₄.toFollowed _ _) fun _ => ?_
  refine Mirrors.pure h₄ ?_
  rw [messageStop_map]
  exact (mapOffsets_ofMessage A.shift ⟨id, value, attributes, none, ⟨c.offset, _⟩⟩).symm

/-- A line that ends here may be the last one of the text. -/
theorem expectLineEnd_mirrors {c d : Cursor} (h : A.Beside c d) :
    Mirrors A (fun _ => A.Abuts) id expectLineEnd expectLineEnd c d := by
  unfold expectLineEnd
  refine Mirrors.current_bind h.current ?_
  split
  · exact Mirrors.pure h.toAbuts rfl
  · next hcurrent =>
    exact Mirrors.pure (A.beside_break h hcurrent) rfl
  · exact Mirrors.fail h.toFollowed _ _

/-! ### Entries -/

section Comments

variable {c d : Cursor} (h : A.Beside c d)
  (hcomment : c.current = some '#' →
    Mirrors A (fun _ => A.Beside) (Entry.mapOffsets A.shift) comment comment c d)
  (hlegacy : c.current = some '/' →
    Mirrors A (fun _ => A.Beside) (Entry.mapOffsets A.shift) legacyComment legacyComment c d)
include h hcomment hlegacy

/-- Entries are read alike if comments are. -/
theorem entry_mirrors :
    Mirrors A (fun _ => A.Beside) (Entry.mapOffsets A.shift) entry entry c d := by
  unfold entry
  refine Mirrors.current_bind h.current ?_
  split
  · next hmark => exact hcomment hmark
  · next hslash => exact hlegacy hslash
  · exact sectionHeader_alike c d h
  · exact Mirrors.ite (fun _ => messageEntry_alike c d h) fun _ => Mirrors.fail h.toFollowed _ _
  · exact Mirrors.fail h.toFollowed _ _

/-- An entry with the end of its line is mirrored. -/
theorem entryLine_mirrors :
    Mirrors A (fun _ => A.Abuts) (Entry.mapOffsets A.shift) entryLine entryLine c d := by
  unfold entryLine
  refine (entry_mirrors h hcomment hlegacy).bind fun entry c₁ d₁ h₁ => ?_
  exact (expectLineEnd_mirrors h₁).bind fun _ c₂ d₂ h₂ => Mirrors.pure h₂ rfl

end Comments

end Localization.Parser
