import Localization.Proofs.Resource.Mirrors.Basic

/-!
# Names, numbers and quoted texts side by side

The smallest parts of the grammar never read a line break, so cursors side by side stay so.

## Main statements

* `Parser.identifier_alike`, `Parser.number_alike`, `Parser.quoted_alike`,
  `Parser.variantKey_alike` — the runs mirror each other
-/

namespace Localization.Parser

variable {A : Alignment} {c d : Cursor} {p : Char → Bool} {ch : Char}

/-! ### Characters -/

/-- An expected character is mirrored, unless it is a line break. -/
theorem expectChar_alike (hch : ch ≠ '\n') : Alike A id (expectChar ch) (expectChar ch) := by
  intro c d h
  unfold expectChar
  refine Mirrors.current_bind h.current ?_
  by_cases hcurrent : c.current = some ch
  · rw [if_pos hcurrent]
    exact ⟨rfl, h.next hcurrent hch⟩
  · rw [if_neg hcurrent]
    exact Mirrors.fail h.toFollowed _ _

/-- A character that starts no entry is not found where only the second reading goes on. -/
theorem expectChar_mirrors (h : A.Abuts c d) (hch : ch ≠ '\n') (hstart : isEntryStart ch = false) :
    Mirrors A (fun _ => A.Beside) id (expectChar ch) (expectChar ch) c d := by
  rcases A.abuts_char h hch hstart with hbeside | ⟨hc, hd⟩
  · exact expectChar_alike hch c d hbeside
  · unfold Mirrors expectChar
    rw [current_bind, current_bind, if_neg hc, if_neg hd]
    exact Mirrors.fail (S := fun _ => A.Beside) (f := id) h.toFollowed _ _

theorem takeChar_alike (hp : ∀ ch, isLineBreak ch → p ch = false) :
    Alike A id (takeChar p) (takeChar p) := by
  intro c d h
  unfold takeChar
  refine Mirrors.current_bind h.current ?_
  cases hcurrent : c.current with
  | none => exact Mirrors.pure h rfl
  | some ch =>
    dsimp only
    by_cases hpch : p ch
    · rw [if_pos hpch]
      refine ⟨rfl, h.next hcurrent ?_⟩
      rintro rfl
      rw [hp _ (by decide)] at hpch
      cases hpch
    · rw [if_neg hpch]
      exact Mirrors.pure h rfl

theorem takeIdentifierStart_alike :
    Alike A id takeIdentifierStart takeIdentifierStart := by
  intro c d h
  unfold takeIdentifierStart
  refine (takeChar_alike (fun _ => isIdentifierStart_of_isLineBreak) c d h).bind
    fun ch? c₁ d₁ h₁ => ?_
  cases ch? with
  | none => exact Mirrors.fail h₁.toFollowed _ _
  | some ch => exact Mirrors.pure h₁ rfl

theorem takeDigits_alike : Alike A id takeDigits takeDigits := by
  intro c d h
  unfold takeDigits
  refine (takeChar_alike (fun _ => isDigit_of_isLineBreak) c d h).bind fun ch? c₁ d₁ h₁ => ?_
  cases ch? with
  | none => exact Mirrors.fail h₁.toFollowed _ _
  | some ch =>
    exact Mirrors.takeWhile_bind (fun _ => isDigit_of_isLineBreak) h₁
      fun more c₂ d₂ h₂ => Mirrors.pure h₂ rfl

/-! ### Names and numbers -/

/-- Names are mirrored, with their spans shifted. -/
theorem identifier_alike :
    Alike A (Identifier.mapOffsets A.shift) identifier identifier := by
  intro c d h
  unfold identifier
  refine Mirrors.offset_bind h.toFollowed ?_
  refine (takeIdentifierStart_alike c d h).bind fun first c₁ d₁ h₁ => ?_
  refine Mirrors.takeWhile_bind (fun _ => isIdentifierChar_of_isLineBreak) h₁
    fun more c₂ d₂ h₂ => ?_
  exact Mirrors.spanFrom_bind h₂.toFollowed (Mirrors.pure h₂ rfl)

theorem entryIdentifier_alike :
    Alike A (Identifier.mapOffsets A.shift) entryIdentifier entryIdentifier := by
  intro c d h
  unfold entryIdentifier
  refine Mirrors.current_bind h.current ?_
  by_cases hminus : c.current = some '-'
  · rw [if_pos hminus]
    refine Mirrors.offset_bind h.toFollowed (Mirrors.modify_bind ?_)
    refine (identifier_alike _ _ (h.next hminus (by decide))).bind fun id c₁ d₁ h₁ => ?_
    exact Mirrors.pure h₁ rfl
  · rw [if_neg hminus]
    exact identifier_alike c d h

theorem number_alike :
    Alike A (Prod.map id (Span.mapOffsets A.shift)) number number := by
  intro c d h
  unfold number
  dsimp only
  refine Mirrors.offset_bind h.toFollowed ?_
  refine (takeChar_alike (by simp +contextual [isLineBreak]) c d h).bind fun sign c₁ d₁ h₁ => ?_
  refine (takeDigits_alike c₁ d₁ h₁).bind fun whole c₂ d₂ h₂ => ?_
  refine (takeChar_alike (by simp +contextual [isLineBreak]) c₂ d₂ h₂).bind
    fun point c₃ d₃ h₃ => ?_
  cases point with
  | none =>
    refine Mirrors.pure_bind (a := []) ?_
    exact Mirrors.spanFrom_bind h₃.toFollowed (Mirrors.pure h₃ rfl)
  | some point =>
    refine (takeDigits_alike c₃ d₃ h₃).bind fun fraction c₄ d₄ h₄ => ?_
    exact Mirrors.spanFrom_bind h₄.toFollowed (Mirrors.pure h₄ rfl)

/-! ### Quoted texts -/

theorem takeAtMost_alike (hp : ∀ ch, isLineBreak ch → p ch = false) (k : Nat) :
    Alike A id (takeAtMost p k) (takeAtMost p k) := by
  induction k with
  | zero => exact fun c d h => Mirrors.pure h rfl
  | succ k ih =>
    intro c d h
    unfold takeAtMost
    refine (takeChar_alike hp c d h).bind fun ch? c₁ d₁ h₁ => ?_
    cases ch? with
    | none => exact Mirrors.pure h₁ rfl
    | some ch => exact (ih c₁ d₁ h₁).bind fun more c₂ d₂ h₂ => Mirrors.pure h₂ rfl

theorem unicodeEscape_alike : Alike A id unicodeEscape unicodeEscape := by
  intro c d h
  unfold unicodeEscape
  refine (takeAtMost_alike (fun _ => isHexDigit_of_isLineBreak) 4 c d h).bind
    fun digits c₁ d₁ h₁ => ?_
  dsimp only [id]
  cases charOfHex? digits with
  | none => exact Mirrors.fail h₁.toFollowed _ _
  | some ch => exact Mirrors.pure h₁ rfl

/-- A round of a quoted text is mirrored, whatever it finds. -/
theorem quotedRound_alike (taken : List Char) :
    Alike A (Round.map id id) (quotedRound taken) (quotedRound (id taken)) := by
  intro c d h
  unfold quotedRound
  refine Mirrors.current_bind h.current ?_
  split
  · next hcurrent => exact ⟨rfl, h.next hcurrent (by decide)⟩
  · exact Mirrors.fail h.toFollowed _ _
  · exact Mirrors.fail h.toFollowed _ _
  · next hcurrent =>
    -- behind a backslash the next character decides, and a line break is none of the escapes
    have h₁ := h.next hcurrent (by decide)
    refine Mirrors.next_bind h₁.current ?_
    split
    · next hescape =>
      exact (unicodeEscape_alike _ _ (h₁.next hescape (by decide))).bind
        fun escaped c₂ d₂ h₂ => Mirrors.pure h₂ rfl
    · next ch hne hescape =>
      split
      · next hpair =>
        refine ⟨rfl, h₁.next hescape ?_⟩
        rintro rfl
        exact absurd hpair (by decide)
      · exact Mirrors.pure h₁ rfl
    · exact Mirrors.pure h₁ rfl
  · next ch hquote hbreak hslash hcurrent =>
    exact ⟨rfl, h.next hcurrent fun heq => hbreak (by rw [heq])⟩

theorem quoted_alike :
    Alike A (Prod.map id (Span.mapOffsets A.shift)) quoted quoted := by
  intro c d h
  unfold quoted
  refine Mirrors.offset_bind h.toFollowed ?_
  refine (expectChar_alike (by decide) c d h).bind fun _ c₁ d₁ h₁ => ?_
  refine (Alike.rounds quotedRound_alike [] c₁ d₁ h₁).bind fun value c₂ d₂ h₂ => ?_
  exact Mirrors.spanFrom_bind h₂.toFollowed (Mirrors.pure h₂ rfl)

/-! ### Variant keys -/

theorem variantName_mirrors (h : A.Beside c d) {ch : Char} (hch : c.current = some ch)
    (hne : ch ≠ '\n') :
    Mirrors A (fun _ => A.Beside) (VariantKey.mapOffsets A.shift) variantName variantName c d := by
  unfold variantName
  dsimp only
  refine Mirrors.offset_bind h.toFollowed (Mirrors.current_bind h.current (Mirrors.modify_bind ?_))
  obtain ⟨hbreak, rest, hrest⟩ := (Cursor.current_eq_some_iff hne).1 hch
  obtain ⟨hbeside, htaken⟩ :=
    A.beside_skipWhile (h.next hch hne) fun _ => isVariantNameChar_of_isLineBreak
  unfold Mirrors
  rw [takeWhile_bind, takeWhile_bind, htaken,
    Cursor.takeWhile_fst (fun _ => isVariantNameChar_of_isLineBreak),
    Cursor.next_rest_of_cons hbreak hrest, hch, Option.toList_some, List.singleton_append]
  -- the name is a beginning of the words, which stand on one line
  obtain ⟨blanks, hname⟩ := List.rdropWhile_prefix (· = ' ')
    (ch :: rest.takeWhile isVariantNameChar)
  have hwords : ∀ first ∈ ch :: rest.takeWhile isVariantNameChar, isLineBreak first = false := by
    refine List.forall_mem_cons.2 ⟨hbreak, fun first hfirst => Bool.eq_false_iff.2 fun hline => ?_⟩
    have hword := List.mem_takeWhile_imp hfirst
    rw [isVariantNameChar_of_isLineBreak hline] at hword
    cases hword
  have hsplit : c.here.rest = (ch :: rest.takeWhile isVariantNameChar).rdropWhile (· = ' ') ++
      (blanks ++ rest.dropWhile isVariantNameChar) := by
    rw [← List.append_assoc, hname, List.cons_append, List.takeWhile_append_dropWhile, hrest]
  have hshift := h.shift_line
    (fun first hfirst => hwords first (hname ▸ List.mem_append_left blanks hfirst)) hsplit
  exact ⟨congrArg (VariantKey.name _ ⟨A.shift c.offset, ·⟩) hshift.symm, hbeside⟩

/-- Keys are mirrored, with their spans shifted. -/
theorem variantKey_alike :
    Alike A (VariantKey.mapOffsets A.shift) variantKey variantKey := by
  intro c d h
  unfold variantKey
  refine Mirrors.current_bind h.current ?_
  cases hcurrent : c.current with
  | none => exact Mirrors.fail h.toFollowed _ _
  | some ch =>
    dsimp only
    split
    · exact (number_alike c d h).bind fun digits c₁ d₁ h₁ => Mirrors.pure h₁ rfl
    · split
      · next hstart =>
        refine variantName_mirrors h hcurrent ?_
        rintro rfl
        exact absurd hstart (by decide)
      · exact Mirrors.fail h.toFollowed _ _

end Localization.Parser
