import Localization.Proofs.Resource.Spelling.Basic
import Localization.Proofs.Resource.Yields

/-!
# The spelling of text

A run of text ends before a placeable or at the end of its pattern. At a line break it goes on
exactly if the next line with content goes on with the pattern, and then the blank lines before
that line belong to it.

## Main definitions

* `PatternEnds` — what stands behind a pattern
* `TextEnds` — what stands behind a run of text

## Main statements

* `Parser.textElement_returns` — what is read as text is spelled as text
* `Parser.textElement_yields` — what is spelled as text is read as text
-/

namespace Localization

open Text (Ends IsBlanks IsEnding IsIndent StartsBreak StartsVisible afterBreak?
  byteLength isVisible startsPattern)

/-- A text that does not go on with a pattern: it is empty, or a line break in it starts other
lines. -/
def PatternEnds (text : List Char) : Prop :=
  text = [] ∨ StartsBreak text ∧ startsPattern text = false

/-- What stands behind a run of text: a placeable, or the end of the pattern. -/
def TextEnds (rest : List Char) (next : Option Char) : Prop :=
  rest.head? = some '{' ∧ next = some '{' ∨ PatternEnds rest ∧ next = none

variable {raw value rest : List Char} {next : Option Char} {ch : Char}

theorem PatternEnds.head? (h : PatternEnds rest) : ∀ ch ∈ rest.head?, isLineBreak ch := by
  intro ch hch
  rcases h with rfl | ⟨⟨first, hfirst, hbreak⟩, -⟩
  · cases hch
  · obtain rfl := Option.mem_unique hch hfirst
    exact hbreak

theorem PatternEnds.ends (h : PatternEnds rest) : Ends isInlineBlank rest.head? :=
  fun ch hch => Text.not_isInlineBlank_of_isLineBreak (h.head? ch hch)

/-- Behind a pattern no blanks are left. -/
theorem PatternEnds.blanks_eq_nil {blanks : List Char} (h : PatternEnds (blanks ++ rest))
    (hblanks : IsBlanks blanks) : blanks = [] := by
  rcases h with hnil | ⟨hbreak, -⟩
  · exact (List.append_eq_nil_iff.1 hnil).1
  · exact hblanks.eq_nil_of_startsBreak hbreak

theorem TextEnds.exists_cons (h : TextEnds rest next) (hch : ch ∈ raw.head?.or next) :
    ∃ more, raw ++ rest = ch :: more := by
  cases raw with
  | nil =>
    rcases h with ⟨hhead, rfl⟩ | ⟨-, rfl⟩
    · obtain rfl : '{' = ch := by simpa using hch
      obtain ⟨more, rfl⟩ := List.head?_eq_some_iff.1 hhead
      exact ⟨more, rfl⟩
    · cases hch
  | cons first more =>
    obtain rfl : first = ch := by simpa using hch
    exact ⟨more ++ rest, rfl⟩

/-- Only a placeable can follow a text within its pattern. -/
theorem SpellsText.next_eq (h : SpellsText raw value next) : ∀ ch ∈ next, ch = '{' := by
  induction h with
  | stop hnext => exact hnext
  | plain _ _ _ _ ih => exact ih
  | escape _ _ ih => exact ih
  | slash _ _ ih => exact ih
  | blankLine _ _ _ _ _ ih => exact ih
  | indent _ _ _ _ _ ih => exact ih

theorem SpellsText.head?_ne (h : SpellsText raw value next) : raw.head? ≠ some '{' := by
  cases h with
  | stop _ => simp
  | plain hbrace _ _ _ => simpa using hbrace
  | escape _ _ => simp
  | slash _ _ => simp
  | blankLine hending _ _ _ _ => rcases hending with rfl | rfl | rfl <;> simp
  | indent hending _ _ _ _ => rcases hending with rfl | rfl | rfl <;> simp

/-- Blanks are spelled as they are. -/
theorem SpellsText.eq_of_isBlanks (h : SpellsText raw value next) (hvalue : IsBlanks value) :
    raw = value := by
  induction h with
  | stop _ => rfl
  | plain _ _ _ _ ih => rw [ih (Text.isBlanks_cons.1 hvalue).2]
  | escape hch _ _ =>
    have hblank := (Text.isBlanks_cons.1 hvalue).1
    rcases hch with rfl | rfl <;> cases hblank
  | slash _ _ _ => cases (Text.isBlanks_cons.1 hvalue).1
  | blankLine _ _ _ _ _ _ => cases (Text.isBlanks_cons.1 hvalue).1
  | indent _ _ _ _ _ _ => cases (Text.isBlanks_cons.1 hvalue).1

/-- The blanks at the end of a value stand at the end of its spelling. -/
theorem SpellsText.exists_kept {kept blanks : List Char} (h : SpellsText raw (kept ++ blanks) next)
    (hblanks : IsBlanks blanks) : ∃ kept', raw = kept' ++ blanks := by
  generalize hvalue : kept ++ blanks = value at h
  -- along the rules: blanks of the value are spelled as themselves
  induction h generalizing kept with
  | stop _ => exact ⟨[], by rw [(List.append_eq_nil_iff.1 hvalue).2, List.append_nil]⟩
  | @plain ch raw value next hbrace hslash hbreak hspells ih =>
    cases kept with
    | nil =>
      subst hvalue
      exact ⟨[], (SpellsText.plain hbrace hslash hbreak hspells).eq_of_isBlanks hblanks⟩
    | cons first kept =>
      obtain ⟨kept', rfl⟩ := ih (List.cons.inj hvalue).2
      exact ⟨ch :: kept', rfl⟩
  | @escape ch raw value next hch hspells ih =>
    cases kept with
    | nil =>
      subst hvalue
      exact ⟨[], (SpellsText.escape hch hspells).eq_of_isBlanks hblanks⟩
    | cons first kept =>
      obtain ⟨kept', rfl⟩ := ih (List.cons.inj hvalue).2
      exact ⟨'\\' :: ch :: kept', rfl⟩
  | @slash raw value next hhead hspells ih =>
    cases kept with
    | nil =>
      subst hvalue
      exact ⟨[], (SpellsText.slash hhead hspells).eq_of_isBlanks hblanks⟩
    | cons first kept =>
      obtain ⟨kept', rfl⟩ := ih (List.cons.inj hvalue).2
      exact ⟨'\\' :: kept', rfl⟩
  | @blankLine ending indent raw value next hending hjoin hindent hbreak hspells ih =>
    cases kept with
    | nil =>
      subst hvalue
      cases (Text.isBlanks_cons.1 hblanks).1
    | cons first kept =>
      obtain ⟨kept', rfl⟩ := ih (List.cons.inj hvalue).2
      exact ⟨ending ++ (indent ++ kept'), by simp only [List.append_assoc]⟩
  | @indent ending indent raw value next hending hindent hne hgoes hspells ih =>
    cases kept with
    | nil =>
      subst hvalue
      cases (Text.isBlanks_cons.1 hblanks).1
    | cons first kept =>
      obtain ⟨kept', rfl⟩ := ih (List.cons.inj hvalue).2
      exact ⟨ending ++ (indent ++ kept'), by simp only [List.append_assoc]⟩

/-- What stands behind a backslash. -/
theorem TextEnds.head?_ne (h : TextEnds rest next)
    (hhead : ∀ ch ∈ raw.head?.or next, ch ≠ '{' ∧ ch ≠ '"') :
    ∀ ch ∈ (raw ++ rest).head?, ch ≠ '{' ∧ ch ≠ '"' := by
  cases raw with
  | nil =>
    rcases h with ⟨-, rfl⟩ | ⟨hends, rfl⟩
    · exact absurd rfl (hhead '{' rfl).1
    · intro ch hch
      have hbreak := hends.head? ch hch
      constructor <;> rintro rfl <;> cases hbreak
  | cons first more => exact hhead

/-- A text that starts with a line break goes on with the pattern. -/
theorem SpellsText.startsPattern (h : SpellsText raw value next) (hbreak : StartsBreak raw)
    (hrest : TextEnds rest next) : startsPattern (raw ++ rest) := by
  induction h with
  | stop _ => exact absurd hbreak (by simp [StartsBreak])
  | plain _ _ hplain _ _ =>
    rw [Text.startsBreak_cons, hplain] at hbreak
    cases hbreak
  | escape _ _ _ => exact absurd hbreak (by simp [StartsBreak, isLineBreak])
  | slash _ _ _ => exact absurd hbreak (by simp [StartsBreak, isLineBreak])
  | blankLine hending _ hblanks hstart _ ih =>
    obtain ⟨gap, ch, more, hindent, hvisible, hends, htext⟩ :=
      Text.startsPattern_iff.1 (ih hstart hrest)
    refine Text.startsPattern_iff.2 ⟨_, ch, more, hindent.blankLine hending hblanks, hvisible,
      hends, ?_⟩
    simp [htext]
  | indent hending hblanks hne hcontent _ _ =>
    obtain ⟨ch, hch, hvisible, hends⟩ := hcontent
    obtain ⟨more, hmore⟩ := hrest.exists_cons hch
    refine Text.startsPattern_iff.2 ⟨_, ch, more, hending.isIndent hblanks hne, hvisible, hends, ?_⟩
    simp [hmore]

namespace Parser

variable {c d : Cursor} {taken : List Char}

/-! ### Rounds over a text -/

/-- What the rounds over a text have read when it ends. The text goes on with what stands at the
cursor unless the pattern ends there. -/
def ReadsText (taken : List Char) (c : Cursor) (result : List Char) (d : Cursor) : Prop :=
  ∃ raw value next, c.Takes raw d ∧ SpellsText raw value next ∧ TextEnds d.here.rest next ∧
    (PatternEnds c.here.rest ∨ raw.head?.or next = c.here.rest.head?) ∧
    result = taken.reverse ++ value

theorem textRound_done {result : List Char} (hc : c.Ready)
    (h : Returns (textRound taken) c (.done result) d) : ReadsText taken c result d := by
  unfold textRound at h
  have h := h.current_bind
  split at h
  · next hnone =>
    obtain ⟨hround, rfl⟩ := Returns.pure_iff.1 h
    obtain rfl := Round.done.inj hround
    have hends : PatternEnds c.here.rest := .inl (Cursor.current_eq_none_iff.1 hnone)
    exact ⟨[], [], none, .refl hc, .stop (by simp), .inr ⟨hends, rfl⟩, .inl hends, by simp⟩
  · next hbrace =>
    obtain ⟨hround, rfl⟩ := Returns.pure_iff.1 h
    obtain rfl := Round.done.inj hround
    -- a brace stops the text within the line
    have hhead := (Cursor.current_eq_head? (by decide)).1 hbrace
    exact ⟨[], [], some '{', .refl hc, .stop (by simp), .inl ⟨hhead, rfl⟩, .inr hhead.symm,
      by simp⟩
  · next hnewline =>
    have h := h.ask_bind hc.isNextLinePattern
    split at h
    · cases (Returns.pure_iff.1 h.modify_bind.skipInlineBlanks_bind).1
    · next hends =>
      obtain ⟨hround, rfl⟩ := Returns.pure_iff.1 h
      obtain rfl := Round.done.inj hround
      -- a line break behind which the pattern does not go on
      have hbreak := Text.startsBreak_iff_isSome.2 (Cursor.current_eq_newline_iff.1 hnewline)
      have hends : PatternEnds c.here.rest := .inr ⟨hbreak, by simpa using hends⟩
      exact ⟨[], [], none, .refl hc, .stop (by simp), .inr ⟨hends, rfl⟩, .inl hends, by simp⟩
  · have h := h.next_bind
    split at h
    · split at h
      · cases (Returns.pure_iff.1 h.modify_bind).1
      · cases (Returns.pure_iff.1 h).1
    · cases (Returns.pure_iff.1 h).1
  · cases (Returns.pure_iff.1 h.modify_bind).1

theorem textRound_line (hc : c.Ready) (hpattern : startsPattern c.here.rest)
    {result : List Char} (h : ReadsText ('\n' :: taken) c.next.skipInlineBlanks result d) :
    ReadsText taken c result d := by
  -- the pattern goes on behind an indent; the round takes the first line break of it
  obtain ⟨gap, ch, more, hindent, hvisible, hends, hrest⟩ := Text.startsPattern_iff.1 hpattern
  have htail : StartsVisible (ch :: more) := Text.startsVisible_cons.2 hvisible
  obtain ⟨gap', hgap', hstart, hrest'⟩ :=
    Cursor.nextLine_rest hindent.isGap hindent.startsBreak htail hrest
  have hbreak : StartsBreak c.here.rest := hrest ▸ hindent.startsBreak.append
  obtain ⟨line, hline⟩ := Option.isSome_iff_exists.1 (Text.startsBreak_iff_isSome.1 hbreak)
  obtain ⟨ending, hending, hfeed, hsplit⟩ := Text.afterBreak?_eq_some_iff.1 hline
  have h₁ := hc.next_takes_break hline hsplit
  obtain ⟨blanks, hblanks, h₂⟩ := h₁.ready.takes_blanks
  obtain ⟨raw, value, next, h₃, hspells, hnext, hhead, rfl⟩ := h
  have hall := h₁.trans (h₂.trans h₃)
  have hfeed' : ending = ['\r'] → (blanks ++ raw).head? ≠ some '\n' := by
    intro hreturn hfirst
    refine hfeed hreturn ?_
    rw [← h₁.rest_eq hsplit, h₂.rest, h₃.rest, ← List.append_assoc, List.head?_append, hfirst]
    rfl
  obtain rfl : gap = ending ++ (blanks ++ gap') := by
    refine @List.append_cancel_right _ gap (ch :: more) (ending ++ (blanks ++ gap')) ?_
    rw [← hrest, h₁.rest, h₂.rest, hrest']
    simp
  refine ⟨_, '\n' :: value, next, hall, ?_, hnext, .inr (hall.head?_or ?_), by simp⟩
  · rw [hrest'] at hhead
    rcases hstart with rfl | hstart
    · -- the next line is the one with content
      have hfirst : raw.head?.or next = some ch := by
        rcases hhead with hnone | hfirst
        · have hnewline := hnone.head? ch rfl
          rw [Text.not_isLineBreak_of_isVisible hvisible] at hnewline
          cases hnewline
        · exact hfirst
      refine .indent hending hblanks ?_ ⟨ch, hfirst, hvisible, hends⟩ hspells
      rintro rfl
      obtain ⟨last, hlast, hblank⟩ := hindent.endsBlank
      rw [List.append_nil, List.append_nil] at hlast
      rw [hending.not_endsBlank last hlast] at hblank
      cases hblank
    · refine .blankLine hending hfeed' hblanks ?_ hspells
      -- a blank line: the next round finds another break in front of the content
      have hindent' : IsIndent gap' := by
        rw [← List.append_assoc] at hindent
        exact hindent.of_append hstart
      obtain ⟨first, hfirst, hnewline⟩ := hstart
      have hcontent : raw.head?.or next = some first := by
        rcases hhead with (hnil | ⟨-, hnone⟩) | hcontent
        · simp at hnil
        · rw [Text.startsPattern_iff.2 ⟨gap', ch, more, hindent', hvisible, hends, rfl⟩] at hnone
          cases hnone
        · rw [hcontent, List.head?_append, Option.mem_def.1 hfirst]
          rfl
      cases raw with
      | nil =>
        obtain rfl := hspells.next_eq first hcontent
        cases hnewline
      | cons _ _ => exact ⟨first, hcontent, hnewline⟩
  · exact List.append_ne_nil_of_left_ne_nil hending.ne_nil _

/-- A piece that is read in front of a text, and the rule that spells it. -/
theorem ReadsText.extend {read result : List Char} {e : Cursor}
    (h : ReadsText (ch :: taken) d result e)
    (htakes : c.Takes read d) (hne : read ≠ [])
    (hrule : ∀ raw value next, (∀ first ∈ raw.head?.or next, first ∈ d.here.rest.head?) →
      SpellsText raw value next → SpellsText (read ++ raw) (ch :: value) next) :
    ReadsText taken c result e := by
  obtain ⟨raw, value, next, h₁, hspells, hnext, -, rfl⟩ := h
  have hall := htakes.trans h₁
  refine ⟨read ++ raw, ch :: value, next, hall, hrule raw value next ?_ hspells, hnext,
    .inr (hall.head?_or (List.append_ne_nil_of_left_ne_nil hne raw)), by simp⟩
  intro first hfirst
  obtain ⟨more, hmore⟩ := hnext.exists_cons hfirst
  rw [h₁.rest, hmore]
  rfl

theorem textRound_again {taken' : List Char} (hc : c.Ready)
    (h : Returns (textRound taken) c (.again taken') d) :
    d.Ready ∧ ∀ result e, ReadsText taken' d result e → ReadsText taken c result e := by
  unfold textRound at h
  have h := h.current_bind
  split at h
  · cases (Returns.pure_iff.1 h).1
  · cases (Returns.pure_iff.1 h).1
  · have h := h.ask_bind hc.isNextLinePattern
    split at h
    · next hpattern =>
      obtain ⟨hround, rfl⟩ := Returns.pure_iff.1 h.modify_bind.skipInlineBlanks_bind
      obtain rfl := Round.again.inj hround
      exact ⟨hc.next.skipInlineBlanks, fun _ _ hreads => textRound_line hc hpattern hreads⟩
    · cases (Returns.pure_iff.1 h).1
  · next hslash =>
    have h₁ := hc.next_takes_of_current (by decide) hslash
    have h := h.next_bind
    split at h
    · next ch hcurrent =>
      split at h
      · next hescape =>
        -- a brace or a quote behind the backslash is taken with it
        have hescape : ch = '{' ∨ ch = '"' := by simpa using hescape
        have h₂ := h₁.ready.next_takes_of_current
          (by rcases hescape with rfl | rfl <;> decide) hcurrent
        obtain ⟨hround, rfl⟩ := Returns.pure_iff.1 h.modify_bind
        obtain rfl := Round.again.inj hround
        exact ⟨h₂.ready, fun _ _ hreads => hreads.extend (h₁.trans h₂) (by simp)
          fun _ _ _ _ hspells => .escape hescape hspells⟩
      · next hescape =>
        obtain ⟨hround, rfl⟩ := Returns.pure_iff.1 h
        obtain rfl := Round.again.inj hround
        -- any other character is left to the next round, and the backslash stands for itself
        refine ⟨h₁.ready, fun _ _ hreads => hreads.extend h₁ (by simp)
          fun _ _ _ hnext hspells => .slash (fun first hfirst => ?_) hspells⟩
        have hhead := hnext first hfirst
        constructor
        · rintro rfl
          have hsame := (Cursor.current_eq_head? (by decide)).2 hhead
          simp [Option.some.inj (hcurrent.symm.trans hsame)] at hescape
        · rintro rfl
          have hsame := (Cursor.current_eq_head? (by decide)).2 hhead
          simp [Option.some.inj (hcurrent.symm.trans hsame)] at hescape
    · next hnone =>
      obtain ⟨hround, rfl⟩ := Returns.pure_iff.1 h
      obtain rfl := Round.again.inj hround
      refine ⟨h₁.ready, fun _ _ hreads => hreads.extend h₁ (by simp)
        fun _ _ _ hnext hspells => .slash (fun first hfirst => ?_) hspells⟩
      have hhead := hnext first hfirst
      rw [Cursor.current_eq_none_iff.1 hnone] at hhead
      cases hhead
  · next ch hbrace hnewline hslash hcurrent =>
    have hne : ch ≠ '\n' := fun heq => hnewline (by rw [heq])
    have h₁ := hc.next_takes_of_current hne hcurrent
    have hplain := ((Cursor.current_eq_some_iff hne).1 hcurrent).1
    obtain ⟨hround, rfl⟩ := Returns.pure_iff.1 h.modify_bind
    obtain rfl := Round.again.inj hround
    exact ⟨h₁.ready, fun _ _ hreads => hreads.extend h₁ (by simp) fun _ _ _ _ hspells =>
      .plain (fun heq => hbrace (by rw [heq])) (fun heq => hslash (by rw [heq])) hplain hspells⟩

/-- What is read as text is spelled as text. -/
theorem textElement_returns {element : PatternElement} (hc : c.Ready)
    (h : Returns textElement c element d) :
    ∃ raw value next, c.Takes raw d ∧ SpellsText raw value next ∧ TextEnds d.here.rest next ∧
      (PatternEnds c.here.rest ∨ raw.head?.or next = c.here.rest.head?) ∧
      element = .text (String.ofList value) (spanOf c.offset raw) := by
  unfold textElement at h
  obtain ⟨result, c₁, hrounds, h⟩ := h.offset_bind.bind
  obtain ⟨raw, value, next, htakes, hspells, hnext, hhead, hvalue⟩ :=
    rounds_returns (Q := ReadsText)
      (fun _ _ _ _ hready hround => textRound_again hready hround)
      (fun _ _ _ _ hready hround => textRound_done hready hround) hc hrounds
  obtain rfl : result = value := hvalue
  obtain ⟨rfl, rfl⟩ := Returns.pure_iff.1 h.spanFrom_bind
  refine ⟨raw, result, next, htakes, hspells, hnext, hhead, ?_⟩
  rw [htakes.span_eq]

/-! ### Texts that are read as text -/

theorem textRound_stop_yields (taken : List Char) (hc : c.Ready) (h : TextEnds c.here.rest next) :
    Yields (textRound taken) c [] (.done taken.reverse) := by
  unfold textRound
  rcases h with ⟨hhead, -⟩ | ⟨hnil | ⟨hbreak, hends⟩, -⟩
  · refine Yields.current_bind ((Cursor.current_eq_head? (by decide)).2 hhead) ?_
    exact Yields.pure hc _
  · refine Yields.current_bind (Cursor.current_eq_none_iff.2 hnil) ?_
    exact Yields.pure hc _
  · have hnewline := Cursor.current_eq_newline_iff.2 (Text.startsBreak_iff_isSome.1 hbreak)
    refine Yields.current_bind hnewline (Yields.ask_bind hc.isNextLinePattern ?_)
    rw [hends, if_neg (by decide)]
    exact Yields.pure hc _

theorem textRound_plain_yields (taken : List Char) (hc : c.Ready) (hbrace : ch ≠ '{')
    (hslash : ch ≠ '\\')
    (hbreak : isLineBreak ch = false) (hrest : c.here.rest = ch :: rest) :
    Yields (textRound taken) c [ch] (.again (ch :: taken)) := by
  have hne : ch ≠ '\n' := by
    rintro rfl
    cases hbreak
  unfold textRound
  refine Yields.current_bind (Cursor.current_of_cons hbreak hrest) ?_
  split
  · next heq => cases heq
  · next heq => exact absurd (Option.some.inj heq) hbrace
  · next heq => exact absurd (Option.some.inj heq) hne
  · next heq => exact absurd (Option.some.inj heq) hslash
  · next heq =>
    cases heq
    exact (Yields.next hc hbreak hrest).bind hrest fun d h₁ _ => Yields.pure h₁.ready _

theorem textRound_escape_yields (taken : List Char) (hc : c.Ready) (hescape : ch = '{' ∨ ch = '"')
    (hrest : c.here.rest = '\\' :: ch :: rest) :
    Yields (textRound taken) c ['\\', ch] (.again (ch :: taken)) := by
  have hbreak : isLineBreak ch = false := by rcases hescape with rfl | rfl <;> decide
  unfold textRound
  refine Yields.current_bind (Cursor.current_of_cons (by decide) hrest) ?_
  refine Yields.next_bind hc (by decide) hrest fun d h₁ hrest₁ => ?_
  rw [Cursor.current_of_cons hbreak hrest₁]
  dsimp only
  rw [if_pos (by simpa using hescape)]
  exact (Yields.next h₁.ready hbreak hrest₁).bind hrest₁ fun e h₂ _ => Yields.pure h₂.ready _

theorem textRound_slash_yields (taken : List Char) (hc : c.Ready)
    (hhead : ∀ ch ∈ rest.head?, ch ≠ '{' ∧ ch ≠ '"')
    (hrest : c.here.rest = '\\' :: rest) :
    Yields (textRound taken) c ['\\'] (.again ('\\' :: taken)) := by
  unfold textRound
  refine Yields.current_bind (Cursor.current_of_cons (by decide) hrest) ?_
  refine Yields.next_bind hc (by decide) hrest fun d h₁ hrest₁ => ?_
  split
  · next first hcurrent =>
    have hescape : ¬(decide (first = '{') || decide (first = '"')) = true := by
      intro hescape
      have hescape : first = '{' ∨ first = '"' := by simpa using hescape
      have hfirst : rest.head? = some first := by
        rw [← hrest₁]
        exact (Cursor.current_eq_head? (by rcases hescape with rfl | rfl <;> decide)).1 hcurrent
      obtain ⟨hbrace, hquote⟩ := hhead first hfirst
      exact hescape.elim hbrace hquote
    rw [if_neg hescape]
    exact Yields.pure h₁.ready _
  · exact Yields.pure h₁.ready _

theorem textRound_line_yields {ending blanks : List Char} (taken : List Char) (hc : c.Ready)
    (hending : IsEnding ending)
    (hfeed : ending = ['\r'] → (blanks ++ rest).head? ≠ some '\n') (hblanks : IsBlanks blanks)
    (hend : Ends isInlineBlank rest.head?) (hpattern : startsPattern c.here.rest)
    (hrest : c.here.rest = ending ++ (blanks ++ rest)) :
    Yields (textRound taken) c (ending ++ blanks) (.again ('\n' :: taken)) := by
  have hline : afterBreak? c.here.rest = some (blanks ++ rest) :=
    Text.afterBreak?_eq_some_iff.2 ⟨ending, hending, hfeed, hrest⟩
  have h₁ := hc.next_takes_break hline hrest
  unfold textRound
  refine Yields.current_bind (Cursor.current_eq_newline_iff.2 (Option.isSome_of_mem hline)) ?_
  refine Yields.ask_bind hc.isNextLinePattern ?_
  rw [hpattern, if_pos rfl]
  have hnext : Yields (modify Cursor.next) c ending () := ⟨c.next, rfl, h₁⟩
  refine hnext.bind hrest fun c₁ h₁ hrest₁ => ?_
  refine ((Yields.skipInlineBlanks h₁.ready hblanks hrest₁ hend).bind hrest₁
    fun c₂ h₂ _ => ?_).cast (List.append_nil blanks)
  exact Yields.pure h₂.ready _

theorem textRounds_yields (hc : c.Ready) (h : SpellsText raw value next)
    (hrest : c.here.rest = raw ++ rest) (hnext : TextEnds rest next) :
    Yields (rounds textRound taken) c raw (taken.reverse ++ value) := by
  induction h generalizing c taken with
  | stop _ =>
    rw [List.append_nil]
    rw [List.nil_append] at hrest
    exact Yields.rounds_done (textRound_stop_yields taken hc (hrest.symm ▸ hnext))
  | plain hbrace hslash hplain _ ih =>
    have hround := textRound_plain_yields taken hc hbrace hslash hplain hrest
    simpa using Yields.rounds_again hc hround (by simp) hrest fun d h₁ hrest₁ =>
      ih h₁.ready hrest₁ hnext
  | escape hescape _ ih =>
    have hround := textRound_escape_yields taken hc hescape hrest
    simpa using Yields.rounds_again hc hround (by simp) hrest fun d h₁ hrest₁ =>
      ih h₁.ready hrest₁ hnext
  | slash hhead _ ih =>
    have hround := textRound_slash_yields taken hc (fun ch hch => ?_) hrest
    · simpa using Yields.rounds_again hc hround (by simp) hrest fun d h₁ hrest₁ =>
        ih h₁.ready hrest₁ hnext
    · exact hnext.head?_ne hhead ch hch
  | @blankLine ending blanks raw value _ hending hfeed hblanks hstart hspells ih =>
    have hrule := SpellsText.blankLine hending hfeed hblanks hstart hspells
    -- the rule spells a line that goes on, so the look-ahead finds the pattern
    have hpattern : startsPattern c.here.rest :=
      hrest ▸ hrule.startsPattern hending.startsBreak hnext
    obtain ⟨first, hfirst, hbreak⟩ := hstart
    simp only [List.append_assoc] at hrest
    have hfeed' : ending = ['\r'] → (blanks ++ (raw ++ rest)).head? ≠ some '\n' := by
      intro hreturn
      rw [← List.append_assoc, List.head?_append_of_ne_nil]
      · exact hfeed hreturn
      · rintro hnil
        rw [(List.append_eq_nil_iff.1 hnil).2] at hfirst
        cases hfirst
    have hend : Ends isInlineBlank (raw ++ rest).head? := by
      rw [List.head?_append, Option.mem_def.1 hfirst]
      exact Text.ends_some.2 (Text.not_isInlineBlank_of_isLineBreak hbreak)
    have hround := textRound_line_yields taken hc hending hfeed' hblanks hend hpattern hrest
    have hsplit : c.here.rest = ending ++ blanks ++ (raw ++ rest) := by simpa using hrest
    have hne := List.append_ne_nil_of_left_ne_nil hending.ne_nil blanks
    simpa using Yields.rounds_again hc hround hne hsplit fun d h₁ hrest₁ =>
      ih h₁.ready hrest₁ hnext
  | @indent ending blanks raw value _ hending hblanks hne hcontent hspells ih =>
    have hrule := SpellsText.indent hending hblanks hne hcontent hspells
    have hpattern : startsPattern c.here.rest :=
      hrest ▸ hrule.startsPattern hending.startsBreak hnext
    obtain ⟨first, hfirst, hvisible, -⟩ := hcontent
    obtain ⟨more, hmore⟩ := hnext.exists_cons hfirst
    simp only [List.append_assoc] at hrest
    have hfeed' : ending = ['\r'] → (blanks ++ (raw ++ rest)).head? ≠ some '\n' := by
      intro _ hhead
      cases blanks with
      | nil => exact hne rfl
      | cons blank blanks =>
        obtain rfl : blank = '\n' := Option.some.inj hhead
        exact absurd (hblanks '\n' (by simp)) (by decide)
    have hend : Ends isInlineBlank (raw ++ rest).head? := by
      rw [hmore]
      exact (Text.startsVisible_cons.2 hvisible).ends
    have hround := textRound_line_yields taken hc hending hfeed' hblanks hend hpattern hrest
    have hsplit : c.here.rest = ending ++ blanks ++ (raw ++ rest) := by simpa using hrest
    have hne := List.append_ne_nil_of_left_ne_nil hending.ne_nil blanks
    simpa using Yields.rounds_again hc hround hne hsplit fun d h₁ hrest₁ =>
      ih h₁.ready hrest₁ hnext

/-- What is spelled as text is read as text. -/
theorem textElement_yields (hc : c.Ready) (h : SpellsText raw value next)
    (hrest : c.here.rest = raw ++ rest) (hnext : TextEnds rest next) :
    Yields textElement c raw (.text (String.ofList value) (spanOf c.offset raw)) := by
  unfold textElement
  refine Yields.offset_bind ?_
  refine ((textRounds_yields hc h hrest hnext).bind hrest fun d h₁ _ => ?_).cast
    (List.append_nil raw)
  exact Yields.span h₁ _

end Parser

end Localization
