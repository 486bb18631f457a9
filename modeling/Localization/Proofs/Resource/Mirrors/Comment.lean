import Localization.Proofs.Resource.Beside
import Localization.Proofs.Resource.Mirrors.Entry
import Localization.Proofs.Resource.Spelling.Entry

/-!
# Comments side by side

A comment goes on with the next line that has its marks, so the text behind a line break matters to
it. It fails on its first line or not at all, and then like any other entry; when it succeeds, the
entry that follows must not stand on the very next line.

## Main statements

* `Parser.entryLine_failAlike` — entries fail alike whatever follows
* `Parser.entryLine_ok` — entries that succeed alike
-/

namespace Localization

open Cursor (Abuts Beside Followed)
open Text (EndsLine StartsVisible afterBreak? startsComment startsLegacyComment startsMarked
  startsSlashes)

variable {text rest post : List Char}

theorem spanOf_mapOffsets (start n : Nat) (text : List Char) :
    (spanOf start text).mapOffsets (· + n) = spanOf (start + n) text := by
  simp only [Span.mapOffsets, spanOf, Span.mk.injEq, true_and]
  omega

/-! ### Lines that can be read -/

theorem exists_line (text : List Char) :
    ∃ line rest, text = line ++ rest ∧ IsLine line ∧ LineEnds rest := by
  refine ⟨text.takeWhile (!isLineBreak ·), text.dropWhile (!isLineBreak ·),
    List.takeWhile_append_dropWhile.symm, fun ch hch => ?_, Text.ends_dropWhile _ _⟩
  simpa using List.mem_takeWhile_imp hch

/-- A text whose lines can be read splits into the lines of a comment and the rest, where no other
line has its marks. -/
theorem exists_commentLines {Line : List Char → List Char → Prop} {marks : List Char}
    {fits : List Char → Prop} {starts : List Char → Bool}
    (hline : ∀ text, fits text →
      ∃ line content rest, text = line ++ rest ∧ Line line content ∧ LineEnds rest)
    (hstarts : ∀ text, starts text → ∃ tail, text = marks ++ tail ∧ fits tail) (hfits : fits text) :
    ∃ lines content rest, text = lines ++ rest ∧ CommentLines Line marks lines content ∧
      LineEnds rest ∧ (afterBreak? rest).any starts = false := by
  induction hn : text.length using Nat.strongRecOn generalizing text with
  | ind n ih =>
    subst hn
    obtain ⟨line, content, rest, rfl, hspells, hends⟩ := hline text hfits
    cases hnext : (afterBreak? rest).any starts with
    | false => exact ⟨line, content, rest, rfl, .last hspells, hends, hnext⟩
    | true =>
      obtain ⟨behind, hbreak, hbehind⟩ := (Option.any_eq_true _ _).1 hnext
      obtain ⟨tail, rfl, htail⟩ := hstarts behind hbehind
      obtain ⟨ending, hending, rfl⟩ := Text.afterBreak?_eq_some hbreak
      have hlt := Text.afterBreak?_length_lt hbreak
      simp only [List.length_append] at hlt ih
      obtain ⟨lines, more, rest, rfl, hlines, hends, hnone⟩ := ih tail.length (by omega) htail rfl
      exact ⟨line ++ (ending ++ (marks ++ lines)), content ++ '\n' :: more, rest, by simp,
        .more hspells hending hlines, hends, hnone⟩

theorem startsMarked_iff {level : Nat} :
    startsMarked level text ↔ ∃ tail, text = marks level ++ tail ∧ startsMarked 0 tail := by
  constructor
  · intro h
    induction level generalizing text with
    | zero => exact ⟨text, rfl, h⟩
    | succ level ih =>
      unfold startsMarked at h
      split at h
      · next heq => cases heq
      · next level' rest heq =>
        obtain rfl := Nat.succ.inj heq
        obtain ⟨tail, rfl, htail⟩ := ih h
        exact ⟨tail, rfl, htail⟩
      · cases h
  · rintro ⟨tail, rfl, htail⟩
    rwa [startsMarked_marks]

theorem exists_markedLine (h : startsMarked 0 text) :
    ∃ line content rest, text = line ++ rest ∧ MarkedLine line content ∧ LineEnds rest := by
  rcases startsMarked_zero.1 h with hends | hspace
  · exact ⟨[], [], text, rfl, .empty, hends⟩
  · obtain ⟨more, rfl⟩ := List.head?_eq_some_iff.1 hspace
    obtain ⟨line, rest, rfl, hline, hends⟩ := exists_line more
    exact ⟨' ' :: line, line, rest, rfl, .text hline, hends⟩

theorem exists_slashedLine (text : List Char) :
    ∃ line content rest, text = line ++ rest ∧ SlashedLine line content ∧ LineEnds rest := by
  obtain ⟨line, rest, rfl, hline, hends⟩ := exists_line text
  cases line with
  | nil => exact ⟨[], [], rest, rfl, .bare (by simp) hline, hends⟩
  | cons ch line =>
    by_cases hspace : ch = ' '
    · subst hspace
      exact ⟨' ' :: line, line, rest, rfl, .spaced fun ch hch => hline ch (by simp [hch]), hends⟩
    · exact ⟨ch :: line, ch :: line, rest, rfl, .bare (by simpa using hspace) hline, hends⟩

theorem startsSlashes_iff : startsSlashes text ↔ ∃ tail, text = ['/', '/'] ++ tail := by
  unfold startsSlashes
  split <;> simp_all

/-- The marks at the start of a text, up to three. -/
theorem exists_marks (h : text.head? = some '#') :
    ∃ level rest, 1 ≤ level ∧ level ≤ 3 ∧ text = marks level ++ rest ∧
      (level < 3 → rest.head? ≠ some '#') := by
  obtain ⟨rest, rfl⟩ := List.head?_eq_some_iff.1 h
  by_cases hsecond : rest.head? = some '#'
  · obtain ⟨rest, rfl⟩ := List.head?_eq_some_iff.1 hsecond
    by_cases hthird : rest.head? = some '#'
    · obtain ⟨rest, rfl⟩ := List.head?_eq_some_iff.1 hthird
      exact ⟨3, rest, by decide, by decide, rfl, fun h => absurd h (by decide)⟩
    · exact ⟨2, rest, by decide, by decide, rfl, fun _ => hthird⟩
  · exact ⟨1, rest, by decide, by decide, rfl, fun _ => hsecond⟩

/-! ### Runs that fail on their first line -/

namespace Parser

variable {n level : Nat} {c d : Cursor} {entry : Entry}

theorem entryLine_succeeds (hc : c.Ready) (h : SpellsEntry c.offset text entry rest)
    (hends : LineEnds rest) (hrest : c.here.rest = text ++ rest) :
    ∃ entry d, entryLine c = .ok entry d := by
  obtain ⟨ending, behind, rfl, hend⟩ : ∃ ending behind, rest = ending ++ behind ∧
      IsLineEnd ending behind := by
    rcases lineEnds_iff.1 hends with rfl | hbreak
    · exact ⟨[], [], rfl, .inl ⟨rfl, rfl⟩⟩
    · obtain ⟨behind, hbehind⟩ := Option.isSome_iff_exists.1 (Text.startsBreak_iff_isSome.1 hbreak)
      obtain ⟨ending, -, htext⟩ := Text.afterBreak?_eq_some hbehind
      exact ⟨ending, behind, htext, .inr (htext ▸ hbehind)⟩
  obtain ⟨d, hrun, -⟩ := entryLine_yields hc h hrest hend
  exact ⟨entry, d, hrun⟩

/-- A run fails with an error and stops at a cursor. -/
def Fails {α : Type} (p : Parser α) (c : Cursor) (e : SyntaxError) (d : Cursor) : Prop :=
  p c = .error e d

theorem Fails.current_bind {α : Type} {f : Option Char → Parser α} {e : SyntaxError}
    (h : Fails (f c.current) c e d) : Fails (current >>= f) c e d := h

theorem entry_error {e : SyntaxError} (h : Parser.entry c = .error e d) :
    entryLine c = .error e d := bind_error h

theorem entryLine_of_marks (hc : c.Ready) (hlevel : 1 ≤ level) (hle : level ≤ 3)
    (hrest : c.here.rest = marks level ++ rest) (hmarked : startsMarked 0 rest) :
    ∃ entry d, entryLine c = .ok entry d := by
  obtain ⟨lines, content, rest, rfl, hlines, hends, hnone⟩ :=
    exists_commentLines (fun _ => exists_markedLine)
      (fun _ => (@startsMarked_iff _ level).1) hmarked
  exact entryLine_succeeds hc (.marked hlevel hle hlines hends hnone) hends (by simpa using hrest)

/-- Behind its marks a comment line goes on with a space or ends. -/
theorem entryLine_of_not_marked (hc : c.Ready) (hlevel : 1 ≤ level) (hle : level ≤ 3)
    (hstop : level < 3 → rest.head? ≠ some '#') (hrest : c.here.rest = marks level ++ rest)
    (hmarked : startsMarked 0 rest = false) :
    ∃ d, entryLine c = .error ⟨.expectedToken, [" "], d.offset⟩ d ∧ c.Takes (marks level) d := by
  obtain ⟨d, hrun, h₁⟩ := takeMarkers_yields hc hle hrest hstop
  have hrest₁ := h₁.rest_eq hrest
  refine ⟨d, entry_error ?_, h₁⟩
  obtain ⟨hends, hspace⟩ :=
    not_or.1 (mt (@startsMarked_zero rest).2 (Bool.eq_false_iff.1 hmarked))
  -- behind the marks stands neither a space nor the end of the line
  have hline : Fails commentLine d ⟨.expectedToken, [" "], d.offset⟩ d := by
    unfold commentLine
    refine Fails.current_bind ?_
    split
    · next hnone =>
      refine absurd (lineEnds_iff.2 (.inl ?_)) hends
      rw [← hrest₁]
      exact Cursor.current_eq_none_iff.1 hnone
    · next hnewline =>
      refine absurd (lineEnds_iff.2 (.inr ?_)) hends
      rw [← hrest₁]
      exact Text.startsBreak_iff_isSome.2 (Cursor.current_eq_newline_iff.1 hnewline)
    · next hblank =>
      refine absurd ?_ hspace
      rw [← hrest₁]
      exact (Cursor.current_eq_head? (by decide)).1 hblank
    · rfl
  have hcurrent : c.current = some '#' :=
    (Cursor.current_eq_head? (by decide)).2 (hrest ▸ head?_marks hlevel)
  unfold Parser.entry
  rw [current_bind, hcurrent]
  change comment c = _
  unfold comment
  rw [offset_bind, bind_ok hrun, bind_error (rounds_error (bind_error hline))]

theorem entryLine_of_slashes (hc : c.Ready) (hrest : c.here.rest = '/' :: '/' :: rest) :
    ∃ entry d, entryLine c = .ok entry d := by
  obtain ⟨lines, content, rest, rfl, hlines, hends, hnone⟩ :=
    @exists_commentLines rest SlashedLine ['/', '/'] (fun _ => True) startsSlashes
      (fun text _ => exists_slashedLine text)
      (fun text h => (startsSlashes_iff.1 h).imp fun _ htext => ⟨htext, trivial⟩) trivial
  exact entryLine_succeeds hc (.slashed hlines hends hnone) hends (by simpa using hrest)

/-- A second slash has to follow the first one. -/
theorem entryLine_of_not_slashes (hc : c.Ready) (hrest : c.here.rest = '/' :: rest)
    (hslash : rest.head? ≠ some '/') :
    ∃ d, entryLine c = .error ⟨.expectedToken, ["/"], d.offset⟩ d ∧ c.Takes ['/'] d := by
  have h₁ := hc.next_takes (by decide) hrest
  have hcurrent := Cursor.current_of_cons (by decide) hrest
  have hnext : c.next.current ≠ some '/' := by
    refine mt (Cursor.current_eq_head? (by decide)).1 ?_
    rwa [h₁.rest_eq hrest]
  refine ⟨c.next, entry_error ?_, h₁⟩
  -- the second slash is missing in the first round already
  have hround : legacyCommentRound [] c = .error ⟨.expectedToken, ["/"], c.next.offset⟩ c.next := by
    unfold legacyCommentRound
    have hfirst : expectChar '/' c = .ok () c.next := by
      unfold expectChar
      rw [current_bind, if_pos hcurrent]
      rfl
    have hsecond : expectChar '/' c.next =
        .error ⟨.expectedToken, ["/"], c.next.offset⟩ c.next := by
      unfold expectChar
      rw [current_bind, if_neg hnext]
      rfl
    rw [bind_ok hfirst, bind_error hsecond]
  unfold Parser.entry
  rw [current_bind, hcurrent]
  change legacyComment c = _
  unfold legacyComment
  rw [offset_bind, bind_error (rounds_error hround)]

/-! ### Entries side by side -/

/-- Two runs both succeed, or they fail with the same error at corresponding offsets. -/
def FailAlike {α β : Type} (post : List Char) (n : Nat) (p : Parser α) (q : Parser β)
    (c d : Cursor) : Prop :=
  ((∃ a c', p c = .ok a c') ∧ ∃ b d', q d = .ok b d') ∨
    ∃ e c' d', p c = .error e c' ∧ q d = .error (e.mapOffsets (· + n)) d' ∧ Followed post n c' d'

theorem Mirrors.failAlike {α β : Type} {S : α → Cursor → Cursor → Prop} {f : α → β} {p : Parser α}
    {q : Parser β} (h : Mirrors (.followedBy post n) S f p q c d) : FailAlike post n p q c d := by
  cases hp : p c with
  | ok a c' =>
    obtain ⟨d', hq, -⟩ := h.exists_ok hp
    exact .inl ⟨⟨a, c', hp⟩, _, d', hq⟩
  | error e c' =>
    obtain ⟨d', hq, hfollowed⟩ := h.exists_error hp
    exact .inr ⟨e, c', d', hp, hq, hfollowed⟩

/-- Behind a character that is no line break, the character that follows is the same on both
sides. -/
theorem head?_of_beside {taken : List Char} (h : Beside post n c d)
    (hrest : c.here.rest = taken ++ rest) (htaken : ¬EndsLine taken) :
    (rest ++ post).head? = rest.head? := by
  cases rest with
  | cons ch rest => rfl
  | nil =>
    rcases h.within with rfl | hline
    · rfl
    · rw [hrest, List.append_nil] at hline
      exact absurd hline htaken

theorem startsMarked_zero_congr {other : List Char} (h : text.head? = other.head?) :
    startsMarked 0 text = startsMarked 0 other := by
  unfold startsMarked
  rw [h]

/-- Reading the same text from two cursors side by side keeps them side by side. -/
theorem followed_of_takes {c' d' : Cursor} {taken : List Char} (h : Beside post n c d)
    (hc : c.Takes taken c') (hd : d.Takes taken d') : Followed post n c' d' where
  rest := by
    have hrest := h.rest
    rw [hc.rest, hd.rest, List.append_assoc] at hrest
    exact List.append_cancel_left hrest
  offset := by
    rw [hc.offset, hd.offset, h.offset]
    omega
  line := by
    rcases h.within with hpost | hline
    · exact .inl hpost
    · exact .inr (hc.rest ▸ hline).of_append
  entryStart := h.entryStart

/-- Whether a comment fails is decided on its first line, and the text behind does not matter. -/
theorem entryLine_failAlike_of_marks (h : Beside post n c d) (hcurrent : c.current = some '#') :
    FailAlike post n entryLine entryLine c d := by
  obtain ⟨level, rest, hlevel, hle, hrest, hstop⟩ :=
    exists_marks ((Cursor.current_eq_head? (by decide)).1 hcurrent)
  have hrest' : d.here.rest = marks level ++ (rest ++ post) := by
    rw [h.rest, hrest, List.append_assoc]
  have hhead : (rest ++ post).head? = rest.head? := by
    refine head?_of_beside h hrest ?_
    rintro ⟨ch, hch, hbreak⟩
    rw [List.eq_of_mem_replicate (List.mem_of_getLast? hch)] at hbreak
    cases hbreak
  cases hmarked : startsMarked 0 rest with
  | true =>
    refine .inl ⟨entryLine_of_marks h.left hlevel hle hrest hmarked,
      entryLine_of_marks h.right hlevel hle hrest' ?_⟩
    rwa [startsMarked_zero_congr hhead]
  | false =>
    obtain ⟨c', hc', h₁⟩ := entryLine_of_not_marked h.left hlevel hle hstop hrest hmarked
    obtain ⟨d', hd', h₂⟩ := entryLine_of_not_marked h.right hlevel hle (hhead ▸ hstop) hrest'
      ((startsMarked_zero_congr hhead).trans hmarked)
    have hfollowed := followed_of_takes h h₁ h₂
    refine .inr ⟨_, c', d', hc', ?_, hfollowed⟩
    rw [hd', SyntaxError.mapOffsets, hfollowed.offset]

theorem entryLine_failAlike_of_slash (h : Beside post n c d) (hcurrent : c.current = some '/') :
    FailAlike post n entryLine entryLine c d := by
  obtain ⟨rest, hrest⟩ :=
    List.head?_eq_some_iff.1 ((Cursor.current_eq_head? (by decide)).1 hcurrent)
  have hrest' : d.here.rest = '/' :: (rest ++ post) := by rw [h.rest, hrest, List.cons_append]
  have hhead : (rest ++ post).head? = rest.head? :=
    @head?_of_beside rest post n c d ['/'] h hrest (by simp [EndsLine, isLineBreak])
  by_cases hslash : rest.head? = some '/'
  · obtain ⟨rest, rfl⟩ := List.head?_eq_some_iff.1 hslash
    exact .inl ⟨entryLine_of_slashes h.left hrest, entryLine_of_slashes h.right hrest'⟩
  · obtain ⟨c', hc', h₁⟩ := entryLine_of_not_slashes h.left hrest hslash
    obtain ⟨d', hd', h₂⟩ := entryLine_of_not_slashes h.right hrest' (hhead ▸ hslash)
    have hfollowed := followed_of_takes h h₁ h₂
    refine .inr ⟨_, c', d', hc', ?_, hfollowed⟩
    rw [hd', SyntaxError.mapOffsets, hfollowed.offset]

theorem entryLine_mirrors_of_ne (h : Beside post n c d) (hmark : c.current ≠ some '#')
    (hslash : c.current ≠ some '/') :
    Mirrors (.followedBy post n) (fun _ => Abuts post n) (Entry.mapOffsets (· + n)) entryLine
      entryLine c d :=
  entryLine_mirrors (A := .followedBy post n) h (fun hcurrent => absurd hcurrent hmark)
    fun hcurrent => absurd hcurrent hslash

/-- Entries side by side both succeed, or they fail alike. -/
theorem entryLine_failAlike (h : Beside post n c d) : FailAlike post n entryLine entryLine c d := by
  by_cases hmark : c.current = some '#'
  · exact entryLine_failAlike_of_marks h hmark
  · by_cases hslash : c.current = some '/'
    · exact entryLine_failAlike_of_slash h hslash
    · exact (entryLine_mirrors_of_ne h hmark hslash).failAlike

/-- A comment is spelled in front of another text if no line of that text goes on with it. -/
theorem SpellsEntry.shift_comment {start : Nat} {rest' : List Char}
    (h : SpellsEntry start text entry rest)
    (hentry : ∃ level comment, entry = .comment level comment)
    (hends : LineEnds rest → LineEnds rest')
    (hmarks : ∀ level, startsComment level rest = false → startsComment level rest' = false)
    (hslashes : startsLegacyComment rest = false → startsLegacyComment rest' = false) :
    SpellsEntry (start + n) text (entry.mapOffsets (· + n)) rest' := by
  cases h with
  | marked hlevel hle hlines hline hnone =>
    rw [Entry.mapOffsets, Comment.mapOffsets, spanOf_mapOffsets]
    exact .marked hlevel hle hlines (hends hline) (hmarks _ hnone)
  | slashed hlines hline hnone =>
    rw [Entry.mapOffsets, Comment.mapOffsets, spanOf_mapOffsets]
    exact .slashed hlines (hends hline) (hslashes hnone)
  | header hblanks hfirst hmore hlast hspaces hblanks' hend =>
    rw [Entry.mapOffsets, Comment.mapOffsets, spanOf_mapOffsets]
    exact .header hblanks hfirst hmore hlast hspaces hblanks' hend
  | message hspells _ _ =>
    obtain ⟨level, comment, heq⟩ := hentry
    split at heq <;> cases heq

/-- An entry that starts like a comment is one. -/
theorem SpellsEntry.isComment {start : Nat} (h : SpellsEntry start text entry rest)
    (hhead : text.head? = some '#' ∨ text.head? = some '/') :
    ∃ level comment, entry = .comment level comment := by
  cases h with
  | marked _ _ _ _ _ => exact ⟨_, _, rfl⟩
  | slashed _ _ _ => exact ⟨_, _, rfl⟩
  | header _ _ _ _ _ _ _ => exact ⟨_, _, rfl⟩
  | message hspells _ _ =>
    obtain ⟨ch, more, rfl, hch⟩ := hspells.exists_head
    rcases hhead with hhead | hhead
    · obtain rfl : ch = '#' := by simpa using hhead
      exact absurd hch (by decide)
    · obtain rfl : ch = '/' := by simpa using hhead
      exact absurd hch (by decide)

/-- A comment behind which some text is left is read alike whatever entry follows that text. -/
theorem entryLine_ok_of_comment {c' : Cursor} (h : Beside post n c d)
    (hentry : ∃ level comment, entry = .comment level comment) (hok : entryLine c = .ok entry c')
    (hrest' : post = [] ∨ c'.here.rest ≠ []) :
    ∃ d', entryLine d = .ok (entry.mapOffsets (· + n)) d' ∧ Abuts post n c' d' := by
  obtain ⟨text, ending, h₁, hspells, hend⟩ := entryLine_returns h.left hok
  have hwithin : post = [] ∨ EndsLine c'.here.rest := by
    rcases h.within with hpost | hline
    · exact .inl hpost
    · exact hrest'.imp_right fun hne => (h₁.rest ▸ hline).of_append.resolve_left hne
  have hrest : d.here.rest = text ++ (ending ++ (c'.here.rest ++ post)) := by
    rw [h.rest, h₁.rest]
    simp only [List.append_assoc]
  -- what stands behind the comment is asked for its first line only, which the other text keeps
  obtain ⟨hspells', hend'⟩ :
      SpellsEntry d.offset text (entry.mapOffsets (· + n)) (ending ++ (c'.here.rest ++ post)) ∧
        IsLineEnd ending (c'.here.rest ++ post) := by
    rw [h.offset]
    rcases hwithin with rfl | hline
    · rw [List.append_nil]
      exact ⟨SpellsEntry.shift_comment hspells hentry id (fun _ => id) id, hend⟩
    · have hbreak : afterBreak? (ending ++ c'.here.rest) = some c'.here.rest :=
        hend.resolve_left fun hnil => hline.ne_nil hnil.2
      have hbreak' : afterBreak? (ending ++ (c'.here.rest ++ post)) =
          some (c'.here.rest ++ post) := by
        rw [← List.append_assoc, h.startsVisible.afterBreak?_append, hbreak, Option.map_some]
      refine ⟨SpellsEntry.shift_comment hspells hentry (fun _ => ?_) (fun level => ?_) ?_,
        .inr hbreak'⟩
      · exact lineEnds_iff.2 (.inr (Text.startsBreak_iff_isSome.2 (by simp [hbreak'])))
      · rw [startsComment, startsComment, hbreak, hbreak', Option.any_some, Option.any_some,
          hline.startsMarked_append]
        exact id
      · rw [startsLegacyComment, startsLegacyComment, hbreak, hbreak', Option.any_some,
          Option.any_some, hline.startsSlashes_append]
        exact id
  obtain ⟨d', hd', h₂⟩ := entryLine_yields h.right hspells' hrest hend'
  exact ⟨d', hd', followed_of_takes h h₁ h₂, h₁.ready, h₂.ready⟩

/-- An entry that is read is read alike whatever entry follows, if it is no comment or some text is
left in front of what follows. -/
theorem entryLine_ok {c' : Cursor} (h : Beside post n c d) (hok : entryLine c = .ok entry c')
    (hcomment : (∃ level comment, entry = .comment level comment) →
      post = [] ∨ c'.here.rest ≠ []) :
    ∃ d', entryLine d = .ok (entry.mapOffsets (· + n)) d' ∧ Abuts post n c' d' := by
  by_cases hhead : c.current = some '#' ∨ c.current = some '/'
  · obtain ⟨text, ending, h₁, hspells, -⟩ := entryLine_returns h.left hok
    obtain ⟨ch, more, rfl, -⟩ := hspells.exists_head
    have hcurrent : ∀ first, isLineBreak first = false → c.current = some first →
        (ch :: more).head? = some first := by
      intro first hfirst hcurrent
      have hhead := (Cursor.current_eq_head? hfirst).1 hcurrent
      rwa [h₁.rest, List.append_assoc] at hhead
    have hentry := SpellsEntry.isComment hspells
      (hhead.imp (hcurrent '#' (by decide)) (hcurrent '/' (by decide)))
    exact entryLine_ok_of_comment h hentry hok (hcomment hentry)
  · obtain ⟨hmark, hslash⟩ := not_or.1 hhead
    exact (entryLine_mirrors_of_ne h hmark hslash).exists_ok hok

end Parser

end Localization
