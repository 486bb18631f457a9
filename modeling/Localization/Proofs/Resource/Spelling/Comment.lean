import Localization.Proofs.Resource.Yields
import Localization.Resource.Grammar.Entry

/-!
# How comments are spelled

A comment stands on one or more lines that start with the same marks: one to three `#`, or two
slashes. Between marks and content stands a space, which two slashes may do without and a line
without content has not.

## Main definitions

* `MarkedLine`, `SlashedLine` — a line behind its marks, and its content
* `CommentLines` — the lines of a comment from behind the first marks on

## Main statements

* `Parser.comment_returns`, `Parser.comment_yields` — comments that start with `#`
* `Parser.legacyComment_returns`, `Parser.legacyComment_yields` — comments that start with slashes
-/

namespace Localization

open Text (Ends IsEnding StartsBreak afterBreak? byteLength startsComment startsLegacyComment
  startsMarked)

/-- A text within a line. -/
def IsLine (text : List Char) : Prop := ∀ ch ∈ text, isLineBreak ch = false

/-- The line ends in front of this text. -/
def LineEnds (rest : List Char) : Prop := Ends (!isLineBreak ·) rest.head?

/-- A line behind its `#`, and its content. -/
inductive MarkedLine : List Char → List Char → Prop
  | empty : MarkedLine [] []
  | text {content} : IsLine content → MarkedLine (' ' :: content) content

/-- A line behind its two slashes, and its content. -/
inductive SlashedLine : List Char → List Char → Prop
  | spaced {content} : IsLine content → SlashedLine (' ' :: content) content
  | bare {content} : content.head? ≠ some ' ' → IsLine content → SlashedLine content content

/-- The lines of a comment from behind the first marks on, and their contents. -/
inductive CommentLines (Line : List Char → List Char → Prop) (marks : List Char) :
    List Char → List Char → Prop
  | last {line content} : Line line content → CommentLines Line marks line content
  | more {line content ending rest more} : Line line content → IsEnding ending →
      CommentLines Line marks rest more →
      CommentLines Line marks (line ++ (ending ++ (marks ++ rest))) (content ++ '\n' :: more)

/-- The `#` that a line of a comment of a level starts with. -/
def marks (level : Nat) : List Char := List.replicate level '#'

variable {text rest line content : List Char}

/-- A line ends at the end of the text or in front of a line break. -/
theorem lineEnds_iff : LineEnds rest ↔ rest = [] ∨ StartsBreak rest := by
  cases rest with
  | nil => simp [LineEnds, Ends]
  | cons ch rest => simp [LineEnds, Ends, StartsBreak]

theorem lineEnds_nil : LineEnds [] := lineEnds_iff.2 (.inl rfl)

theorem Text.IsEnding.lineEnds {ending : List Char} (h : IsEnding ending) :
    LineEnds (ending ++ rest) := lineEnds_iff.2 (.inr h.startsBreak)

theorem isLine_nil : IsLine [] := fun _ h => by simp at h

/-- Behind its markers, a line of a comment ends or goes on with a space. -/
theorem startsMarked_zero : startsMarked 0 text ↔ LineEnds text ∨ text.head? = some ' ' := by
  cases text with
  | nil => simp [startsMarked, lineEnds_nil]
  | cons ch text => simp [startsMarked, LineEnds, Ends, or_comm]

/-- The markers of a comment are passed over. -/
theorem startsMarked_marks (level : Nat) :
    startsMarked level (marks level ++ rest) = startsMarked 0 rest := by
  induction level with
  | zero => rfl
  | succ level ih => exact ih

theorem head?_marks {level : Nat} (h : 1 ≤ level) : (marks level ++ rest).head? = some '#' := by
  cases level with
  | zero => cases h
  | succ level => rfl

/-- Behind its marks a line goes on with a space, or it ends. -/
theorem MarkedLine.startsMarked (h : MarkedLine line content) (hrest : LineEnds rest) :
    startsMarked 0 (line ++ rest) := by
  cases h with
  | empty => exact startsMarked_zero.2 (.inl hrest)
  | text _ => exact startsMarked_zero.2 (.inr rfl)

/-- Behind its markers, a comment starts as each of its lines does. -/
theorem CommentLines.startsMarked {level : Nat}
    (h : CommentLines MarkedLine (marks level) text content) (hrest : LineEnds rest) :
    startsMarked 0 (text ++ rest) := by
  cases h with
  | last hline => exact hline.startsMarked hrest
  | more hline hending _ =>
    rw [List.append_assoc]
    exact hline.startsMarked (by rw [List.append_assoc]; exact hending.lineEnds)

/-- The text behind a line break, where a character other than a line feed follows. -/
theorem Text.IsEnding.afterBreak? {ending : List Char} (h : IsEnding ending) {ch : Char}
    (hch : isLineBreak ch = false) : afterBreak? (ending ++ ch :: rest) = some (ch :: rest) := by
  refine Text.afterBreak?_eq_some_iff.2 ⟨ending, h, fun _ hfeed => ?_, rfl⟩
  obtain rfl : ch = '\n' := by simpa using hfeed
  cases hch

namespace Parser

variable {α : Type} {c d : Cursor}

/-! ### Lines and marks -/

/-- Taking a line takes all up to its end, and no line break. -/
theorem takeLine_takes (hc : c.Ready) :
    c.Takes c.lineText c.takeLine.2 ∧ IsLine c.lineText ∧ LineEnds c.takeLine.2.here.rest := by
  refine ⟨⟨c.takeLine_reads, hc.of_to c.to_takeLine rfl⟩, fun ch hch => ?_,
    Text.ends_dropWhile _ _⟩
  simpa using List.mem_takeWhile_imp hch

/-- A line that was read is all that stood in front of its end. -/
theorem takeLine_returns (hc : c.Ready) (h : Returns takeLine c line d) :
    c.Takes line d ∧ IsLine line ∧ LineEnds d.here.rest := by
  obtain ⟨rfl, rfl⟩ : c.lineText = line ∧ c.takeLine.2 = d := by
    injection h with hline hd
    exact ⟨hline, hd⟩
  exact takeLine_takes hc

/-- A text within a line is read as that line if the line ends behind it. -/
theorem takeLine_yields (hc : c.Ready) (hline : IsLine line) (hrest : c.here.rest = line ++ rest)
    (hends : LineEnds rest) : Yields takeLine c line line := by
  have htaken : c.lineText = line := by
    unfold Cursor.lineText
    rw [hrest]
    exact Text.takeWhile_append_of_ends (fun ch hch => by simp [hline ch hch]) hends
  refine ⟨c.takeLine.2, ?_, htaken ▸ (takeLine_takes hc).1⟩
  rw [← htaken]
  rfl

theorem marks_current {n : Nat} (hrest : c.here.rest = marks (n + 1) ++ rest) :
    c.here.rest = '#' :: (marks n ++ rest) := hrest

/-- The markers that were read are all that stand there, up to the bound. -/
theorem takeMarkers_returns {n level : Nat} (hc : c.Ready) (h : Returns (takeMarkers n) c level d) :
    c.Takes (marks level) d ∧ level ≤ n ∧ (level < n → d.current ≠ some '#') := by
  induction n generalizing c level with
  | zero =>
    obtain ⟨rfl, rfl⟩ := Returns.pure_iff.1 h
    exact ⟨.refl hc, Nat.le_refl 0, by simp⟩
  | succ n ih =>
    unfold takeMarkers at h
    have h := h.current_bind
    split at h
    · next hcurrent =>
      obtain ⟨more, c₁, hmore, h⟩ := h.modify_bind.bind
      obtain ⟨rfl, rfl⟩ := Returns.pure_iff.1 h
      obtain ⟨h₁, hle, hstop⟩ := ih hc.next hmore
      exact ⟨(hc.next_takes_of_current (by decide) hcurrent).trans h₁, Nat.succ_le_succ hle,
        fun hlt => hstop (Nat.lt_of_succ_lt_succ hlt)⟩
    · next hcurrent =>
      obtain ⟨rfl, rfl⟩ := Returns.pure_iff.1 h
      exact ⟨.refl hc, Nat.zero_le _, fun _ => hcurrent⟩

/-- Markers are read up to the bound or to what is none. -/
theorem takeMarkers_yields {n level : Nat} (hc : c.Ready) (hle : level ≤ n)
    (hrest : c.here.rest = marks level ++ rest) (hstop : level < n → rest.head? ≠ some '#') :
    Yields (takeMarkers n) c (marks level) level := by
  -- one mark for each step; the bound may be reached with marks left to read
  induction n generalizing c level with
  | zero =>
    obtain rfl := Nat.le_zero.1 hle
    exact Yields.pure hc 0
  | succ n ih =>
    unfold takeMarkers
    cases level with
    | zero =>
      have hcurrent : c.current ≠ some '#' :=
        mt (Cursor.current_eq_head? (by decide)).1 (hrest ▸ hstop (Nat.succ_pos n))
      refine Yields.current_bind rfl ?_
      rw [if_neg hcurrent]
      exact Yields.pure hc 0
    | succ level =>
      have hmark := marks_current hrest
      refine Yields.current_bind rfl ?_
      rw [if_pos (Cursor.current_of_cons (by decide) hmark)]
      refine (Yields.next hc (by decide) hmark).bind hmark fun d h₁ hrest₁ => ?_
      refine ((ih h₁.ready (Nat.le_of_succ_le_succ hle) hrest₁ fun hlt =>
        hstop (Nat.succ_lt_succ hlt)).bind hrest₁ fun e h₂ _ => ?_).cast (List.append_nil _)
      exact Yields.pure h₂.ready _

/-- Expected markers that were found were taken. -/
theorem expectMarkers_returns {n : Nat} {u : Unit} (hc : c.Ready)
    (h : Returns (expectMarkers n) c u d) : c.Takes (marks n) d := by
  induction n generalizing c with
  | zero =>
    obtain ⟨-, rfl⟩ := Returns.pure_iff.1 h
    exact .refl hc
  | succ n ih =>
    unfold expectMarkers at h
    obtain ⟨_, c₁, hmark, h⟩ := h.bind
    have h₁ := expectChar_returns hc (by decide) hmark
    exact h₁.trans (ih h₁.ready h)

/-- Expected markers that are there are taken. -/
theorem expectMarkers_yields {n : Nat} (hc : c.Ready) (hrest : c.here.rest = marks n ++ rest) :
    Yields (expectMarkers n) c (marks n) () := by
  induction n generalizing c with
  | zero => exact Yields.pure hc ()
  | succ n ih =>
    have hmark := marks_current hrest
    unfold expectMarkers
    exact (Yields.expectChar hc (by decide) hmark).bind hmark fun d h₁ hrest₁ => ih h₁.ready hrest₁

/-! ### Comments that start with `#` -/

/-- A line of a comment that was read has taken its space and its content. -/
theorem commentLine_returns (hc : c.Ready) (h : Returns commentLine c content d) :
    ∃ line, c.Takes line d ∧ MarkedLine line content ∧ LineEnds d.here.rest := by
  unfold commentLine at h
  have h := h.current_bind
  split at h
  · next hcurrent =>
    obtain ⟨rfl, rfl⟩ := Returns.pure_iff.1 h
    exact ⟨[], .refl hc, .empty, lineEnds_iff.2 (.inl (Cursor.current_eq_none_iff.1 hcurrent))⟩
  · next hcurrent =>
    obtain ⟨rfl, rfl⟩ := Returns.pure_iff.1 h
    have hbreak := Text.startsBreak_iff_isSome.2 (Cursor.current_eq_newline_iff.1 hcurrent)
    exact ⟨[], .refl hc, .empty, lineEnds_iff.2 (.inr hbreak)⟩
  · next hcurrent =>
    have h₁ := hc.next_takes_of_current (by decide) hcurrent
    obtain ⟨h₂, hline, hends⟩ := takeLine_returns h₁.ready h.modify_bind
    exact ⟨_, h₁.trans h₂, .text hline, hends⟩
  · exact absurd h Returns.not_fail

/-- A line of a comment is read as its content. -/
theorem commentLine_yields (hc : c.Ready) (h : MarkedLine line content)
    (hrest : c.here.rest = line ++ rest) (hends : LineEnds rest) :
    Yields commentLine c line content := by
  unfold commentLine
  cases h with
  | empty =>
    rcases lineEnds_iff.1 hends with rfl | hbreak
    · exact Yields.current_bind (Cursor.current_eq_none_iff.2 hrest) (Yields.pure hc [])
    · have hcurrent : c.current = some '\n' := by
        rw [Cursor.current_eq_newline_iff, hrest]
        exact Text.startsBreak_iff_isSome.1 hbreak
      exact Yields.current_bind hcurrent (Yields.pure hc [])
  | text hline =>
    refine Yields.current_bind (Cursor.current_of_cons (by decide) hrest) ?_
    exact (Yields.next hc (by decide) hrest).bind hrest fun d h₁ hrest₁ =>
      takeLine_yields h₁.ready hline hrest₁ hends

/-- What the rounds over the lines of a comment have read when it ends. -/
def ReadsLines (level : Nat) (before : List Char) (c : Cursor) (content : List Char)
    (d : Cursor) : Prop :=
  ∃ text more, c.Takes text d ∧ CommentLines MarkedLine (marks level) text more ∧
    content = before ++ more ∧ LineEnds d.here.rest ∧ startsComment level d.here.rest = false

/-- A round that goes on has read a line of the comment and the markers of the next one. -/
theorem commentRound_again {level : Nat} {before before' : List Char} (hc : c.Ready)
    (h : Returns (commentRound level before) c (.again before') d) :
    d.Ready ∧ ∀ content e, ReadsLines level before' d content e →
      ReadsLines level before c content e := by
  unfold commentRound at h
  dsimp only at h
  obtain ⟨content, c₁, hline, h⟩ := h.bind
  obtain ⟨line, h₁, hline, -⟩ := commentLine_returns hc hline
  have h := h.ask_bind (h₁.ready.isNextLineComment level)
  split at h
  · next hstarts =>
    obtain ⟨_, c₂, hmarks, h⟩ := h.modify_bind.bind
    obtain ⟨hround, rfl⟩ := Returns.pure_iff.1 h
    obtain rfl := Round.again.inj hround
    -- the round goes on: the line is followed by its break and the same marks
    obtain ⟨behind, hbreak, -⟩ := (Option.any_eq_true _ _).1 hstarts
    obtain ⟨ending, hending, hrest⟩ := Text.afterBreak?_eq_some hbreak
    have h₂ := h₁.ready.next_takes_break hbreak hrest
    have h₃ := expectMarkers_returns h₂.ready hmarks
    refine ⟨h₃.ready, ?_⟩
    rintro _ e ⟨text, more, h₄, hlines, rfl, hends⟩
    exact ⟨_, _, h₁.trans (h₂.trans (h₃.trans h₄)), .more hline hending hlines, by simp, hends⟩
  · cases (Returns.pure_iff.1 h).1

/-- The last round has read a line that no other line of the comment follows. -/
theorem commentRound_done {level : Nat} {before : List Char} (hc : c.Ready)
    (h : Returns (commentRound level before) c (.done content) d) :
    ReadsLines level before c content d := by
  unfold commentRound at h
  dsimp only at h
  obtain ⟨more, c₁, hline, h⟩ := h.bind
  obtain ⟨line, h₁, hline, hends⟩ := commentLine_returns hc hline
  have h := h.ask_bind (h₁.ready.isNextLineComment level)
  split at h
  · obtain ⟨_, _, -, h⟩ := h.modify_bind.bind
    cases (Returns.pure_iff.1 h).1
  · next hnone =>
    obtain ⟨hround, rfl⟩ := Returns.pure_iff.1 h
    obtain rfl := Round.done.inj hround
    exact ⟨line, more, h₁, .last hline, rfl, hends, by simpa using hnone⟩

/-- What is read as a comment is spelled as one, and no line goes on with it. -/
theorem comment_returns {entry : Entry} (hc : c.Ready) (hcurrent : c.current = some '#')
    (h : Returns comment c entry d) :
    ∃ level text content, 1 ≤ level ∧ level ≤ 3 ∧ c.Takes (marks level ++ text) d ∧
      CommentLines MarkedLine (marks level) text content ∧ LineEnds d.here.rest ∧
      startsComment level d.here.rest = false ∧
      entry = .comment (commentLevel level)
        ⟨String.ofList content, spanOf c.offset (marks level ++ text)⟩ := by
  unfold comment at h
  obtain ⟨level, c₁, hmarks, h⟩ := h.offset_bind.bind
  obtain ⟨h₁, hle, hstop⟩ := takeMarkers_returns hc hmarks
  obtain ⟨content, c₂, hlines, h⟩ := h.bind
  obtain ⟨text, more, h₂, hlines, hmore, hends, hnone⟩ :=
    rounds_returns (Q := ReadsLines level)
      (fun _ _ _ _ hready hround => commentRound_again hready hround)
      (fun _ _ _ _ hready hround => commentRound_done hready hround) h₁.ready hlines
  obtain ⟨rfl, rfl⟩ := Returns.pure_iff.1 h.spanFrom_bind
  -- there is a mark here, and fewer marks than the bound end where the marks end
  have hlevel : 1 ≤ level := by
    by_contra hlt
    obtain rfl : level = 0 := by omega
    refine hstop (by decide) ((Cursor.current_eq_head? (by decide)).2 ?_)
    rw [← (Cursor.current_eq_head? (by decide)).1 hcurrent, h₁.rest]
    rfl
  refine ⟨level, text, content, hlevel, hle, h₁.trans h₂, ?_, hends, hnone, ?_⟩
  · rwa [show content = more from hmore]
  · rw [(h₁.trans h₂).span_eq]

/-- What is spelled as the lines of a comment is read line by line. -/
theorem commentRounds_yields {level : Nat} {before : List Char} (hc : c.Ready) (hlevel : 1 ≤ level)
    (h : CommentLines MarkedLine (marks level) text content) (hrest : c.here.rest = text ++ rest)
    (hends : LineEnds rest) (hnone : startsComment level rest = false) :
    Yields (rounds (commentRound level) before) c text (before ++ content) := by
  induction h generalizing c before with
  | @last line content hline =>
    refine Yields.rounds_done ?_
    unfold commentRound
    dsimp only
    refine ((commentLine_yields hc hline hrest hends).bind hrest fun d h₁ hrest₁ => ?_).cast
      (List.append_nil _)
    refine Yields.ask_bind (h₁.ready.isNextLineComment level) ?_
    rw [hrest₁, hnone]
    exact Yields.pure h₁.ready _
  | @more line content ending lines more hline hending hlines ih =>
    simp only [List.append_assoc] at hrest
    -- the line, its break and the marks of the next line are one round
    have hround : Yields (commentRound level before) c (line ++ (ending ++ marks level))
        (.again (before ++ content ++ ['\n'])) := by
      unfold commentRound
      dsimp only
      refine (commentLine_yields hc hline hrest hending.lineEnds).bind hrest fun d h₁ hrest₁ => ?_
      obtain ⟨level, rfl⟩ := Nat.exists_eq_succ_of_ne_zero (Nat.one_le_iff_ne_zero.1 hlevel)
      have hbreak : afterBreak? d.here.rest = some (marks (level + 1) ++ (lines ++ rest)) := by
        rw [hrest₁]
        exact hending.afterBreak? (by decide)
      refine Yields.ask_bind (h₁.ready.isNextLineComment _) ?_
      rw [startsComment, hbreak, Option.any_some, startsMarked_marks, hlines.startsMarked hends,
        if_pos rfl]
      have hnext : Yields (modify Cursor.next) d ending () :=
        ⟨d.next, rfl, h₁.ready.next_takes_break hbreak hrest₁⟩
      refine hnext.bind hrest₁ fun e h₂ hrest₂ => ?_
      refine ((expectMarkers_yields h₂.ready hrest₂).bind hrest₂ fun k h₃ _ => ?_).cast
        (List.append_nil _)
      exact Yields.pure h₃.ready _
    -- the rest of the lines is for the rounds that follow
    have hsplit : line ++ (ending ++ (marks level ++ lines)) =
        line ++ (ending ++ marks level) ++ lines := by simp
    rw [hsplit]
    refine Yields.rounds_again hc hround ?_ (by simpa using hrest) fun d h₁ hrest₁ => ?_
    · simp [hending.ne_nil]
    · simpa using @ih d (before ++ content ++ ['\n']) h₁.ready hrest₁

/-- What is spelled as a comment is read as one where no line goes on with it. -/
theorem comment_yields {level : Nat} (hc : c.Ready) (hlevel : 1 ≤ level) (hle : level ≤ 3)
    (h : CommentLines MarkedLine (marks level) text content)
    (hrest : c.here.rest = marks level ++ text ++ rest) (hends : LineEnds rest)
    (hnone : startsComment level rest = false) :
    Yields comment c (marks level ++ text)
      (.comment (commentLevel level)
        ⟨String.ofList content, spanOf c.offset (marks level ++ text)⟩) := by
  rw [List.append_assoc] at hrest
  have hstop : (text ++ rest).head? ≠ some '#' := by
    rcases startsMarked_zero.1 (h.startsMarked hends) with hline | hspace
    · intro hhash
      cases hline '#' hhash
    · simp [hspace]
  unfold comment
  refine Yields.offset_bind ((takeMarkers_yields hc hle hrest fun _ => hstop).bind hrest
    fun c₁ h₁ hrest₁ => ?_)
  refine ((@commentRounds_yields _ _ _ _ _ [] h₁.ready hlevel h hrest₁ hends hnone).bind hrest₁
    fun c₂ h₂ _ => ?_).cast (List.append_nil _)
  exact Yields.span (h₁.trans h₂) _

/-! ### Comments that start with slashes -/

/-- What the rounds over lines with slashes have read when the comment ends. -/
def ReadsSlashedLines (before : List Char) (c : Cursor) (content : List Char) (d : Cursor) : Prop :=
  ∃ text more, c.Takes ('/' :: '/' :: text) d ∧ CommentLines SlashedLine ['/', '/'] text more ∧
    content = before ++ more ∧ LineEnds d.here.rest ∧ startsLegacyComment d.here.rest = false

/-- The line of a comment behind its slashes, in two steps. -/
theorem slashedLine_returns {f : List Char → Parser α} {a : α} (hc : c.Ready)
    (h : Returns (current >>= fun ch? =>
      if ch? = some ' ' then modify Cursor.next >>= fun _ : PUnit => takeLine >>= f
      else takeLine >>= f) c a d) :
    ∃ line content e, c.Takes line e ∧ SlashedLine line content ∧ LineEnds e.here.rest ∧
      Returns (f content) e a d := by
  have h := h.current_bind
  split at h
  · next hcurrent =>
    have h₁ := hc.next_takes_of_current (by decide) hcurrent
    obtain ⟨content, e, hline, h⟩ := h.modify_bind.bind
    obtain ⟨h₂, hline, hends⟩ := takeLine_returns h₁.ready hline
    exact ⟨_, content, e, h₁.trans h₂, .spaced hline, hends, h⟩
  · next hcurrent =>
    obtain ⟨content, e, hline, h⟩ := h.bind
    obtain ⟨h₁, hline, hends⟩ := takeLine_returns hc hline
    refine ⟨content, content, e, h₁, .bare (fun hspace => hcurrent ?_) hline, hends, h⟩
    obtain ⟨more, rfl⟩ := List.head?_eq_some_iff.1 hspace
    exact Cursor.current_of_cons (by decide) h₁.rest

/-- A line behind slashes is read as its content, with or without a space in front. -/
theorem slashedLine_yields {f : List Char → Parser α} {a : α} {taken : List Char} (hc : c.Ready)
    (h : SlashedLine line content) (hrest : c.here.rest = line ++ rest) (hends : LineEnds rest)
    (hf : ∀ d, c.Takes line d → d.here.rest = rest → Yields (f content) d taken a) :
    Yields (current >>= fun ch? =>
      if ch? = some ' ' then modify Cursor.next >>= fun _ : PUnit => takeLine >>= f
      else takeLine >>= f) c (line ++ taken) a := by
  refine Yields.current_bind rfl ?_
  cases h with
  | spaced hline =>
    rw [if_pos (Cursor.current_of_cons (by decide) hrest)]
    refine (Yields.next hc (by decide) hrest).bind hrest fun d h₁ hrest₁ => ?_
    refine (takeLine_yields h₁.ready hline hrest₁ hends).bind hrest₁ fun e h₂ hrest₂ => ?_
    exact hf e (h₁.trans h₂) hrest₂
  | bare hspace hline =>
    have hcurrent : c.current ≠ some ' ' := by
      refine mt (Cursor.current_eq_head? (by decide)).1 ?_
      rw [hrest]
      cases line with
      | nil =>
        intro hhead
        cases hends ' ' hhead
      | cons ch line => exact hspace
    rw [if_neg hcurrent]
    exact (takeLine_yields hc hline hrest hends).bind hrest hf

/-- A round that goes on has read a line of the comment and its slashes. -/
theorem legacyCommentRound_again {before before' : List Char} (hc : c.Ready)
    (h : Returns (legacyCommentRound before) c (.again before') d) :
    d.Ready ∧ ∀ content e, ReadsSlashedLines before' d content e →
      ReadsSlashedLines before c content e := by
  unfold legacyCommentRound at h
  dsimp only at h
  obtain ⟨c₁, h₁, h⟩ := expectTwice_returns hc (by decide) h
  obtain ⟨line, content, c₂, h₂, hline, -, h⟩ := slashedLine_returns h₁.ready h
  have h := h.ask_bind h₂.ready.isNextLineLegacyComment
  split at h
  · next hstarts =>
    obtain ⟨hround, rfl⟩ := Returns.pure_iff.1 h.modify_bind
    obtain rfl := Round.again.inj hround
    -- the slashes of the next line are looked at here and read by the next round
    obtain ⟨behind, hbreak, -⟩ := (Option.any_eq_true _ _).1 hstarts
    obtain ⟨ending, hending, hrest⟩ := Text.afterBreak?_eq_some hbreak
    have h₃ := h₂.ready.next_takes_break hbreak hrest
    refine ⟨h₃.ready, ?_⟩
    rintro _ e ⟨text, more, h₄, hlines, rfl, hends⟩
    exact ⟨_, _, h₁.trans (h₂.trans (h₃.trans h₄)), .more hline hending hlines, by simp, hends⟩
  · cases (Returns.pure_iff.1 h).1

/-- The last round has read a line that no other line of the comment follows. -/
theorem legacyCommentRound_done {before : List Char} (hc : c.Ready)
    (h : Returns (legacyCommentRound before) c (.done content) d) :
    ReadsSlashedLines before c content d := by
  unfold legacyCommentRound at h
  dsimp only at h
  obtain ⟨c₁, h₁, h⟩ := expectTwice_returns hc (by decide) h
  obtain ⟨line, more, c₂, h₂, hline, hends, h⟩ := slashedLine_returns h₁.ready h
  have h := h.ask_bind h₂.ready.isNextLineLegacyComment
  split at h
  · cases (Returns.pure_iff.1 h.modify_bind).1
  · next hnone =>
    obtain ⟨hround, rfl⟩ := Returns.pure_iff.1 h
    obtain rfl := Round.done.inj hround
    exact ⟨line, more, h₁.trans h₂, .last hline, rfl, hends, by simpa using hnone⟩

/-- What is read as a comment of older resources is spelled as one, and no line goes on with
it. -/
theorem legacyComment_returns {entry : Entry} (hc : c.Ready)
    (h : Returns legacyComment c entry d) :
    ∃ text content, c.Takes ('/' :: '/' :: text) d ∧
      CommentLines SlashedLine ['/', '/'] text content ∧ LineEnds d.here.rest ∧
      startsLegacyComment d.here.rest = false ∧
      entry = .comment .plain ⟨String.ofList content, spanOf c.offset ('/' :: '/' :: text)⟩ := by
  unfold legacyComment at h
  obtain ⟨content, c₁, hlines, h⟩ := h.offset_bind.bind
  obtain ⟨text, more, h₁, hlines, hmore, hends, hnone⟩ :=
    rounds_returns (Q := ReadsSlashedLines)
      (fun _ _ _ _ hready hround => legacyCommentRound_again hready hround)
      (fun _ _ _ _ hready hround => legacyCommentRound_done hready hround) hc hlines
  obtain ⟨rfl, rfl⟩ := Returns.pure_iff.1 h.spanFrom_bind
  refine ⟨text, content, h₁, ?_, hends, hnone, by rw [h₁.span_eq]⟩
  rwa [show content = more from hmore]

/-- The lines of a comment with slashes are read in rounds, behind those read before. -/
theorem legacyCommentRounds_yields {before : List Char} (hc : c.Ready)
    (h : CommentLines SlashedLine ['/', '/'] text content)
    (hrest : c.here.rest = '/' :: '/' :: (text ++ rest)) (hends : LineEnds rest)
    (hnone : startsLegacyComment rest = false) :
    Yields (rounds legacyCommentRound before) c ('/' :: '/' :: text) (before ++ content) := by
  induction h generalizing c before with
  | @last line content hline =>
    refine Yields.rounds_done ?_
    unfold legacyCommentRound
    dsimp only
    refine Yields.expectTwice_bind hc (by decide) hrest fun c₁ h₁ hrest₁ => ?_
    refine (slashedLine_yields h₁.ready hline hrest₁ hends fun c₂ h₂ hrest₂ => ?_).cast
      (List.append_nil _)
    refine Yields.ask_bind h₂.ready.isNextLineLegacyComment ?_
    rw [hrest₂, hnone]
    exact Yields.pure h₂.ready _
  | @more line content ending lines more hline hending hlines ih =>
    simp only [List.append_assoc] at hrest
    -- a round reads its own slashes, so only the line break stands between two rounds
    have hround : Yields (legacyCommentRound before) c ('/' :: '/' :: (line ++ ending))
        (.again (before ++ content ++ ['\n'])) := by
      unfold legacyCommentRound
      dsimp only
      refine Yields.expectTwice_bind hc (by decide) hrest fun c₁ h₁ hrest₁ => ?_
      refine slashedLine_yields h₁.ready hline hrest₁ hending.lineEnds fun c₂ h₂ hrest₂ => ?_
      have hbreak : afterBreak? c₂.here.rest = some ('/' :: '/' :: (lines ++ rest)) := by
        rw [hrest₂]
        exact hending.afterBreak? (by decide)
      refine Yields.ask_bind h₂.ready.isNextLineLegacyComment ?_
      rw [startsLegacyComment, hbreak, Option.any_some, Text.startsSlashes, if_pos rfl]
      have hnext : Yields (modify Cursor.next) c₂ ending () :=
        ⟨c₂.next, rfl, h₂.ready.next_takes_break hbreak hrest₂⟩
      refine (hnext.bind hrest₂ fun c₃ h₃ _ => ?_).cast (List.append_nil _)
      exact Yields.pure h₃.ready _
    have hsplit : '/' :: '/' :: (line ++ (ending ++ (['/', '/'] ++ lines))) =
        '/' :: '/' :: (line ++ ending) ++ '/' :: '/' :: lines := by simp
    rw [hsplit]
    refine Yields.rounds_again hc hround (by simp) (by simpa using hrest) fun d h₁ hrest₁ => ?_
    simpa using @ih d (before ++ content ++ ['\n']) h₁.ready hrest₁

/-- What is spelled as a comment of older resources is read as one where no line goes on with
it. -/
theorem legacyComment_yields (hc : c.Ready) (h : CommentLines SlashedLine ['/', '/'] text content)
    (hrest : c.here.rest = '/' :: '/' :: (text ++ rest)) (hends : LineEnds rest)
    (hnone : startsLegacyComment rest = false) :
    Yields legacyComment c ('/' :: '/' :: text)
      (.comment .plain ⟨String.ofList content, spanOf c.offset ('/' :: '/' :: text)⟩) := by
  unfold legacyComment
  refine Yields.offset_bind (((@legacyCommentRounds_yields _ _ _ _ [] hc h hrest hends hnone).bind
    hrest fun c₁ h₁ _ => ?_).cast (List.append_nil _))
  exact Yields.span h₁ _

end Parser

end Localization
