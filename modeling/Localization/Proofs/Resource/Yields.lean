import Localization.Proofs.Resource.Answers
import Localization.Proofs.Resource.Runs

/-!
# Runs that succeed

A run that succeeds reads a text and, in this grammar, leaves no lookahead pending. Such runs are
followed in two directions: what they have read is taken apart step by step, and a text ahead that
has the right shape is shown to be read.

## Main definitions

* `Cursor.Takes` — a cursor has read a text and no lookahead is pending
* `Parser.Yields` — a run succeeds with a value and reads a text

## Main statements

* `Parser.Yields.bind`, `Parser.Yields.rounds_again` — a text is read piece by piece
* `Parser.rounds_ok` — what holds of a successful repetition
-/

namespace Localization

open Text (Ends IsBlanks byteLength)

namespace Cursor

/-- The second cursor has read a text from the first one on, and no lookahead is pending. -/
structure Takes (c : Cursor) (taken : List Char) (d : Cursor) : Prop where
  reads : c.Reads taken d
  ready : d.Ready

variable {c d e : Cursor} {taken tail : List Char} {ch : Char}

theorem Takes.refl (hc : c.Ready) : c.Takes [] c := ⟨.refl c, hc⟩

theorem Takes.trans {first second : List Char} (h : c.Takes first d) (h' : d.Takes second e) :
    c.Takes (first ++ second) e :=
  ⟨h.reads.trans h'.reads, h'.ready⟩

/-- What stood behind the text taken is what is left. -/
theorem Takes.rest_eq (h : c.Takes taken d) (hrest : c.here.rest = taken ++ tail) :
    d.here.rest = tail :=
  (List.append_cancel_left (h.reads.here.1.symm.trans hrest))

/-- What stood at the cursor is the text taken and what is left. -/
theorem Takes.rest (h : c.Takes taken d) : c.here.rest = taken ++ d.here.rest := h.reads.here.1

/-- The span from where a text starts to the cursor behind it is the span of that text. -/
theorem Takes.span_eq (h : c.Takes taken d) :
    (⟨c.offset, d.offset⟩ : Span) = spanOf c.offset taken := by
  rw [show d.offset = c.offset + byteLength taken from h.reads.here.2]
  rfl

/-- Taking a text moves the cursor by its length. -/
theorem Takes.offset (h : c.Takes taken d) : d.offset = c.offset + byteLength taken :=
  h.reads.here.2

/-- Taking something leaves less to read. -/
theorem Takes.remaining_lt (h : c.Takes taken d) (hc : c.Ready) (hne : taken ≠ []) :
    d.remaining < c.remaining := h.reads.remaining_lt hc.size_eq hne

theorem Takes.remaining_le (h : c.Takes taken d) (hc : c.Ready) : d.remaining ≤ c.remaining := by
  rw [hc.remaining, h.ready.remaining, h.rest, Text.byteLength_append]
  exact Nat.le_add_left _ _

/-- What is taken starts with the character at the cursor. -/
theorem Takes.head?_or {next : Option Char} (h : c.Takes taken d) (hne : taken ≠ []) :
    taken.head?.or next = c.here.rest.head? := by
  cases taken with
  | nil => exact absurd rfl hne
  | cons ch taken =>
    rw [h.rest]
    rfl

/-- Offsets behind a text that has been read, in terms of an earlier start. -/
theorem Takes.offset_from {start : Nat} {before : List Char} (h : c.Takes taken d)
    (hstart : c.offset = start + byteLength before) :
    d.offset = start + byteLength (before ++ taken) := by
  rw [h.offset, hstart, Text.byteLength_append, Nat.add_assoc]

/-- A span that starts before the cursor covers what was taken before and what is taken now. -/
theorem Takes.span_from {start : Nat} {before : List Char} (h : c.Takes taken d)
    (hstart : c.offset = start + byteLength before) :
    (⟨start, d.offset⟩ : Span) = spanOf start (before ++ taken) := by
  rw [h.offset_from hstart, spanOf]

/-- One step takes the character at the cursor. -/
theorem Ready.next_takes (hc : c.Ready) (hch : isLineBreak ch = false)
    (hrest : c.here.rest = ch :: tail) : c.Takes [ch] c.next :=
  ⟨next_reads_of_cons hch hrest, hc.next⟩

theorem Ready.next_takes_of_current (hc : c.Ready) (hch : ch ≠ '\n')
    (hcurrent : c.current = some ch) : c.Takes [ch] c.next := by
  obtain ⟨hbreak, rest, hrest⟩ := (current_eq_some_iff hch).1 hcurrent
  exact hc.next_takes hbreak hrest

/-- One step takes a whole line break. -/
theorem Ready.next_takes_break {ending : List Char} (hc : c.Ready)
    (hbreak : Text.afterBreak? c.here.rest = some tail) (hrest : c.here.rest = ending ++ tail) :
    c.Takes ending c.next := by
  obtain ⟨taken, hreads⟩ := c.next_reads
  have hsplit := hreads.here.1
  rw [next_rest_of_break hbreak, hrest] at hsplit
  rw [List.append_cancel_right hsplit]
  exact ⟨hreads, hc.next⟩

/-- Skipping takes the longest run of the characters asked for. -/
theorem Ready.skipWhile_takes {p : Char → Bool} (hp : ∀ ch, isLineBreak ch → p ch = false)
    (hc : c.Ready) : c.Takes (c.here.rest.takeWhile p) (c.skipWhile p) :=
  ⟨skipWhile_reads hp c, hc.skipWhile p⟩

theorem Ready.skipInlineBlanks_takes (hc : c.Ready) :
    c.Takes (c.here.rest.takeWhile isInlineBlank) c.skipInlineBlanks :=
  hc.skipWhile_takes fun _ => Text.not_isInlineBlank_of_isLineBreak

/-- Skipping blanks takes blanks, maybe none. -/
theorem Ready.takes_blanks (hc : c.Ready) :
    ∃ blanks, IsBlanks blanks ∧ c.Takes blanks c.skipInlineBlanks :=
  ⟨_, Text.isBlanks_takeWhile, hc.skipInlineBlanks_takes⟩

/-- The cursor shows the first character of its rest, unless a line break stands there. -/
theorem current_eq_head? (hch : isLineBreak ch = false) :
    c.current = some ch ↔ c.here.rest.head? = some ch :=
  Mark.char?_eq_some_iff_head? hch

end Cursor

namespace Parser

variable {σ α β : Type} {c d : Cursor} {p : Parser α} {f : α → Parser β} {a : α} {b : β}
  {taken taken' rest : List Char} {ch : Char} {r : Char → Bool}

/-- A run succeeds with a value, reads a text and leaves no lookahead pending. -/
def Yields (p : Parser α) (c : Cursor) (taken : List Char) (a : α) : Prop :=
  ∃ d, p c = .ok a d ∧ c.Takes taken d

/-- A class without line breaks may be asked about the text. -/
theorem ends_current (hr : ∀ ch, isLineBreak ch → r ch = false) :
    Ends r c.current ↔ Ends r c.here.rest.head? := by
  have hboth : r '\r' = r '\n' := by rw [hr _ (by decide), hr _ (by decide)]
  have hany : c.here.char?.any r = c.here.rest.head?.any r := Mark.any_char? hboth
  have hiff : ∀ ch? : Option Char, Ends r ch? ↔ ch?.any r = false := by
    intro ch?
    cases ch? <;> simp [Ends]
  rw [hiff, hiff]
  exact Eq.congr_left hany

namespace Yields

theorem cast (h : Yields p c taken a) (htaken : taken = taken') : Yields p c taken' a :=
  htaken ▸ h

/-- A result that is at hand takes nothing. -/
theorem pure (hc : c.Ready) (a : α) : Yields (Pure.pure a) c [] a := ⟨c, rfl, .refl hc⟩

/-- A text is read piece by piece. -/
theorem bind (h : Yields p c taken a) (hrest : c.here.rest = taken ++ rest)
    (hf : ∀ d, c.Takes taken d → d.here.rest = rest → Yields (f a) d taken' b) :
    Yields (p >>= f) c (taken ++ taken') b := by
  obtain ⟨d, hp, htakes⟩ := h
  obtain ⟨e, hq, htakes'⟩ := hf d htakes (htakes.rest_eq hrest)
  exact ⟨e, by rw [bind_ok hp, hq], htakes.trans htakes'⟩

theorem pure_bind (h : Yields (f a) c taken b) : Yields (Pure.pure a >>= f) c taken b := h

theorem offset_bind {f : Nat → Parser β} (h : Yields (f c.offset) c taken b) :
    Yields (offset >>= f) c taken b := h

theorem spanFrom_bind {f : Span → Parser β} {start : Nat}
    (h : Yields (f ⟨start, c.offset⟩) c taken b) : Yields (spanFrom start >>= f) c taken b := h

/-- A look at the character at the cursor takes nothing. -/
theorem current_bind {f : Option Char → Parser β} {ch? : Option Char} (hch : c.current = ch?)
    (h : Yields (f ch?) c taken b) : Yields (current >>= f) c taken b := by
  subst hch
  exact h

/-- A question that leaves the cursor as it is takes nothing. -/
theorem ask_bind {question : Cursor → Bool × Cursor} {f : Bool → Parser β} {answer : Bool}
    (hq : question c = (answer, c)) (h : Yields (f answer) c taken b) :
    Yields (ask question >>= f) c taken b := by
  obtain ⟨d, hf, htakes⟩ := h
  exact ⟨d, by rw [Parser.ask_bind, hq, hf], htakes⟩

/-- Where no arrow starts, the cursor stays. -/
theorem isArrow_none_bind {f : Bool → Parser β} (hc : c.Ready)
    (hminus : c.here.rest.head? ≠ some '-') (h : Yields (f false) c taken b) :
    Yields (ask Cursor.isArrow >>= f) c taken b := by
  obtain ⟨d, hf, htakes⟩ := h
  have hcurrent := mt (Cursor.current_eq_head? (by decide)).1 hminus
  refine ⟨d, ?_, htakes⟩
  rw [bind_ok (isArrow_run hc), Text.startsArrow_of_head?_ne hminus, if_neg hcurrent, hf]

/-- An arrow is seen from behind its minus sign, and a step from there goes past that sign. -/
theorem isArrow_some_bind {f : Bool → Parser β} (hc : c.Ready)
    (hrest : c.here.rest = '-' :: '>' :: rest)
    (h : c.peek.next = c.next → ∃ d, f true c.peek = .ok b d ∧ c.Takes taken d) :
    Yields (ask Cursor.isArrow >>= f) c taken b := by
  have hcurrent := Cursor.current_of_cons (by decide) hrest
  obtain ⟨d, hf, htakes⟩ := h (peek_next hcurrent)
  refine ⟨d, ?_, htakes⟩
  rw [bind_ok (isArrow_run hc), Text.startsArrow_iff.2 ⟨rest, hrest⟩, if_pos hcurrent, hf]

/-- One character is taken. -/
theorem next (hc : c.Ready) (hch : isLineBreak ch = false) (hrest : c.here.rest = ch :: rest) :
    Yields (modify Cursor.next) c [ch] () :=
  ⟨c.next, rfl, hc.next_takes hch hrest⟩

/-- One character is taken, and the rest of the run goes on behind it with the character there. -/
theorem next_bind {f : Option Char → Parser β} (hc : c.Ready) (hch : isLineBreak ch = false)
    (hrest : c.here.rest = ch :: rest)
    (hf : ∀ d, c.Takes [ch] d → d.here.rest = rest → Yields (f d.current) d taken b) :
    Yields (Parser.next >>= f) c (ch :: taken) b := by
  have htakes := hc.next_takes hch hrest
  obtain ⟨d, hd, htakes'⟩ := hf c.next htakes (htakes.rest_eq hrest)
  exact ⟨d, hd, htakes.trans htakes'⟩

/-- An expected character that is there is taken. -/
theorem expectChar (hc : c.Ready) (hch : isLineBreak ch = false)
    (hrest : c.here.rest = ch :: rest) : Yields (expectChar ch) c [ch] () := by
  have hcurrent := Cursor.current_of_cons hch hrest
  refine ⟨c.next, ?_, hc.next_takes hch hrest⟩
  unfold Parser.expectChar
  rw [Parser.current_bind, if_pos hcurrent]
  rfl

/-- Brackets and slashes that stand double are read one after the other. -/
theorem expectTwice_bind {f : Unit → Parser β} (hc : c.Ready) (hch : isLineBreak ch = false)
    (hrest : c.here.rest = ch :: ch :: rest)
    (hf : ∀ d, c.Takes [ch, ch] d → d.here.rest = rest → Yields (f ()) d taken b) :
    Yields (Parser.expectChar ch >>= fun _ => Parser.expectChar ch >>= f) c
      (ch :: ch :: taken) b := by
  refine (expectChar hc hch hrest).bind hrest fun d h₁ hrest₁ => ?_
  refine (expectChar h₁.ready hch hrest₁).bind hrest₁ fun e h₂ hrest₂ => ?_
  exact hf e (h₁.trans h₂) hrest₂

/-- A character of the class asked for is taken and returned. -/
theorem takeChar_some (hc : c.Ready) (hch : isLineBreak ch = false) (hr : r ch)
    (hrest : c.here.rest = ch :: rest) : Yields (takeChar r) c [ch] (some ch) := by
  refine ⟨c.next, ?_, hc.next_takes hch hrest⟩
  unfold takeChar
  rw [Parser.current_bind, Cursor.current_of_cons hch hrest]
  dsimp only
  rw [if_pos hr]
  rfl

/-- Nothing is taken where no character of the class stands. -/
theorem takeChar_none (hr : ∀ ch, isLineBreak ch → r ch = false) (hc : c.Ready)
    (hend : Ends r c.here.rest.head?) : Yields (takeChar r) c [] none := by
  have hcurrent := (ends_current hr).2 hend
  refine ⟨c, ?_, .refl hc⟩
  unfold takeChar
  rw [Parser.current_bind]
  cases hch : c.current with
  | none => rfl
  | some ch =>
    dsimp only
    rw [if_neg (by simp [hcurrent ch hch])]
    rfl

/-- Blanks are taken up to the first character that is none. -/
theorem skipInlineBlanks (hc : c.Ready) (hblanks : IsBlanks taken)
    (hrest : c.here.rest = taken ++ rest) (hend : Ends isInlineBlank rest.head?) :
    Yields skipInlineBlanks c taken () := by
  refine ⟨c.skipInlineBlanks, rfl, ?_⟩
  have htakes := hc.skipInlineBlanks_takes
  rwa [hrest, Text.takeWhile_append_of_ends hblanks hend] at htakes

/-- A run of the class asked for is taken and returned up to where it ends. -/
theorem takeWhile (hr : ∀ ch, isLineBreak ch → r ch = false) (hc : c.Ready)
    (htaken : ∀ ch ∈ taken, r ch) (hrest : c.here.rest = taken ++ rest)
    (hend : Ends r rest.head?) : Yields (takeWhile r) c taken taken := by
  refine ⟨c.skipWhile r, ?_, ?_⟩
  · have hfst := Cursor.takeWhile_fst hr c
    rw [hrest, Text.takeWhile_append_of_ends htaken hend] at hfst
    change EStateM.Result.ok (c.takeWhile r).1 (c.takeWhile r).2 = _
    rw [hfst, Cursor.takeWhile_snd]
  · have htakes := hc.skipWhile_takes hr
    rwa [hrest, Text.takeWhile_append_of_ends htaken hend] at htakes

/-- The span of what has been read since a cursor. -/
theorem span {e : Cursor} (h : e.Takes taken c) (g : Span → α) :
    Yields (spanFrom e.offset >>= fun span => Pure.pure (g span)) c []
      (g (spanOf e.offset taken)) :=
  ⟨c, by rw [Parser.spanFrom_bind, h.offset]; rfl, .refl h.ready⟩

/-- A loop whose first round is the last one yields what that round does. -/
theorem rounds_done {round : σ → Parser (Round σ α)} {s : σ}
    (h : Yields (round s) c taken (.done a)) : Yields (rounds round s) c taken a := by
  obtain ⟨d, hround, htakes⟩ := h
  exact ⟨d, Parser.rounds_done hround, htakes⟩

/-- A round reads a piece of the text that is not empty, and the repetition goes on. -/
theorem rounds_again {round : σ → Parser (Round σ α)} {s s' : σ} (hc : c.Ready)
    (h : Yields (round s) c taken (.again s')) (hne : taken ≠ [])
    (hrest : c.here.rest = taken ++ rest)
    (hnext : ∀ d, c.Takes taken d → d.here.rest = rest → Yields (rounds round s') d taken' a) :
    Yields (rounds round s) c (taken ++ taken') a := by
  obtain ⟨d, hround, htakes⟩ := h
  obtain ⟨e, hrounds, htakes'⟩ := hnext d htakes (htakes.rest_eq hrest)
  have hlt := htakes.reads.remaining_lt hc.size_eq hne
  exact ⟨e, by rw [Parser.rounds_again hround hlt, hrounds], htakes.trans htakes'⟩

end Yields

/-- What a body reads, given a self that reads on what remains, the nested parser reads. -/
theorem nested_yields {body : Parser α → Parser α} {S : Cursor → List Char → α → Prop}
    (hbody : ∀ (self : Parser α) c taken a,
      (∀ d taken a, d.remaining < c.remaining → S d taken a → Yields self d taken a) →
      S c taken a → Yields (body self) c taken a)
    (h : S c taken a) : Yields (nested body) c taken a := by
  induction hn : c.remaining using Nat.strongRecOn generalizing c taken a with
  | ind n ih =>
    subst hn
    obtain ⟨d, hrun, htakes⟩ : Yields (body (inner (nested body) c.remaining)) c taken a := by
      refine hbody _ c taken a (fun d taken a hlt hS => ?_) h
      obtain ⟨e, hrun, htakes⟩ := ih _ hlt hS rfl
      exact ⟨e, by rw [inner, if_pos hlt, hrun], htakes⟩
    exact ⟨d, by rw [nested_run, hrun], htakes⟩

/-! ### Taking successful runs apart -/

/-- A run succeeds with a value and a cursor. -/
def Returns (p : Parser α) (c : Cursor) (a : α) (d : Cursor) : Prop := p c = .ok a d

namespace Returns

variable {e : Cursor}

/-- A result that is at hand is returned where the cursor stands. -/
theorem pure_iff {a' : α} : Returns (Pure.pure a) c a' d ↔ a = a' ∧ c = d := by
  simp [Returns, pure_run]

/-- A failure returns nothing. -/
theorem not_fail {code : ErrorCode} {args : List String} :
    ¬Returns (fail code args : Parser α) c a d := by
  simp [Returns, fail_run]

theorem not_fail_bind {code : ErrorCode} {args : List String} :
    ¬Returns ((fail code args : Parser α) >>= f) c b d := by
  simp [Returns, fail_bind_run]

/-- A sequence that returns has a first part that returns, and a second part that goes on from
there. -/
theorem bind (h : Returns (p >>= f) c b e) :
    ∃ a d, Returns p c a d ∧ Returns (f a) d b e := bind_eq_ok.1 h

theorem offset_bind {f : Nat → Parser β} (h : Returns (offset >>= f) c b e) :
    Returns (f c.offset) c b e := h

theorem spanFrom_bind {f : Span → Parser β} {start : Nat}
    (h : Returns (spanFrom start >>= f) c b e) : Returns (f ⟨start, c.offset⟩) c b e := h

theorem current_bind {f : Option Char → Parser β} (h : Returns (current >>= f) c b e) :
    Returns (f c.current) c b e := h

theorem pure_bind (h : Returns (Pure.pure a >>= f) c b e) : Returns (f a) c b e := h

theorem next_bind {f : Option Char → Parser β} (h : Returns (next >>= f) c b e) :
    Returns (f c.next.current) c.next b e := h

theorem modify_bind {move : Cursor → Cursor} {f : PUnit → Parser β}
    (h : Returns (modify move >>= f) c b e) : Returns (f ()) (move c) b e := h

theorem skipInlineBlanks_bind {f : Unit → Parser β}
    (h : Returns (skipInlineBlanks >>= f) c b e) : Returns (f ()) c.skipInlineBlanks b e := h

theorem skipIndent_bind {f : Unit → Parser β} (h : Returns (skipIndent >>= f) c b e) :
    Returns (f ()) c.skipIndent b e := h

/-- A question that leaves the cursor as it is can be left out of a run that returns. -/
theorem ask_bind {question : Cursor → Bool × Cursor} {answer : Bool} {f : Bool → Parser β}
    (hq : question c = (answer, c)) (h : Returns (ask question >>= f) c b e) :
    Returns (f answer) c b e := by
  unfold Returns at h ⊢
  rwa [Parser.ask_bind, hq] at h

/-- An arrow is seen from behind its minus sign, and a step from there goes past that sign. -/
theorem isArrow_bind {f : Bool → Parser β} (hc : c.Ready)
    (h : Returns (ask Cursor.isArrow >>= f) c b e) :
    (∃ tail, c.here.rest = '-' :: '>' :: tail ∧ c.peek.next = c.next ∧
        Returns (f true) c.peek b e) ∨
      ∃ p, p.resetPeek = c ∧ Returns (f false) p b e := by
  unfold Returns at h ⊢
  rw [bind_ok (isArrow_run hc)] at h
  cases harrow : Text.startsArrow c.here.rest with
  | true =>
    obtain ⟨tail, hrest⟩ := Text.startsArrow_iff.1 harrow
    have hcurrent := Cursor.current_of_cons (by decide) hrest
    rw [harrow, if_pos hcurrent] at h
    exact .inl ⟨tail, hrest, peek_next hcurrent, h⟩
  | false =>
    rw [harrow] at h
    refine .inr ⟨_, ?_, h⟩
    split
    · exact hc.resetPeek
    · exact hc.resetPeek

/-- In a run that returns, a loop over a class of characters returns the longest run of these. -/
theorem takeWhile_bind (hr : ∀ ch, isLineBreak ch → r ch = false) {f : List Char → Parser β}
    (h : Returns (takeWhile r >>= f) c b e) :
    Returns (f (c.here.rest.takeWhile r)) (c.skipWhile r) b e := by
  unfold Returns at h ⊢
  rwa [Parser.takeWhile_bind, Cursor.takeWhile_fst hr] at h

end Returns

/-- An expected character that was found stood at the cursor. -/
theorem expectChar_current {u : Unit} (h : Returns (expectChar ch) c u d) :
    c.current = some ch := by
  unfold expectChar at h
  have h := h.current_bind
  split at h
  · next hcurrent => exact hcurrent
  · exact absurd h Returns.not_fail

/-- Behind an expected character the cursor stands one step on. -/
theorem expectChar_next {u : Unit} (h : Returns (expectChar ch) c u d) : d = c.next := by
  have hcurrent := expectChar_current h
  unfold expectChar at h
  have h := h.current_bind
  rw [if_pos hcurrent] at h
  injection h with _ hnext
  exact hnext.symm

/-- An expected character that was found was taken. -/
theorem expectChar_returns {u : Unit} (hc : c.Ready) (hch : ch ≠ '\n')
    (h : Returns (expectChar ch) c u d) : c.Takes [ch] d := by
  rw [expectChar_next h]
  exact hc.next_takes_of_current hch (expectChar_current h)

/-- A doubled character that was found was taken. -/
theorem expectTwice_returns {f : Unit → Parser β} (hc : c.Ready) (hch : ch ≠ '\n')
    (h : Returns (expectChar ch >>= fun _ => expectChar ch >>= f) c b d) :
    ∃ e, c.Takes [ch, ch] e ∧ Returns (f ()) e b d := by
  obtain ⟨_, _, hfirst, h⟩ := h.bind
  have h₁ := expectChar_returns hc hch hfirst
  obtain ⟨_, e, hsecond, h⟩ := h.bind
  exact ⟨e, h₁.trans (expectChar_returns h₁.ready hch hsecond), h⟩

/-- What a single optional character took is of the class asked for, and nothing is taken only where
no such character stands. -/
theorem takeChar_returns {ch? : Option Char} (hr : ∀ ch, isLineBreak ch → r ch = false)
    (hc : c.Ready) (h : Returns (takeChar r) c ch? d) :
    c.Takes ch?.toList d ∧ (∀ ch ∈ ch?, r ch) ∧ (ch? = none → Ends r d.here.rest.head?) := by
  unfold takeChar at h
  have h := h.current_bind
  split at h
  · next hcurrent =>
    obtain ⟨rfl, rfl⟩ := Returns.pure_iff.1 h
    exact ⟨.refl hc, by simp, fun _ => (ends_current hr).1 (hcurrent ▸ Text.ends_none)⟩
  · next ch hcurrent =>
    split at h
    · next hrch =>
      obtain ⟨rfl, rfl⟩ := Returns.pure_iff.1 h.modify_bind
      refine ⟨hc.next_takes_of_current ?_ hcurrent, by simpa using hrch, by simp⟩
      rintro rfl
      rw [hr _ (by decide)] at hrch
      cases hrch
    · next hrch =>
      obtain ⟨rfl, rfl⟩ := Returns.pure_iff.1 h
      have hend : Ends r c.current := hcurrent ▸ Text.ends_some.2 (by simpa using hrch)
      exact ⟨.refl hc, by simp, fun _ => (ends_current hr).1 hend⟩

/-- What every round keeps up to the last one holds of a successful repetition. -/
theorem rounds_returns {round : σ → Parser (Round σ α)} {Q : σ → Cursor → α → Cursor → Prop}
    (hagain : ∀ s c s' c', c.Ready → Returns (round s) c (.again s') c' →
      c'.Ready ∧ ∀ a d, Q s' c' a d → Q s c a d)
    (hdone : ∀ s c a d, c.Ready → Returns (round s) c (.done a) d → Q s c a d)
    {s : σ} (hc : c.Ready) (h : Returns (rounds round s) c a d) : Q s c a d := by
  unfold Returns at h
  fun_induction rounds round s c with
  | case1 s c s' c' hround hlt ih =>
    obtain ⟨hready, hkeep⟩ := hagain s c s' c' hc hround
    exact hkeep a d (ih hready h)
  | case2 s c s' c' hround hge => cases h
  | case3 s c result c' hround =>
    cases h
    exact hdone s c _ _ hc hround
  | case4 s c e c' hround => cases h

/-- What a body makes of what its self returns holds of the nested parser. -/
theorem nested_returns {body : Parser α → Parser α} {Q : Cursor → α → Cursor → Prop}
    (hbody : ∀ self : Parser α, (∀ c a d, Returns self c a d → Q c a d) →
      ∀ c a d, Returns (body self) c a d → Q c a d)
    (h : Returns (nested body) c a d) : Q c a d :=
  nested_induction (Q := fun c r => ∀ a d, r = .ok a d → Q c a d)
    (fun _ _ _ hstalled => by cases hstalled)
    (fun self hself c a d hrun =>
      hbody self (fun c a d hself' => hself c a d hself') c a d hrun)
    c a d h

end Parser

end Localization
