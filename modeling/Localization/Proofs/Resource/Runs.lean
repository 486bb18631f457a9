import Localization.Proofs.Resource.Lookahead
import Localization.Resource.Parse

/-!
# Runs of parsers

A parser run ends with a value or an error, and with a cursor either way. The equations here run
the steps that parsers are made of. All parsers of the grammar move their cursor by elementary
moves only, and report an error where they stopped.

## Main definitions

* `Parser.stopOf` — the cursor with which a run ends
* `Parser.Forward` — parsers that only move forward and report errors where they stop
* `Parser.Steady` — forward parsers that leave no lookahead pending

## Main statements

* `Parser.rounds_again`, `Parser.nested_run` — how repetition and recursion run
* `Parser.nested_induction` — what holds of the runs of every body holds of the nested parser
-/

namespace Localization.Parser

open EStateM (Result)

variable {σ α β : Type} {c d : Cursor}

/-- The cursor with which a run ends. -/
def stopOf : Result SyntaxError Cursor α → Cursor
  | .ok _ c => c
  | .error _ c => c

/-! ### Steps -/

/-- Behind a first part that returns, a sequence is its second part. -/
theorem bind_ok {p : Parser α} {f : α → Parser β} {a : α} (h : p c = .ok a d) :
    (p >>= f) c = f a d := by
  simp [bind, EStateM.bind, h]

/-- A sequence fails where its first part does. -/
theorem bind_error {p : Parser α} {f : α → Parser β} {e : SyntaxError} (h : p c = .error e d) :
    (p >>= f) c = .error e d := by
  simp [bind, EStateM.bind, h]

/-- A run of two parsers succeeds exactly if both do. -/
theorem bind_eq_ok {p : Parser α} {f : α → Parser β} {b : β} {e : Cursor} :
    (p >>= f) c = .ok b e ↔ ∃ a d, p c = .ok a d ∧ f a d = .ok b e := by
  simp only [bind, EStateM.bind]
  cases p c <;> simp

/-- A sequence fails either in its first part or, behind it, in its second. -/
theorem bind_eq_error {p : Parser α} {f : α → Parser β} {e : SyntaxError} {k : Cursor} :
    (p >>= f) c = .error e k ↔
      p c = .error e k ∨ ∃ a d, p c = .ok a d ∧ f a d = .error e k := by
  simp only [bind, EStateM.bind]
  cases p c <;> simp

/-- A run with a value succeeds. -/
theorem exists_ok {p : Parser α} (h : (p.run' c).isSome) : ∃ a d, p c = .ok a d := by
  unfold EStateM.run' EStateM.run at h
  cases hrun : p c with
  | ok a d => exact ⟨a, d, rfl⟩
  | error e d =>
    rw [hrun] at h
    cases h

/-- A run without a value fails. -/
theorem exists_error {p : Parser α} (h : (p.run' c).isNone) : ∃ e d, p c = .error e d := by
  unfold EStateM.run' EStateM.run at h
  cases hrun : p c with
  | ok a d =>
    rw [hrun] at h
    cases h
  | error e d => exact ⟨e, d, rfl⟩

variable (f : α → Parser β)

theorem pure_run (a : α) : (pure a : Parser α) c = .ok a c := rfl

/-- A failure is reported where the cursor stands. -/
theorem fail_run (code : ErrorCode) (args : List String) :
    (fail code args : Parser α) c = .error ⟨code, args, c.offset⟩ c := rfl

theorem fail_bind_run (code : ErrorCode) (args : List String) :
    ((fail code args : Parser α) >>= f) c = .error ⟨code, args, c.offset⟩ c := rfl

theorem offset_bind (f : Nat → Parser β) : (offset >>= f) c = f c.offset c := rfl

theorem current_bind (f : Option Char → Parser β) : (current >>= f) c = f c.current c := rfl

theorem next_bind (f : Option Char → Parser β) :
    (next >>= f) c = f c.next.current c.next := rfl

theorem ask_bind (question : Cursor → Bool × Cursor) (f : Bool → Parser β) :
    (ask question >>= f) c = f (question c).1 (question c).2 := rfl

theorem spanFrom_bind (start : Nat) (f : Span → Parser β) :
    (spanFrom start >>= f) c = f ⟨start, c.offset⟩ c := rfl

theorem modify_bind (move : Cursor → Cursor) (f : Unit → Parser β) :
    ((modify move : Parser PUnit) >>= f) c = f () (move c) := rfl

theorem skipInlineBlanks_bind (f : Unit → Parser β) :
    (skipInlineBlanks >>= f) c = f () c.skipInlineBlanks := rfl

theorem skipIndent_bind (f : Unit → Parser β) :
    (skipIndent >>= f) c = f () c.skipIndent := rfl

theorem takeWhile_bind (p : Char → Bool) (f : List Char → Parser β) :
    (takeWhile p >>= f) c = f (c.takeWhile p).1 (c.skipWhile p) := by
  rw [← Cursor.takeWhile_snd]
  rfl

/-! ### The arrow -/

/-- A character that is taken discards the lookahead. -/
theorem peek_next {ch : Char} (h : c.current = some ch) : c.peek.next = c.next := by
  have hpeek : c.peek.current = some ch := h
  rw [Cursor.next, Cursor.next, h, hpeek]
  rfl

/-- Looking for an arrow leaves the peek position behind its minus sign. -/
theorem isArrow_run (hc : c.Ready) :
    ask Cursor.isArrow c =
      .ok (Text.startsArrow c.here.rest) (if c.current = some '-' then c.peek else c) := by
  change EStateM.Result.ok c.isArrow.1 c.isArrow.2 = _
  unfold Cursor.isArrow
  split
  · next hminus =>
    have hrest := Mark.step_rest_of_head? (by decide) hminus
    have hahead : c.peek.ahead = c.here.step := by
      rw [← hc.ahead_eq]
      rfl
    have hpeeked : c.peek.peeked = some '>' ↔ c.here.step.rest.head? = some '>' := by
      rw [Cursor.peeked_eq_some_iff (by decide), hahead]
    rw [hrest, Text.startsArrow_minus, ← decide_eq_decide.2 hpeeked]
  · next hminus =>
    have hhead := mt (Mark.char?_eq_some_iff_head? (m := c.here) (by decide)).2 hminus
    rw [Text.startsArrow_of_head?_ne hhead]

/-! ### Repetition and recursion -/

/-- A round that goes on and has read something is followed by the rounds from there. -/
theorem rounds_again {round : σ → Parser (Round σ α)} {s s' : σ}
    (h : round s c = .ok (.again s') d) (hlt : d.remaining < c.remaining) :
    rounds round s c = rounds round s' d := by
  rw [rounds, h]
  simp [hlt]

/-- A round that goes on and has read nothing ends the loop with an error. -/
theorem rounds_stalled {round : σ → Parser (Round σ α)} {s s' : σ}
    (h : round s c = .ok (.again s') d) (hge : ¬d.remaining < c.remaining) :
    rounds round s c = stalled d := by
  rw [rounds, h]
  simp [hge]

/-- A last round ends the loop with its result. -/
theorem rounds_done {round : σ → Parser (Round σ α)} {s : σ} {a : α}
    (h : round s c = .ok (.done a) d) : rounds round s c = .ok a d := by
  rw [rounds, h]

/-- A round that fails ends the loop with its error. -/
theorem rounds_error {round : σ → Parser (Round σ α)} {s : σ} {e : SyntaxError}
    (h : round s c = .error e d) : rounds round s c = .error e d := by
  rw [rounds, h]

/-- The parser that a nested parser hands to its body: itself, on what remains. -/
def inner (p : Parser α) (limit : Nat) : Parser α := fun d =>
  if d.remaining < limit then p d else stalled d

/-- A recursive parser runs its body, with itself inside for what is left to read. -/
theorem nested_run (body : Parser α → Parser α) (c : Cursor) :
    nested body c = body (inner (nested body) c.remaining) c := by
  rw [nested]
  rfl

/-- What a body makes of a self keeps holds of the nested parser, whatever `Q` says of runs. -/
theorem nested_induction {body : Parser α → Parser α}
    {Q : Cursor → Result SyntaxError Cursor α → Prop} (hstalled : ∀ c, Q c (stalled c))
    (hbody : ∀ self : Parser α, (∀ c, Q c (self c)) → ∀ c, Q c (body self c)) (c : Cursor) :
    Q c (nested body c) := by
  have hinner : ∀ n, ∀ c, Q c (inner (nested body) n c) := by
    intro n
    induction n using Nat.strongRecOn with
    | ind n ih =>
      intro c
      unfold inner
      split
      · next hlt =>
        rw [nested_run]
        exact hbody _ (ih _ hlt) c
      · exact hstalled c
  rw [nested_run]
  exact hbody _ (hinner _) c

/-! ### Forward parsers -/

/-- Parsers that only move forward, and report an error where they stop. -/
class Forward (p : Parser α) : Prop where
  moves : ∀ c : Cursor, c.To (stopOf (p c))
  stops : ∀ c e d, p c = .error e d → e.offset = d.offset

/-- What a run may leave of the lookahead: nothing if it succeeds, and an arrow if it fails. -/
def Settles : Result SyntaxError Cursor α → Prop
  | .ok _ c => c.Ready
  | .error _ c => c.Settled

/-- Forward parsers that leave no lookahead pending but the one for an arrow. -/
class Steady (p : Parser α) : Prop extends Forward p where
  settles : ∀ c : Cursor, c.Ready → Settles (p c)

/-- Moves that a parser may make. -/
class Moving (move : Cursor → Cursor) : Prop where
  moves : ∀ c : Cursor, c.To (move c)
  settles : ∀ c : Cursor, c.Ready → (move c).Ready

namespace Forward

/-- A parser that returns has only moved forward. -/
theorem to_ok {p : Parser α} [Forward p] {a : α} (h : p c = .ok a d) : c.To d := by
  have hmoves := Forward.moves (p := p) c
  rwa [h] at hmoves

/-- A parser that fails has only moved forward. -/
theorem to_error {p : Parser α} [Forward p] {e : SyntaxError} (h : p c = .error e d) :
    c.To d := by
  have hmoves := Forward.moves (p := p) c
  rwa [h] at hmoves

instance bind {p : Parser α} {f : α → Parser β} [Forward p] [∀ a, Forward (f a)] :
    Forward (p >>= f) where
  moves c := by
    cases h : p c with
    | ok a d =>
      rw [bind_ok h]
      exact (to_ok h).trans (Forward.moves d)
    | error e d =>
      rw [bind_error h]
      exact to_error h
  stops c e d h := by
    rcases bind_eq_error.1 h with herror | ⟨a, k, -, herror⟩
    · exact stops c e d herror
    · exact stops k e d herror

/-- What runs behind a parser is looked at for each of its values. -/
theorem bind_forall {p : Parser α} {f : α → Parser β} [Forward p] (h : ∀ a, Forward (f a)) :
    Forward (p >>= f) := bind

instance {p q : Parser α} {prop : Prop} [Decidable prop] [Forward p] [Forward q] :
    Forward (if prop then p else q) := by
  split <;> infer_instance

end Forward

namespace Steady

/-- A steady parser that returns leaves no lookahead pending. -/
theorem ready_of_ok {p : Parser α} [Steady p] {a : α} (hc : c.Ready) (h : p c = .ok a d) :
    d.Ready := by
  have hsettles := Steady.settles (p := p) c hc
  rwa [h] at hsettles

/-- A steady parser that fails leaves the cursor settled. -/
theorem settled_of_error {p : Parser α} [Steady p] {e : SyntaxError} (hc : c.Ready)
    (h : p c = .error e d) : d.Settled := by
  have hsettles := Steady.settles (p := p) c hc
  rwa [h] at hsettles

/-- A parser that only looks at the cursor. -/
theorem of_ok {p : Parser α} (h : ∀ c : Cursor, ∃ a, p c = .ok a c) : Steady p where
  moves c := by
    obtain ⟨a, hc⟩ := h c
    rw [hc]
    exact .refl
  stops c e d herror := by
    obtain ⟨a, hc⟩ := h c
    rw [hc] at herror
    cases herror
  settles c hready := by
    obtain ⟨a, hc⟩ := h c
    rw [hc]
    exact hready

/-- A parser that moves the cursor and looks at it. -/
theorem of_moving {p : Parser α} (move : Cursor → Cursor) [Moving move]
    (h : ∀ c : Cursor, ∃ a, p c = .ok a (move c)) : Steady p where
  moves c := by
    obtain ⟨a, hc⟩ := h c
    rw [hc]
    exact Moving.moves c
  stops c e d herror := by
    obtain ⟨a, hc⟩ := h c
    rw [hc] at herror
    cases herror
  settles c hready := by
    obtain ⟨a, hc⟩ := h c
    rw [hc]
    exact Moving.settles c hready

/-- A parser that fails where it stands. -/
theorem of_fail {p : Parser α} {code : ErrorCode} {args : List String}
    (h : ∀ c : Cursor, p c = .error ⟨code, args, c.offset⟩ c) : Steady p where
  moves c := by
    rw [h]
    exact .refl
  stops c e d herror := by
    rw [h] at herror
    cases herror
    rfl
  settles c hready := by
    rw [h]
    exact hready.settled

instance (a : α) : Steady (pure a : Parser α) := of_ok fun _ => ⟨a, rfl⟩

instance (code : ErrorCode) (args : List String) : Steady (fail code args : Parser α) :=
  of_fail fun _ => rfl

/-- Nothing runs behind a failure. -/
instance (priority := 2000) {code : ErrorCode} {args : List String} {f : α → Parser β} :
    Steady ((fail code args : Parser α) >>= f) :=
  of_fail fun _ => rfl

instance bind {p : Parser α} {f : α → Parser β} [Steady p] [∀ a, Steady (f a)] :
    Steady (p >>= f) where
  settles c hc := by
    cases h : p c with
    | ok a d =>
      rw [bind_ok h]
      exact settles d (ready_of_ok hc h)
    | error e d =>
      rw [bind_error h]
      exact settled_of_error hc h

/-- What runs behind a parser is looked at for each of its values. -/
theorem bind_forall {p : Parser α} {f : α → Parser β} [Steady p] (h : ∀ a, Steady (f a)) :
    Steady (p >>= f) := bind

instance {p q : Parser α} {prop : Prop} [Decidable prop] [Steady p] [Steady q] :
    Steady (if prop then p else q) := by
  split <;> infer_instance

instance : Steady offset := of_ok fun c => ⟨c.offset, rfl⟩

instance : Steady current := of_ok fun c => ⟨c.current, rfl⟩

instance (start : Nat) : Steady (spanFrom start) := of_ok fun c => ⟨⟨start, c.offset⟩, rfl⟩

instance {move : Cursor → Cursor} [Moving move] : Steady (modify move : Parser PUnit) :=
  of_moving move fun _ => ⟨(), rfl⟩

instance {question : Cursor → Bool × Cursor} [Moving fun c => (question c).2] :
    Steady (ask question) :=
  of_moving (fun c => (question c).2) fun c => ⟨(question c).1, rfl⟩

instance : Moving Cursor.next := ⟨Cursor.to_next, fun _ hc => hc.next⟩

instance : Moving Cursor.resetPeek := ⟨Cursor.to_resetPeek, fun _ hc => hc.resetPeek.symm ▸ hc⟩

instance : Moving Cursor.skipInlineBlanks :=
  ⟨Cursor.to_skipWhile _, fun _ hc => hc.skipInlineBlanks⟩

instance : Moving Cursor.skipIndent := ⟨Cursor.to_skipIndent, fun _ hc => hc.skipIndent⟩

instance : Moving fun c => Cursor.next (Cursor.next c) :=
  ⟨fun c => c.to_next.trans (Cursor.to_next _), fun _ hc => hc.next.next⟩

instance : Moving fun c => (Lookahead.skipBlankLines c.next).2 :=
  ⟨fun c => c.to_next.trans (Cursor.to_skipBlankLines _), fun _ hc => hc.next.skipBlankLines.1⟩

/-- A question takes the peek position back. -/
theorem moving_of_resetPeek (question : Cursor → Bool × Cursor)
    (h : ∀ c, (question c).2 = c.resetPeek) : Moving fun c => (question c).2 := by
  rw [show (fun c => (question c).2) = Cursor.resetPeek from funext h]
  infer_instance

instance : Moving fun c => c.isNumberStart.2 := moving_of_resetPeek _ Cursor.isNumberStart_snd

instance : Moving fun c => c.isValueStart.2 :=
  moving_of_resetPeek _ fun c => by rw [c.isValueStart_eq]

instance : Moving fun c => c.isNextLinePattern.2 :=
  moving_of_resetPeek _ fun c => by rw [c.isNextLinePattern_eq]

instance : Moving fun c => c.isNextLineAttribute.2 :=
  moving_of_resetPeek _ fun c => by rw [c.isNextLineAttribute_eq]

instance : Moving fun c => c.isNextLineVariant.2 :=
  moving_of_resetPeek _ fun c => by rw [c.isNextLineVariant_eq]

instance (level : Nat) : Moving fun c => (c.isNextLineComment level).2 :=
  moving_of_resetPeek (Cursor.isNextLineComment · level) fun c => by
    rw [c.isNextLineComment_eq]

instance : Moving fun c => c.isNextLineLegacyComment.2 :=
  moving_of_resetPeek _ fun c => by rw [c.isNextLineLegacyComment_eq]

instance : Moving fun c => c.takeLine.2 :=
  ⟨Cursor.to_takeLine, fun c hc => hc.of_to c.to_takeLine rfl⟩

instance (p : Char → Bool) : Moving (Cursor.skipWhile p) :=
  ⟨Cursor.to_skipWhile p, fun _ hc => hc.skipWhile p⟩

instance : Steady skipInlineBlanks := inferInstanceAs (Steady (modify _))

instance : Steady skipIndent := inferInstanceAs (Steady (modify _))

instance : Steady takeLine := of_moving (fun c => c.takeLine.2) fun c => ⟨c.takeLine.1, rfl⟩

instance (p : Char → Bool) : Steady (takeWhile p) :=
  of_moving (Cursor.skipWhile p) fun c => ⟨(c.takeWhile p).1, by
    rw [← Cursor.takeWhile_snd]
    rfl⟩

instance : Steady next := inferInstanceAs (Steady (modify _ >>= fun _ => current))

instance : Steady (stalled : Parser α) := inferInstanceAs (Steady (fail _ _))

/-- What holds of a run of a steady parser. -/
def Keeps (c : Cursor) (r : Result SyntaxError Cursor α) : Prop :=
  c.To (stopOf r) ∧ (∀ e d, r = .error e d → e.offset = d.offset) ∧ (c.Ready → Settles r)

theorem keeps (p : Parser α) [Steady p] (c : Cursor) : Keeps c (p c) :=
  ⟨Forward.moves c, Forward.stops c, settles c⟩

/-- A parser is steady if it keeps what is asked of every cursor. -/
theorem of_keeps {p : Parser α} (h : ∀ c, Keeps c (p c)) : Steady p where
  moves c := (h c).1
  stops c := (h c).2.1
  settles c := (h c).2.2

/-- A repetition of steady rounds is steady. -/
instance {round : σ → Parser (Round σ α)} [∀ s, Steady (round s)] {s : σ} :
    Steady (rounds round s) := by
  refine of_keeps fun c => ?_
  fun_induction rounds round s c with
  | case1 s c s' d hround hlt ih =>
    obtain ⟨hmoves, hstops, hsettles⟩ := ih
    exact ⟨(Forward.to_ok hround).trans hmoves, hstops, fun hc => hsettles (ready_of_ok hc hround)⟩
  | case2 s c s' d hround hge =>
    refine ⟨Forward.to_ok hround, Forward.stops (p := stalled) d, fun hc => ?_⟩
    exact settles (p := stalled) d (ready_of_ok hc hround)
  | case3 s c a d hround =>
    exact ⟨Forward.to_ok hround, (fun _ _ herror => by cases herror), (ready_of_ok · hround)⟩
  | case4 s c e d hround =>
    refine ⟨Forward.to_error hround, fun _ _ herror => ?_, (settled_of_error · hround)⟩
    cases herror
    exact Forward.stops _ _ _ hround

/-- A nested parser is steady if its body is, given a steady parser. -/
theorem nested {body : Parser α → Parser α}
    (h : ∀ self, Steady self → Steady (body self)) : Steady (nested body) := by
  refine of_keeps (nested_induction (keeps stalled) fun self hself c => ?_)
  have := h self (of_keeps hself)
  exact keeps (body self) c

end Steady

end Localization.Parser
