import Localization.Proofs.Resource.Alignment

/-!
# Runs that mirror each other

Two runs from cursors that an alignment relates either both fail, with the same error at
corresponding offsets, or both succeed with values that correspond. The relation goes through the
steps of a parser, its repetitions and its recursion.

## Main definitions

* `Parser.Mirrors` — how two runs end alike
* `Parser.Alike` — parsers whose runs mirror each other from all cursors side by side
* `Parser.Round.Holds` — what holds of the states and of the result of a repetition

## Main statements

* `Parser.Mirrors.bind`, `Parser.Alike.rounds`, `Parser.Alike.nested` — how runs compose
-/

namespace Localization.Parser

open EStateM (Result)

variable {σ σ' α α' β β' : Type} {A : Alignment} {c d : Cursor}

/-- Two results are alike: values that correspond, with the first value and the cursors in a
relation, or the same error at corresponding offsets. -/
def Corresponds (A : Alignment) (S : α → Cursor → Cursor → Prop) (f : α → β) :
    Result SyntaxError Cursor α → Result SyntaxError Cursor β → Prop
  | .ok a c, .ok b d => b = f a ∧ S a c d
  | .error e c, .error e' d => e' = e.mapOffsets A.shift ∧ A.Followed c d
  | _, _ => False

/-- Two runs that end alike. -/
def Mirrors (A : Alignment) (S : α → Cursor → Cursor → Prop) (f : α → β) (p : Parser α)
    (q : Parser β) (c d : Cursor) : Prop :=
  Corresponds A S f (p c) (q d)

/-- Parsers whose runs from cursors side by side end alike, with cursors side by side. -/
def Alike (A : Alignment) (f : α → β) (p : Parser α) (q : Parser β) : Prop :=
  ∀ c d, A.Beside c d → Mirrors A (fun _ => A.Beside) f p q c d

/-- What a map of states and a map of results make of a round. -/
def Round.map (g : σ → σ') (f : α → β) : Round σ α → Round σ' β
  | .again state => .again (g state)
  | .done result => .done (f result)

/-- A round that leads to a state with one property or to a result with another. -/
def Round.Holds (I : σ → Prop) (J : α → Prop) : Round σ α → Prop
  | .again state => I state
  | .done result => J result

namespace Mirrors

variable {S : α → Cursor → Cursor → Prop} {T : β → Cursor → Cursor → Prop} {f : α → α'} {g : β → β'}
  {p : Parser α} {q : Parser α'}

theorem exists_ok {a : α} {c' : Cursor} (h : Mirrors A S f p q c d) (hp : p c = .ok a c') :
    ∃ d', q d = .ok (f a) d' ∧ S a c' d' := by
  unfold Mirrors at h
  rw [hp] at h
  cases hq : q d with
  | ok b d' =>
    rw [hq] at h
    exact ⟨d', by rw [h.1], h.2⟩
  | error e d' =>
    rw [hq] at h
    exact h.elim

theorem exists_error {e : SyntaxError} {c' : Cursor} (h : Mirrors A S f p q c d)
    (hp : p c = .error e c') :
    ∃ d', q d = .error (e.mapOffsets A.shift) d' ∧ A.Followed c' d' := by
  unfold Mirrors at h
  rw [hp] at h
  cases hq : q d with
  | ok b d' =>
    rw [hq] at h
    exact h.elim
  | error e' d' =>
    rw [hq] at h
    exact ⟨d', by rw [h.1], h.2⟩

theorem of_ok {a : α} {b : α'} {c' d' : Cursor} (hp : p c = .ok a c') (hq : q d = .ok b d')
    (hb : b = f a) (h : S a c' d') : Mirrors A S f p q c d := by
  unfold Mirrors
  rw [hp, hq]
  exact ⟨hb, h⟩

theorem of_error {e : SyntaxError} {c' d' : Cursor} (hp : p c = .error e c')
    (hq : q d = .error (e.mapOffsets A.shift) d') (h : A.Followed c' d') :
    Mirrors A S f p q c d := by
  unfold Mirrors
  rw [hp, hq]
  exact ⟨rfl, h⟩

/-- What is known of the first run may be used of its result. -/
theorem mono {S' : α → Cursor → Cursor → Prop} (h : Mirrors A S f p q c d)
    (hS : ∀ a c' d', p c = .ok a c' → S a c' d' → S' a c' d') : Mirrors A S' f p q c d := by
  cases hp : p c with
  | ok a c' =>
    obtain ⟨d', hq, hrelated⟩ := h.exists_ok hp
    exact .of_ok hp hq rfl (hS a c' d' hp hrelated)
  | error e c' =>
    obtain ⟨d', hq, hfollowed⟩ := h.exists_error hp
    exact .of_error hp hq hfollowed

/-- Two runs that end alike go on alike. -/
theorem bind {k : α → Parser β} {k' : α' → Parser β'} (h : Mirrors A S f p q c d)
    (hk : ∀ a c' d', S a c' d' → Mirrors A T g (k a) (k' (f a)) c' d') :
    Mirrors A T g (p >>= k) (q >>= k') c d := by
  unfold Mirrors
  cases hp : p c with
  | ok a c' =>
    obtain ⟨d', hq, hS⟩ := h.exists_ok hp
    rw [bind_ok hp, bind_ok hq]
    exact hk a c' d' hS
  | error e c' =>
    obtain ⟨d', hq, hfollowed⟩ := h.exists_error hp
    rw [bind_error hp, bind_error hq]
    exact ⟨rfl, hfollowed⟩

theorem pure {a : α} {b : α'} (h : S a c d) (hb : b = f a) :
    Mirrors A S f (Pure.pure a) (Pure.pure b) c d :=
  ⟨hb, h⟩

theorem fail (h : A.Followed c d) (code : ErrorCode) (args : List String) :
    Mirrors A S f (Parser.fail code args) (Parser.fail code args) c d := by
  refine ⟨?_, h⟩
  rw [SyntaxError.mapOffsets, h.offset]

theorem fail_bind (h : A.Followed c d) (code : ErrorCode) (args : List String)
    {k : β → Parser α} {k' : β' → Parser α'} :
    Mirrors A S f (Parser.fail code args >>= k) (Parser.fail code args >>= k') c d :=
  fail (S := S) (f := f) h code args

theorem ite {prop : Prop} [Decidable prop] {p' : Parser α} {q' : Parser α'}
    (hpos : prop → Mirrors A S f p q c d) (hneg : ¬prop → Mirrors A S f p' q' c d) :
    Mirrors A S f (if prop then p else p') (if prop then q else q') c d := by
  by_cases h : prop
  · rw [if_pos h, if_pos h]
    exact hpos h
  · rw [if_neg h, if_neg h]
    exact hneg h

theorem offset_bind (h : A.Followed c d) {k : Nat → Parser α} {k' : Nat → Parser α'}
    (hk : Mirrors A S f (k c.offset) (k' (A.shift c.offset)) c d) :
    Mirrors A S f (offset >>= k) (offset >>= k') c d := by
  unfold Mirrors
  rw [Parser.offset_bind, Parser.offset_bind, h.offset]
  exact hk

theorem spanFrom_bind (h : A.Followed c d) {start : Nat} {k : Span → Parser α}
    {k' : Span → Parser α'}
    (hk : Mirrors A S f (k ⟨start, c.offset⟩) (k' ⟨A.shift start, A.shift c.offset⟩) c d) :
    Mirrors A S f (spanFrom start >>= k) (spanFrom (A.shift start) >>= k') c d := by
  unfold Mirrors
  rw [Parser.spanFrom_bind, Parser.spanFrom_bind, h.offset]
  exact hk

theorem current_bind (h : d.current = c.current) {k : Option Char → Parser α}
    {k' : Option Char → Parser α'}
    (hk : Mirrors A S f (k c.current) (k' c.current) c d) :
    Mirrors A S f (current >>= k) (current >>= k') c d := by
  unfold Mirrors
  rw [Parser.current_bind, Parser.current_bind, h]
  exact hk

theorem next_bind (h : d.next.current = c.next.current) {k : Option Char → Parser α}
    {k' : Option Char → Parser α'}
    (hk : Mirrors A S f (k c.next.current) (k' c.next.current) c.next d.next) :
    Mirrors A S f (next >>= k) (next >>= k') c d := by
  unfold Mirrors
  rw [Parser.next_bind, Parser.next_bind, h]
  exact hk

theorem ask_bind {question : Cursor → Bool × Cursor} {answer : Bool}
    (hc : question c = (answer, c)) (hd : question d = (answer, d)) {k : Bool → Parser α}
    {k' : Bool → Parser α'} (hk : Mirrors A S f (k answer) (k' answer) c d) :
    Mirrors A S f (ask question >>= k) (ask question >>= k') c d := by
  unfold Mirrors
  rw [Parser.ask_bind, Parser.ask_bind, hc, hd]
  exact hk

theorem pure_bind {a : β} {k : β → Parser α} {k' : β → Parser α'}
    (hk : Mirrors A S f (k a) (k' a) c d) :
    Mirrors A S f (Pure.pure a >>= k) (Pure.pure a >>= k') c d := hk

theorem modify_bind {move : Cursor → Cursor} {k : PUnit → Parser α} {k' : PUnit → Parser α'}
    (hk : Mirrors A S f (k ()) (k' ()) (move c) (move d)) :
    Mirrors A S f (modify move >>= k) (modify move >>= k') c d := hk

theorem takeWhile_bind {r : Char → Bool} (hr : ∀ ch, isLineBreak ch → r ch = false)
    (h : A.Beside c d) {k : List Char → Parser α} {k' : List Char → Parser α'}
    (hk : ∀ taken c' d', A.Beside c' d' → Mirrors A S f (k taken) (k' taken) c' d') :
    Mirrors A S f (takeWhile r >>= k) (takeWhile r >>= k') c d := by
  unfold Mirrors
  obtain ⟨hbeside, htaken⟩ := A.beside_skipWhile h hr
  rw [Parser.takeWhile_bind, Parser.takeWhile_bind, htaken]
  exact hk _ _ _ hbeside

end Mirrors

/-! ### Repetition and recursion -/

namespace Alike

variable {f : α → α'} {g : σ → σ'}

theorem stalled : Alike A f (Parser.stalled : Parser α) (Parser.stalled : Parser α') :=
  fun _ _ h => Mirrors.fail h.toFollowed _ _

/-- Rounds that end alike and keep a property of the states give a result that has another. -/
theorem rounds_holds {round : σ → Parser (Round σ α)} {round' : σ' → Parser (Round σ' α')}
    {I : σ → Prop} {J : α → Prop}
    (h : ∀ s, I s → ∀ c d, A.Beside c d →
      Mirrors A (fun result c d => A.Beside c d ∧ result.Holds I J) (Round.map g f) (round s)
        (round' (g s)) c d)
    {s : σ} (hs : I s) (hcd : A.Beside c d) :
    Mirrors A (fun result c d => A.Beside c d ∧ J result) f (Parser.rounds round s)
      (Parser.rounds round' (g s)) c d := by
  -- along the rounds of the first run: the second one makes progress where the first does
  fun_induction Parser.rounds round s c generalizing d with
  | case1 s c s' c' hround hlt ih =>
    obtain ⟨d', hround', hnext, hs'⟩ := (h s hs c d hcd).exists_ok hround
    have hrest := ih hs' hnext
    unfold Mirrors at hrest ⊢
    rwa [rounds_again hround hlt, rounds_again hround' ((A.beside_remaining hcd hnext).2 hlt)]
  | case2 s c s' c' hround hge =>
    obtain ⟨d', hround', hnext, -⟩ := (h s hs c d hcd).exists_ok hround
    unfold Mirrors
    rw [rounds_stalled hround hge,
      rounds_stalled hround' (mt (A.beside_remaining hcd hnext).1 hge)]
    exact Mirrors.fail hnext.toFollowed _ _
  | case3 s c a c' hround =>
    obtain ⟨d', hround', hnext, ha⟩ := (h s hs c d hcd).exists_ok hround
    exact .of_ok (rounds_done hround) (rounds_done hround') rfl ⟨hnext, ha⟩
  | case4 s c e c' hround =>
    obtain ⟨d', hround', hfollowed⟩ := (h s hs c d hcd).exists_error hround
    exact .of_error (rounds_error hround) (rounds_error hround') hfollowed

theorem rounds {round : σ → Parser (Round σ α)} {round' : σ' → Parser (Round σ' α')}
    (h : ∀ s, Alike A (Round.map g f) (round s) (round' (g s))) (s : σ) :
    Alike A f (rounds round s) (Parser.rounds round' (g s)) := by
  have hholds : ∀ result : Round σ α, result.Holds (fun _ => True) fun _ => True := by
    rintro (_ | _) <;> trivial
  intro c d hcd
  have hrun : Mirrors A (fun _ c d => A.Beside c d ∧ True) f (Parser.rounds round s)
      (Parser.rounds round' (g s)) c d :=
    rounds_holds (fun s _ c d hcd => (h s c d hcd).mono fun result _ _ _ hbeside =>
      ⟨hbeside, hholds result⟩) trivial hcd
  exact hrun.mono fun _ _ _ _ hbeside => hbeside.1

/-- The parsers that two nested parsers hand to their bodies are as alike as the bodies make
them. -/
theorem nested {body : Parser α → Parser α} {body' : Parser α' → Parser α'}
    (h : ∀ self self', Alike A f self self' → Alike A f (body self) (body' self')) :
    Alike A f (nested body) (Parser.nested body') := by
  intro c d hcd
  induction hlength : c.remaining using Nat.strongRecOn generalizing c d with
  | ind length ih =>
    subst hlength
    unfold Mirrors
    rw [nested_run, nested_run]
    refine h _ _ (fun c' d' hcd' => ?_) c d hcd
    unfold Mirrors inner
    have hlt := A.beside_remaining hcd hcd'
    by_cases hless : c'.remaining < c.remaining
    · rw [if_pos hless, if_pos (hlt.2 hless)]
      exact ih _ hless c' d' hcd' rfl
    · rw [if_neg hless, if_neg (mt hlt.1 hless)]
      exact stalled c' d' hcd'

end Alike

end Localization.Parser
