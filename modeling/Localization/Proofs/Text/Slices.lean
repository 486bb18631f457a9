import Localization.Proofs.Text.Gaps
import Mathlib.Data.List.Infix

/-!
# Cuts

A text made of pieces is cut at the byte lengths of the pieces.

## Main definitions

* `Text.Ahead` — the text of a source from an offset on
* `Text.IsCut` — an offset inside no character and no line break

## Main statements

* `Text.slice?_append` — the middle of three pieces
* `Text.prefix_takeWithin_iff` — the longest start within a number of bytes
* `Text.EndsLine.exists_ending` — a text that ends with a line break, cut in front of it
-/

namespace Localization

namespace Text

theorem dropBytes?_append (before rest : List Char) :
    dropBytes? (byteLength before) (before ++ rest) = some rest := by
  induction before with
  | nil => cases rest <;> rfl
  | cons ch before ih =>
    have hpos := ch.utf8Size_pos
    obtain ⟨n, hn⟩ : ∃ n, ch.utf8Size + byteLength before = n + 1 :=
      ⟨ch.utf8Size + byteLength before - 1, by omega⟩
    rw [byteLength_cons, hn, List.cons_append, dropBytes?, if_pos (by omega), ← hn,
      Nat.add_sub_cancel_left, ih]

theorem takeBytes?_append (text rest : List Char) :
    takeBytes? (byteLength text) (text ++ rest) = some text := by
  induction text with
  | nil => cases rest <;> rfl
  | cons ch text ih =>
    have hpos := ch.utf8Size_pos
    obtain ⟨n, hn⟩ : ∃ n, ch.utf8Size + byteLength text = n + 1 :=
      ⟨ch.utf8Size + byteLength text - 1, by omega⟩
    rw [byteLength_cons, hn, List.cons_append, takeBytes?, if_pos (by omega), ← hn,
      Nat.add_sub_cancel_left, ih]
    rfl

/-- The middle of three pieces is cut at the byte lengths of the pieces. -/
theorem slice?_append (before text rest : List Char) :
    slice? (before ++ (text ++ rest)) (byteLength before) (byteLength before + byteLength text) =
      some text := by
  unfold slice?
  rw [if_pos (Nat.le_add_right _ _), dropBytes?_append, Option.bind_some, Nat.add_sub_cancel_left,
    takeBytes?_append]

variable {source text rest : List Char} {start : Nat}

/-! ### Starts within a number of bytes -/

section Within

variable {n : Nat} {front first second : List Char}

theorem takeWithin_zero (text : List Char) : takeWithin 0 text = [] := by
  cases text with
  | nil => rfl
  | cons ch text => exact if_neg (Nat.not_le.2 ch.utf8Size_pos)

/-- The start within a number of bytes is a start of the text. -/
theorem takeWithin_isPrefix (n : Nat) (text : List Char) : takeWithin n text <+: text := by
  induction text generalizing n with
  | nil => exact List.prefix_rfl
  | cons ch text ih =>
    rw [takeWithin]
    split
    · exact List.cons_prefix_cons.2 ⟨rfl, ih _⟩
    · exact List.nil_prefix

/-- The start within a number of bytes has at most that many. -/
theorem byteLength_takeWithin_le (n : Nat) (text : List Char) :
    byteLength (takeWithin n text) ≤ n := by
  induction text generalizing n with
  | nil => exact Nat.zero_le _
  | cons ch text ih =>
    rw [takeWithin]
    split
    · next hle =>
      have := ih (n - ch.utf8Size)
      rw [byteLength_cons]
      omega
    · exact Nat.zero_le _

/-- A text that fits is kept whole, and the rest of the bytes goes to what follows. -/
theorem takeWithin_append (h : byteLength first ≤ n) :
    takeWithin n (first ++ second) = first ++ takeWithin (n - byteLength first) second := by
  induction first generalizing n with
  | nil => rfl
  | cons ch first ih =>
    rw [byteLength_cons] at h
    rw [List.cons_append, takeWithin, if_pos (by omega), ih (by omega), Nat.sub_sub,
      byteLength_cons, List.cons_append]

/-- A text that fits is kept whole. -/
theorem takeWithin_of_le (h : byteLength text ≤ n) : takeWithin n text = text := by
  have happend : takeWithin n (text ++ []) = text ++ [] := takeWithin_append h
  rwa [List.append_nil] at happend

/-- A text is taken out of itself and what follows it. -/
theorem takeWithin_append_byteLength (text rest : List Char) :
    takeWithin (byteLength text) (text ++ rest) = text := by
  rw [takeWithin_append (Nat.le_refl _), Nat.sub_self, takeWithin_zero, List.append_nil]

theorem byteLength_le_of_isInfix (h : front <:+: text) : byteLength front ≤ byteLength text := by
  obtain ⟨before, after, rfl⟩ := h
  rw [byteLength_append, byteLength_append]
  omega

/-- Of the starts of a text within a number of bytes the longest is taken. -/
theorem prefix_takeWithin_iff :
    front <+: takeWithin n text ↔ front <+: text ∧ byteLength front ≤ n := by
  constructor
  · intro h
    exact ⟨h.trans (takeWithin_isPrefix n text),
      (byteLength_le_of_isInfix h.isInfix).trans (byteLength_takeWithin_le n text)⟩
  · rintro ⟨⟨rest, rfl⟩, hle⟩
    rw [takeWithin_append hle]
    exact List.prefix_append _ _

theorem takeWithin_isPrefix_of_le {m : Nat} (text : List Char) (h : m ≤ n) :
    takeWithin m text <+: takeWithin n text :=
  prefix_takeWithin_iff.2
    ⟨takeWithin_isPrefix m text, (byteLength_takeWithin_le m text).trans h⟩

end Within

/-! ### What lies ahead of an offset -/

/-- The text is what a source has from an offset on. -/
def Ahead (source : List Char) (start : Nat) (text : List Char) : Prop :=
  ∃ before, source = before ++ text ∧ byteLength before = start

theorem Ahead.behind (h : Ahead source start (text ++ rest)) :
    Ahead source (start + byteLength text) rest := by
  obtain ⟨before, rfl, rfl⟩ := h
  exact ⟨before ++ text, (List.append_assoc ..).symm, byteLength_append ..⟩

/-- A text that lies ahead of an offset is the slice there. -/
theorem Ahead.slice? (h : Ahead source start (text ++ rest)) :
    Text.slice? source start (start + byteLength text) = some text := by
  obtain ⟨before, rfl, rfl⟩ := h
  exact slice?_append before text rest

/-! ### Cuts that tear no line break apart -/

/-- A carriage return and the line feed behind it, which make up one line break. -/
def Joins (text rest : List Char) : Prop :=
  text.getLast? = some '\r' ∧ rest.head? = some '\n'

/-- An offset of a source that lies inside no character and not between the two characters of a
line break. -/
def IsCut (source : List Char) (offset : Nat) : Prop :=
  ∃ before after, source = before ++ after ∧ byteLength before = offset ∧ ¬Joins before after

theorem IsCut.le {offset : Nat} (h : IsCut source offset) : offset ≤ byteLength source := by
  obtain ⟨before, after, rfl, rfl, -⟩ := h
  rw [byteLength_append]
  exact Nat.le_add_right _ _

theorem not_joins_nil : ¬Joins [] rest := fun hjoins => by cases hjoins.1

theorem not_joins_of_not_endsLine (h : ¬EndsLine text) : ¬Joins text rest :=
  fun hjoins => h ⟨'\r', hjoins.1, rfl⟩

theorem not_joins_of_head? (h : rest.head? ≠ some '\n') : ¬Joins text rest :=
  fun hjoins => h hjoins.2

theorem not_joins_of_left (h : ∀ ch ∈ text, isLineBreak ch = false) : ¬Joins text rest :=
  fun hjoins => by cases h '\r' (List.mem_of_getLast? hjoins.1)

theorem not_joins_of_right (h : ∀ ch ∈ rest, isLineBreak ch = false) : ¬Joins text rest :=
  fun hjoins => by cases h '\n' (List.mem_of_mem_head? hjoins.2)

theorem not_joins_cons {ch : Char} (h : isLineBreak ch = false) : ¬Joins text (ch :: rest) :=
  not_joins_of_head? fun hhead => by
    obtain rfl : ch = '\n' := by simpa using hhead
    cases h

theorem IsEnding.endsLine {ending : List Char} (h : IsEnding ending) (text : List Char) :
    EndsLine (text ++ ending) := by
  rcases h with rfl | rfl | rfl
  · exact ⟨'\n', by simp, rfl⟩
  · exact ⟨'\r', by simp, rfl⟩
  · exact ⟨'\n', by simp, rfl⟩

/-- Of the three line breaks only a carriage return could join a line feed behind it. -/
theorem IsEnding.not_joins (h : IsEnding text) (hfeed : text = ['\r'] → rest.head? ≠ some '\n') :
    ¬Joins text rest := by
  rcases h with rfl | rfl | rfl
  · exact fun hjoins => by cases hjoins.1
  · exact not_joins_of_head? (hfeed rfl)
  · exact fun hjoins => by cases hjoins.1

theorem not_joins_of_cons {ch : Char} (h : ¬Joins (ch :: text) rest) : ¬Joins text rest := by
  cases text with
  | nil => exact not_joins_nil
  | cons second text => rwa [Joins, List.getLast?_cons_cons] at h

/-- What is read behind a text joins with nothing if neither it nor the text does. -/
theorem not_joins_append {before : List Char} (h : ¬Joins before (text ++ rest))
    (h' : ¬Joins text rest) : ¬Joins (before ++ text) rest := by
  by_cases hnil : text = []
  · subst hnil
    rwa [List.append_nil]
  · exact fun hjoins => h' ⟨by rw [← hjoins.1, List.getLast?_append_of_ne_nil _ hnil], hjoins.2⟩

/-- A text that ends with a line break, cut in front of the whole of it. -/
theorem EndsLine.exists_ending (h : EndsLine text) :
    ∃ before ending, IsEnding ending ∧ ¬Joins before ending ∧ text = before ++ ending := by
  obtain ⟨last, hlast, hbreak⟩ := h
  obtain ⟨before, rfl⟩ := List.getLast?_eq_some_iff.1 hlast
  rcases isLineBreak_iff.1 hbreak with rfl | rfl
  · by_cases hreturn : before.getLast? = some '\r'
    · -- the line feed belongs to the carriage return in front of it
      obtain ⟨before, rfl⟩ := List.getLast?_eq_some_iff.1 hreturn
      exact ⟨before, ['\r', '\n'], .inr (.inr rfl), not_joins_of_head? (by simp), by simp⟩
    · exact ⟨before, ['\n'], .inl rfl, fun hjoins => hreturn hjoins.1, rfl⟩
  · exact ⟨before, ['\r'], .inr (.inl rfl), not_joins_of_head? (by simp), rfl⟩

end Text

end Localization
