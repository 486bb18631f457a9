import Localization.Proofs.Number.Shortest
import Localization.Value.Basic

/-!
# How values match

Two numbers match if their texts are equal or if their values are. Either of these is an equivalence
for itself, up to a number that is none, but the two together need not be: numbers with one text and
different values would bring numbers together that have nothing in common. There are no such
numbers. However a number has been made, its text determines its value.

## Main definitions

* `Number.IsMade` — numbers that are read, made of an integer or made of a binary number
* `Value.words?` — the text of a string or a symbol

## Main statements

* `Number.IsMade.value_eq_of_raw` — numbers with one text have one value
* `Value.selects_classes` — matching is reflexive and symmetric, and among numbers as among texts it
  is transitive
-/

namespace Localization

/-! ### Values of numbers -/

namespace Binary64

variable {x y z : Binary64}

theorem sameValue_comm (x y : Binary64) : x.sameValue y = y.sameValue x := by
  cases x <;> cases y <;> simp only [sameValue, eq_comm, Bool.and_comm]

theorem sameValue_trans (hxy : x.sameValue y) (hyz : y.sameValue z) : x.sameValue z := by
  cases x <;> cases y <;> cases z <;> simp only [sameValue] at * <;> grind

/-- The texts of numbers that are not finite are no decimal texts. -/
theorem not_isDecimal_text (h : x.rat? = none) : ¬ IsDecimal x.text.toList := by
  intro hdecimal
  cases x with
  | nan => exact absurd (hdecimal.mem 'N' (by decide)) (by decide)
  | infinite negative =>
    refine absurd (hdecimal.mem 'i' ?_) (by decide)
    cases negative <;> decide
  | finite => cases h

/-- Numbers that are not finite have texts of their own. -/
theorem eq_of_text_eq (hx : x.rat? = none) (hy : y.rat? = none) (h : x.text = y.text) :
    x = y := by
  have hnan : ∀ s, text nan ≠ text (.infinite s) := by decide
  have hsign : ∀ s t, text (.infinite s) = text (.infinite t) → s = t := by decide
  cases x with
  | nan =>
    cases y with
    | nan => rfl
    | infinite t => exact absurd h (hnan t)
    | finite => cases hy
  | infinite s =>
    cases y with
    | nan => exact absurd h.symm (hnan s)
    | infinite t => rw [hsign s t h]
    | finite => cases hy
  | finite => cases hx

end Binary64

/-! ### Numbers -/

namespace Number

/-- A number that is read from a text, made of an integer or made of the bits of a binary number,
with any bounds. -/
inductive IsMade : Number → Prop
  | parsed {text n} : parse? text = some n → IsMade n
  | integer (i : ℤ) : IsMade (ofInt i)
  | binary (bits : ℕ) : IsMade (ofBinary64 (.ofBits bits))
  | bounded {n} (bounds : FractionDigits) : IsMade n → IsMade (n.withBounds bounds)

variable {l m n : Number}

/-- A number is written with a decimal text that it is nearest to, unless it is not finite. -/
theorem IsMade.isNearest_or (h : n.IsMade) :
    n.IsNearest ∨ n.value.rat? = none ∧ n.raw = n.value.text := by
  induction h with
  | parsed hparse => exact .inl (IsWritten.parsed hparse).isNearest
  | integer i => exact .inl (IsWritten.integer i).isNearest
  | binary bits =>
    rcases Binary64.ofBits_cases bits with hbits | ⟨negative, hbits⟩ |
      ⟨negative, m, e, hbits, hmantissa⟩ <;> rw [hbits]
    · exact .inr ⟨rfl, rfl⟩
    · exact .inr ⟨rfl, rfl⟩
    · exact .inl (isNearest_ofBinary64 hmantissa negative)
  | bounded bounds _ ih => exact ih.imp_left fun h => ⟨h.isDecimal, h.value_eq⟩

/-- Numbers with one text have one value, however they have been made. -/
theorem IsMade.value_eq_of_raw (hm : m.IsMade) (hn : n.IsMade) (h : m.raw = n.raw) :
    m.value = n.value := by
  rcases hm.isNearest_or with hm | ⟨hm, hmtext⟩ <;> rcases hn.isNearest_or with hn | ⟨hn, hntext⟩
  · rw [hm.value_eq, hn.value_eq, parts, parts, h]
  · exact absurd (hntext ▸ h ▸ hm.isDecimal) (Binary64.not_isDecimal_text hn)
  · exact absurd (hmtext ▸ h.symm ▸ hn.isDecimal) (Binary64.not_isDecimal_text hm)
  · exact Binary64.eq_of_text_eq hm hn (hmtext.symm.trans (h.trans hntext))

theorem sameNumber_iff : m.sameNumber n ↔ m.raw = n.raw ∨ m.value.sameValue n.value := by
  rw [sameNumber, Bool.or_eq_true, beq_iff_eq]

theorem sameNumber_self (n : Number) : n.sameNumber n := sameNumber_iff.2 (.inl rfl)

theorem sameNumber_comm (m n : Number) : m.sameNumber n = n.sameNumber m := by
  rw [sameNumber, sameNumber, Binary64.sameValue_comm, Bool.beq_comm]

theorem IsMade.sameNumber_trans (hl : l.IsMade) (hm : m.IsMade) (hn : n.IsMade)
    (hlm : l.sameNumber m) (hmn : m.sameNumber n) : l.sameNumber n := by
  rw [sameNumber_iff] at *
  rcases hlm with hlm | hlm <;> rcases hmn with hmn | hmn
  · exact .inl (hlm.trans hmn)
  · exact .inr (hl.value_eq_of_raw hm hlm ▸ hmn)
  · exact .inr (hm.value_eq_of_raw hn hmn ▸ hlm)
  · exact .inr (Binary64.sameValue_trans hlm hmn)

/-- Numbers put together from any text and any value do not fall into classes. -/
example : ∃ l m n : Number, l.sameNumber m ∧ m.sameNumber n ∧ ¬ l.sameNumber n :=
  ⟨⟨"1", .nan, default⟩, ⟨"1", .infinite false, default⟩, ⟨"2", .infinite false, default⟩,
    by decide, by decide, by decide⟩

end Number

/-! ### Values -/

namespace Value

variable (locale : Locale)

/-- The text of a string or a symbol. -/
def words? : Value → Option String
  | string text => some text
  | symbol name => some name
  | _ => Option.none

theorem selects_self (v : Value) : v.selects locale v := by
  cases v with
  | number n => exact n.sameNumber_self
  | _ => exact beq_self_eq_true _

theorem selects_comm (a b : Value) : a.selects locale b = b.selects locale a := by
  cases a <;> cases b <;> simp only [selects, Bool.beq_comm, Number.sameNumber_comm]

/-- Strings and symbols match by their texts. -/
theorem selects_iff_words {a b : Value} (ha : a.words?.isSome) (hb : b.words?.isSome) :
    a.selects locale b ↔ a.words? = b.words? := by
  cases a <;> cases b <;> simp_all [selects, words?]

/-- Matching is reflexive and symmetric, whatever the rules for plurals are. Among the numbers that
can be made it is an equivalence, and so it is among strings and symbols. -/
theorem selects_classes :
    (∀ v : Value, v.selects locale v) ∧
      (∀ a b : Value, a.selects locale b = b.selects locale a) ∧
      Equivalence (fun m n : { n : Number // n.IsMade } =>
        (number m).selects locale (number n)) ∧
      Equivalence fun a b : { v : Value // v.words?.isSome } => a.1.selects locale b.1 := by
  refine ⟨selects_self locale, selects_comm locale, ⟨fun n => ?_, fun {m n} h => ?_, ?_⟩,
    ⟨fun a => ?_, fun {a b} h => ?_, ?_⟩⟩
  · exact selects_self locale _
  · exact selects_comm locale _ _ ▸ h
  · rintro ⟨l, hl⟩ ⟨m, hm⟩ ⟨n, hn⟩ hlm hmn
    exact hl.sameNumber_trans hm hn hlm hmn
  · exact selects_self locale _
  · exact selects_comm locale _ _ ▸ h
  · rintro ⟨a, ha⟩ ⟨b, hb⟩ ⟨c, hc⟩ hab hbc
    rw [selects_iff_words locale ha hb] at hab
    rw [selects_iff_words locale hb hc] at hbc
    exact (selects_iff_words locale ha hc).2 (hab.trans hbc)

/-- One integer joins a number with its value to a number with its text. -/
theorem selects_classes_one :
    let locale : Locale := ⟨["en"], .default⟩
    let parsed : Number := ⟨"1.0", .finite false Binary64.leastFull (-52), default⟩
    let binary : Number := .ofBinary64 (.ofBits 0x3FF0000000000000)
    Number.parse? "1.0" = some parsed ∧ parsed.value.sameValue (Number.ofInt 1).value ∧
      (Number.ofInt 1).raw = binary.raw ∧ (number parsed).selects locale (number binary) := by
  intro locale parsed binary
  have hparsed : Number.parse? "1.0" = some parsed := by decide +kernel
  have hvalue : parsed.value.sameValue (Number.ofInt 1).value := by decide +kernel
  have hraw : (Number.ofInt 1).raw = binary.raw := by decide +kernel
  obtain ⟨-, -, hnumbers, -⟩ := selects_classes locale
  exact ⟨hparsed, hvalue, hraw, hnumbers.trans (x := ⟨parsed, .parsed hparsed⟩)
    (y := ⟨.ofInt 1, .integer 1⟩) (z := ⟨binary, .binary _⟩)
    (Number.sameNumber_iff.2 (.inr hvalue)) (Number.sameNumber_iff.2 (.inl hraw))⟩

end Value

end Localization
