import Localization.Format.Resolve
import Localization.Proofs.Number.Denotation

/-!
# Padded numbers

A number that is shown with at least as many fraction digits as its text has is padded with zeros.
The zeros come from the rounded value, not from the text, so they leave a number as it is only if
its digits survive rounding.

## Main definitions

* `Number.KeepsDigits` — the digits of a number survive rounding to a count of fraction digits

## Main statements

* `Number.IsWritten.denotes_fixedText` — the rounded value, shown with enough places
* `Number.format_padded` — padding leaves a number as it is
-/

namespace Localization

open Binary64 (IsExact nearest)

/-- Only the minimum makes the fraction digits more than there are, and it is limited. -/
theorem FractionDigits.clamp_le_limit {bounds : FractionDigits} {count : ℕ}
    (h : count < bounds.clamp count) : bounds.clamp count ≤ limit := by
  unfold clamp at h ⊢
  cases hmaximum : bounds.maximum <;> cases hminimum : bounds.minimum <;>
    simp only [hmaximum, hminimum, Option.map_none, Option.map_some, Option.getD_none,
      Option.getD_some] at h ⊢ <;> omega

namespace Number

variable {n : Number} {count : ℕ}

/-- The digits of a number survive being shown with a count of fraction digits: these are as many
as there are, or the number is a binary number, or it has less than `2 ^ 52` of the last unit. -/
def KeepsDigits (n : Number) (count : ℕ) : Prop :=
  count = n.fractionLength ∨ IsExact n.rational ∨ |n.rational| * 10 ^ count < 2 ^ 52

/-- Integers keep their digits as long as they are binary numbers. -/
theorem keepsDigits_ofInt {i : ℤ} (h : |i| ≤ 2 ^ 53) (count : ℕ) : (ofInt i).KeepsDigits count := by
  refine .inr (.inl ?_)
  rw [rational_ofInt]
  exact Binary64.isExact_intCast h

/-- A number with at most fifteen digits, the added zeros included, keeps its digits. -/
theorem IsWritten.keepsDigits_of_digits (h : n.IsWritten) (hle : n.fractionLength ≤ count)
    (hdigits : n.parts.whole.length + count ≤ 15) : n.KeepsDigits count := by
  rw [fractionLength_eq] at hle
  refine .inr (.inr ?_)
  rw [n.abs_rational, n.parts.magnitude_mul_pow hle]
  exact_mod_cast h.digitsValue_lt_two_pow hle hdigits

/-- Where the digits survive, the value is less than half a unit of the last place off. -/
theorem exists_nearest (n : Number) (hcount : count ≤ 323)
    (hkeeps : IsExact n.rational ∨ |n.rational| * 10 ^ count < 2 ^ 52) :
    ∃ m e, nearest n.parts.negative n.parts.magnitude = .finite n.parts.negative m e ∧
      |(m * 2 ^ e * 10 ^ count : ℚ) - n.parts.magnitude * 10 ^ count| < 1 / 2 := by
  have hnonneg := n.parts.magnitude_nonneg
  rcases hkeeps with hexact | hsmall
  · obtain ⟨m, e, hfinite, hvalue⟩ :=
      Binary64.nearest_of_isExact n.parts.negative hnonneg (n.isExact_magnitude.2 hexact)
    exact ⟨m, e, hfinite, by rw [hvalue, sub_self, abs_zero]; norm_num⟩
  · rw [n.abs_rational] at hsmall
    have hpow : (1 : ℚ) ≤ 10 ^ count := one_le_pow₀ (by norm_num)
    rcases Binary64.nearest_cases n.parts.negative hnonneg with
      ⟨hlarge, -⟩ | ⟨m, e, hfinite, herror⟩
    -- a value this small is in range
    · have hlarge' := Binary64.two_pow_le_range.trans hlarge
      exact absurd hsmall (not_lt.2 (hlarge'.trans (le_mul_of_one_le_right hnonneg hpow)))
    · refine ⟨m, e, hfinite, ?_⟩
      rw [← sub_mul, abs_mul, abs_of_pos (by positivity : (0 : ℚ) < 10 ^ count), mul_comm]
      calc _ ≤ 10 ^ count * Binary64.errorBound n.parts.magnitude := by gcongr
        _ ≤ max (10 ^ count * n.parts.magnitude / 2 ^ 53) (1 / 4) :=
            Binary64.ten_pow_mul_error_le hcount _
        _ < 1 / 2 := by
            rw [mul_comm] at hsmall
            exact max_lt (by linarith) (by norm_num)

/-- The rounded value of a number, shown with enough places, denotes the number. -/
theorem IsWritten.denotes_fixedText (h : n.IsWritten) (hle : n.fractionLength ≤ count)
    (hcount : count ≤ 323)
    (hkeeps : IsExact n.rational ∨ |n.rational| * 10 ^ count < 2 ^ 52) :
    Denotes (n.value.fixedText count).toList n.rational := by
  obtain ⟨m, e, hfinite, hnear⟩ := n.exists_nearest hcount hkeeps
  rw [fractionLength_eq] at hle
  rw [n.parts.magnitude_mul_pow hle] at hnear
  have hround := roundHalfEven_eq (by positivity) hnear
  rw [h.value_eq, hfinite]
  convert Binary64.denotes_fixedText n.parts.negative m e count using 1
  rw [hround, ← n.parts.magnitude_mul_pow hle, mul_div_cancel_right₀ _ (by positivity)]
  rfl

/-- Bounds that ask for no fewer fraction digits than there are leave a number as it is. -/
theorem IsWritten.denotes_format (h : n.IsWritten)
    (hle : n.fractionLength ≤ n.bounds.clamp n.fractionLength)
    (hkeeps : n.KeepsDigits (n.bounds.clamp n.fractionLength)) :
    Denotes n.format.toList n.rational := by
  by_cases hsame : n.bounds.clamp n.fractionLength = n.fractionLength
  · rw [format_eq_raw hsame]
    exact h.denotes
  · have hmore := lt_of_le_of_ne hle (Ne.symm hsame)
    have hlimit := FractionDigits.clamp_le_limit hmore
    rw [format_eq_fixedText hsame]
    exact h.denotes_fixedText hle (hlimit.trans (by decide)) (hkeeps.resolve_left hsame)

end Number

/-! ### Minimum fraction digits -/

namespace Builtin

/-- A number with digits up to the limit is a bound. -/
theorem digitsBound_of_digits {named : Bindings Value} {name : String} {k : Number}
    (hname : named.get? name = some (.number k)) (hdigits : IsDigits k.raw.toList)
    (hlimit : Number.digitsValue k.raw.toList ≤ FractionDigits.limit) :
    digitsBound named name = .ok (some (Number.digitsValue k.raw.toList)) := by
  unfold digitsBound
  rw [hname]
  simp [Number.isDigits_iff.2 hdigits, hlimit]

/-- A minimum and no maximum are the bounds of the number. -/
theorem number_eq_of_minimum {named : Bindings Value} {count : ℕ} (n : Number)
    (hminimum : digitsBound named "minimumFractionDigits" = .ok (some count))
    (hmaximum : named.get? "maximumFractionDigits" = none) :
    number [.number n] named = .ok (.number (n.withBounds ⟨some count, none⟩)) := by
  change bounded n named = _
  unfold bounded
  rw [hminimum, show digitsBound named "maximumFractionDigits" = .ok none by
    rw [digitsBound, hmaximum]]
  rfl

end Builtin

namespace Resolver

variable {env : Environment} {enter : Enter} {site : Site} {n : Number}

/-- A call of `NUMBER` with a minimum sets it as a bound of the number. -/
theorem expression_number {argument : Expression} {digits : String} {scope scope' : Scope}
    (calleeSpan nameSpan literalSpan argumentSpan span : Span)
    (hfunction : env.function? "NUMBER" = some Builtin.number) (hdigits : IsDigits digits.toList)
    (hlimit : Number.digitsValue digits.toList ≤ FractionDigits.limit)
    (hargument : expression env enter argument (site.part 0) scope = (.number n, scope')) :
    expression env enter (.call ⟨"NUMBER", calleeSpan⟩ [.positional argument,
      .named ⟨"minimumFractionDigits", nameSpan⟩ (.numberLiteral digits literalSpan) argumentSpan]
      span) site scope =
    (.number (n.withBounds ⟨some (Number.digitsValue digits.toList), none⟩), scope') := by
  obtain ⟨k, -, hliteral, rfl⟩ := (IsDecimal.whole (.inl rfl) hdigits).exists_number
  let named : Bindings Value := Bindings.empty.set "minimumFractionDigits" (.number k)
  have hminimum : named.get? "minimumFractionDigits" = some (.number k) := by
    rw [Bindings.get?_set, if_pos rfl]
  have hmaximum : named.get? "maximumFractionDigits" = none := by
    rw [Bindings.get?_set, if_neg (by decide), Bindings.get?_empty]
  have hnumber := Builtin.number_eq_of_minimum n
    (Builtin.digitsBound_of_digits hminimum hdigits hlimit) hmaximum
  simp only [expression, hfunction, arguments, argumentValue, bind_assoc, pure_bind, hliteral]
  change (apply "NUMBER" Builtin.number ([] ++
    [(expression env enter argument (site.part 0) scope).1]) named)
    (expression env enter argument (site.part 0) scope).2 = _
  rw [hargument, List.nil_append, apply, hnumber]
  rfl

end Resolver

namespace Number

variable {n : Number}

open Resolver in
/-- A number whose digits survive is left as it is by bounds that ask for no fewer fraction digits
than there are. So a call of `NUMBER` with a minimum shows the number that it is given. -/
theorem format_padded (h : n.IsWritten) :
    (∀ bounds : FractionDigits, n.fractionLength ≤ bounds.clamp n.fractionLength →
      n.KeepsDigits (bounds.clamp n.fractionLength) →
      Denotes (n.withBounds bounds).format.toList n.rational) ∧
    ∀ env enter argument digits calleeSpan nameSpan literalSpan argumentSpan span site scope scope',
      env.function? "NUMBER" = some Builtin.number → IsDigits digits.toList →
      digitsValue digits.toList ≤ FractionDigits.limit →
      n.KeepsDigits (max n.fractionLength (digitsValue digits.toList)) →
      expression env enter argument (site.part 0) scope = (.number n, scope') →
      ∃ shown, expression env enter (.call ⟨"NUMBER", calleeSpan⟩ [.positional argument,
        .named ⟨"minimumFractionDigits", nameSpan⟩ (.numberLiteral digits literalSpan) argumentSpan]
        span) site scope = (shown, scope') ∧ Denotes shown.format.toList n.rational := by
  have hbounds (bounds : FractionDigits) (hle : n.fractionLength ≤ bounds.clamp n.fractionLength)
      (hkeeps : n.KeepsDigits (bounds.clamp n.fractionLength)) :=
    (IsWritten.bounded bounds h).denotes_format hle hkeeps
  refine ⟨hbounds, ?_⟩
  intro env enter argument digits calleeSpan nameSpan literalSpan argumentSpan span site scope
    scope' hfunction hdigits hlimit hkeeps hargument
  have hclamp : (⟨some (digitsValue digits.toList), none⟩ : FractionDigits).clamp n.fractionLength =
      max n.fractionLength (digitsValue digits.toList) := by
    simp [FractionDigits.clamp, min_eq_right hlimit]
  exact ⟨_, expression_number _ _ _ _ _ hfunction hdigits hlimit hargument,
    hbounds _ (hclamp ▸ le_max_left _ _) (hclamp ▸ hkeeps)⟩

open Resolver in
theorem format_padded_tenth :
    parse? "0.1" = some ⟨"0.1", .ofDecimal false 1 1, default⟩ ∧
    Denotes (Number.format ⟨"0.1", .ofDecimal false 1 1, ⟨some 2, none⟩⟩).toList (1 / 10) ∧
    ∀ enter site scope, ∃ shown,
      expression ⟨.empty, none, ⟨["en"], .default⟩, default⟩ enter
        (.call ⟨"NUMBER", default⟩ [.positional (.numberLiteral "0.1" default),
          .named ⟨"minimumFractionDigits", default⟩ (.numberLiteral "2" default) default] default)
        site scope = (shown, scope) ∧ Denotes shown.format.toList (1 / 10) := by
  have hparse : parse? "0.1" = some ⟨"0.1", .ofDecimal false 1 1, default⟩ := by decide +kernel
  have hvalue : rational ⟨"0.1", .ofDecimal false 1 1, default⟩ = 1 / 10 := by decide +kernel
  have hkeeps : KeepsDigits ⟨"0.1", .ofDecimal false 1 1, default⟩ 2 :=
    (IsWritten.parsed hparse).keepsDigits_of_digits (by decide +kernel) (by decide +kernel)
  obtain ⟨hbounds, hcall⟩ := format_padded (.parsed hparse)
  rw [hvalue] at hbounds hcall
  refine ⟨hparse, hbounds ⟨some 2, none⟩ (by decide +kernel) hkeeps, fun enter site scope => ?_⟩
  refine hcall _ enter (.numberLiteral "0.1" default) "2" default default default default default
    site scope scope rfl (isDigits_iff.1 (by decide)) (by decide) hkeeps ?_
  rw [expression, Value.ofNumberText, hparse]
  rfl

/-- The zeros behind a large integer are those of the binary number that it is rounded to. -/
theorem format_padded_rounded :
    (ofInt (2 ^ 53 + 1)).IsWritten ∧
    ((ofInt (2 ^ 53 + 1)).withBounds ⟨some 2, none⟩).format = "9007199254740992.00" ∧
    ¬Denotes ((ofInt (2 ^ 53 + 1)).withBounds ⟨some 2, none⟩).format.toList
      (ofInt (2 ^ 53 + 1)).rational := by
  have hformat : ((ofInt (2 ^ 53 + 1)).withBounds ⟨some 2, none⟩).format =
      "9007199254740992.00" := by decide +kernel
  refine ⟨.integer _, hformat, fun ⟨_, hdenotes⟩ => ?_⟩
  have hshown : (Parts.ofText "9007199254740992.00".toList).rational = 2 ^ 53 := by decide +kernel
  rw [hformat, hshown, rational_ofInt] at hdenotes
  norm_num at hdenotes

end Number

end Localization
