import Localization.Proofs.Number.Denotation
import Mathlib.Data.List.Find

/-!
# Number keys

A number key selects the numbers that are equal to it, however the two are written. Since numbers
are compared by rounded values, keys and numbers that rounding does not keep apart are mixed up;
rounding keeps apart whatever is a binary number, and decimals with up to fifteen digits.

## Main definitions

* `Resolved` — two rationals that rounding keeps apart
* `VariantKey.rational?` — the rational that a number key denotes
* `VariantKey.IsResolved` — a key that rounding keeps apart from a rational
* `firstEqual?` — the first variant whose key denotes a rational

## Main statements

* `Resolved.of_grid` — numbers with few digits are kept apart
* `Number.IsWritten.sameNumber_of_eq` — equal numbers are the same number
* `Number.IsWritten.eq_of_sameNumber` — numbers that are kept apart are the same only if equal
* `Number.keys_select_equal` — what is selected by number keys
-/

namespace Localization

open Binary64 (IsExact errorBound nearest withSign)

/-! ### Numbers that are kept apart -/

/-- Two rationals that rounding keeps apart if they differ: both are binary numbers, or they differ
by more than both are rounded by and are not both out of range. -/
def Resolved (p q : ℚ) : Prop :=
  p = q ∨ (IsExact p ∧ IsExact q) ∨
    (|p| < 2 ^ (1023 : ℤ) ∨ |q| < 2 ^ (1023 : ℤ)) ∧ errorBound |p| + errorBound |q| < |p - q|

/-- Two integers that are closer than their roundings allow are equal. -/
theorem eq_of_abs_sub_le {a b : ℤ} (hsmall : |a| < 2 ^ 52)
    (h : |(a - b : ℚ)| ≤ max (|(a : ℚ)| / 2 ^ 53) (1 / 4) + max (|(b : ℚ)| / 2 ^ 53) (1 / 4)) :
    a = b := by
  by_contra hne
  have hstep : (1 : ℚ) ≤ |(a - b : ℚ)| := by
    exact_mod_cast Int.one_le_abs (sub_ne_zero.2 hne)
  have ha : |(a : ℚ)| ≤ 2 ^ 52 - 1 := by
    have : |a| ≤ 2 ^ 52 - 1 := by omega
    exact_mod_cast this
  have hb : |(b : ℚ)| ≤ |(a : ℚ)| + |(a - b : ℚ)| := by
    have := abs_sub_abs_le_abs_sub (b : ℚ) a
    rw [abs_sub_comm (b : ℚ)] at this
    linarith
  rcases max_cases (|(a : ℚ)| / 2 ^ 53) (1 / 4) with ⟨hmax, -⟩ | ⟨hmax, -⟩ <;>
    rcases max_cases (|(b : ℚ)| / 2 ^ 53) (1 / 4) with ⟨hmax', -⟩ | ⟨hmax', -⟩ <;>
    rw [hmax, hmax'] at h <;> linarith

/-- On a decimal grid a number is as many steps from zero as its integer says. -/
theorem ten_pow_mul_abs {q : ℚ} {places : ℕ} {a : ℤ} (h : q * 10 ^ places = a) :
    10 ^ places * |q| = |(a : ℚ)| := by
  rw [← h, abs_mul, abs_of_pos (by positivity : (0 : ℚ) < 10 ^ places), mul_comm]

/-- Less than `2 ^ 52` steps from zero no number is out of range. -/
theorem abs_lt_range {q : ℚ} {places : ℕ} {a : ℤ} (h : q * 10 ^ places = a)
    (hsmall : |a| < 2 ^ 52) : |q| < 2 ^ (1023 : ℤ) := by
  have hstep : |q| ≤ |(a : ℚ)| := by
    rw [← ten_pow_mul_abs h]
    exact le_mul_of_one_le_left (abs_nonneg q) (one_le_pow₀ (by norm_num))
  have ha : |(a : ℚ)| < 2 ^ 52 := by exact_mod_cast hsmall
  exact (hstep.trans_lt ha).trans_le Binary64.two_pow_le_range

namespace Resolved

variable {p q : ℚ}

theorem symm (h : Resolved p q) : Resolved q p := by
  rcases h with h | ⟨hp, hq⟩ | ⟨hrange, hlt⟩
  · exact .inl h.symm
  · exact .inr (.inl ⟨hq, hp⟩)
  · rw [add_comm, abs_sub_comm] at hlt
    exact .inr (.inr ⟨hrange.symm, hlt⟩)

/-- Numbers on a decimal grid are kept apart if one of them is less than `2 ^ 52` steps from
zero. -/
theorem of_grid {places : ℕ} {a b : ℤ} (hplaces : places ≤ 323) (ha : p * 10 ^ places = a)
    (hb : q * 10 ^ places = b) (hsmall : |a| < 2 ^ 52) : Resolved p q := by
  by_cases heq : a = b
  · subst heq
    exact .inl (mul_right_cancel₀ (by positivity : (10 : ℚ) ^ places ≠ 0) (ha.trans hb.symm))
  refine .inr (.inr ⟨.inl (abs_lt_range ha hsmall), not_le.1 fun hle => heq ?_⟩)
  refine eq_of_abs_sub_le hsmall ?_
  calc |(a - b : ℚ)| = 10 ^ places * |p - q| := by
        rw [← ha, ← hb, ← sub_mul, abs_mul, abs_of_pos (by positivity : (0 : ℚ) < 10 ^ places),
          mul_comm]
    _ ≤ 10 ^ places * (errorBound |p| + errorBound |q|) := by gcongr
    _ ≤ _ := by
        rw [mul_add, ← ten_pow_mul_abs ha, ← ten_pow_mul_abs hb]
        exact add_le_add (Binary64.ten_pow_mul_error_le hplaces _)
          (Binary64.ten_pow_mul_error_le hplaces _)

end Resolved

namespace Number

variable {m n : Number}

/-- On a decimal grid that is fine enough a number is an integer. -/
theorem exists_steps (n : Number) {places : ℕ} (h : n.parts.places.length ≤ places) :
    ∃ a : ℤ, n.rational * 10 ^ places = a ∧
      |a| = (digitsValue (n.parts.whole ++ n.parts.places) *
        10 ^ (places - n.parts.places.length) : ℕ) := by
  have hsteps := n.parts.magnitude_mul_pow h
  unfold rational Parts.rational withSign
  split_ifs
  · exact ⟨-_, by rw [neg_mul, hsteps, Int.cast_neg, Int.cast_natCast],
      by rw [abs_neg, Nat.abs_cast]⟩
  · exact ⟨_, by rw [hsteps, Int.cast_natCast], Nat.abs_cast _⟩

/-- Numbers with texts of at most fifteen digits are kept apart. -/
theorem IsWritten.resolved_of_digits (hm : m.IsWritten) (hn : n.IsWritten)
    (hmdigits : (m.parts.whole ++ m.parts.places).length ≤ 15)
    (hndigits : (n.parts.whole ++ n.parts.places).length ≤ 15) :
    Resolved m.rational n.rational := by
  -- the grid is that of the number with more places
  wlog hle : n.parts.places.length ≤ m.parts.places.length generalizing m n
  · exact (this hn hm hndigits hmdigits (not_le.1 hle).le).symm
  obtain ⟨a, ha, hsize⟩ := m.exists_steps le_rfl
  obtain ⟨b, hb, -⟩ := n.exists_steps hle
  rw [List.length_append] at hmdigits
  refine .of_grid (by omega) ha hb ?_
  rw [hsize]
  exact_mod_cast hm.digitsValue_lt_two_pow le_rfl hmdigits

/-- Equal numbers are the same number, whatever their texts. -/
theorem IsWritten.sameNumber_of_eq (hm : m.IsWritten) (hn : n.IsWritten)
    (h : m.rational = n.rational) : m.sameNumber n := by
  refine Bool.or_eq_true_iff.2 (.inr ?_)
  have hmagnitude : m.parts.magnitude = n.parts.magnitude := by
    rw [← m.abs_rational, ← n.abs_rational, h]
  rw [hm.value_eq, hn.value_eq, hmagnitude]
  by_cases hzero : n.parts.magnitude = 0
  · -- zero has two signs, and both are the same value
    simp [nearest, hzero, Binary64.sameValue]
  · have hsign : m.parts.negative = n.parts.negative := by
      unfold rational Parts.rational at h
      rw [hmagnitude] at h
      exact Binary64.withSign_inj hzero h
    rw [hsign]
    exact Binary64.sameValue_self (Binary64.nearest_ne_nan _ _)

/-- Numbers that are kept apart are the same number only if they are equal. -/
theorem IsWritten.eq_of_sameNumber (hm : m.IsWritten) (hn : n.IsWritten)
    (hresolved : Resolved m.rational n.rational) (h : m.sameNumber n) :
    m.rational = n.rational := by
  rcases Bool.or_eq_true_iff.1 h with hraw | hvalue
  · unfold rational parts
    rw [eq_of_beq hraw]
  have hrat := Binary64.rat?_eq_of_sameValue hvalue
  rcases hresolved with heq | ⟨hp, hq⟩ | ⟨hrange, hlt⟩
  · exact heq
  · rw [hm.rat?_of_isExact hp, hn.rat?_of_isExact hq] at hrat
    exact Option.some.inj hrat
  -- the same value is near to both, so they do not differ by more than that
  rcases hm.rat?_cases with ⟨hplarge, hpnone⟩ | ⟨v, hv, hperror⟩ <;>
    rcases hn.rat?_cases with ⟨hqlarge, hqnone⟩ | ⟨w, hw, hqerror⟩
  · exact absurd hrange (not_or.2 ⟨not_lt.2 hplarge, not_lt.2 hqlarge⟩)
  · rw [hpnone, hw] at hrat
    cases hrat
  · rw [hv, hqnone] at hrat
    cases hrat
  · obtain rfl : v = w := Option.some.inj (by rw [← hv, hrat, hw])
    rw [abs_sub_comm] at hperror
    exact absurd (abs_sub_le _ v _) (not_le.2 ((add_le_add hperror hqerror).trans_lt hlt))

end Number

/-! ### Keys -/

/-- The rational that a number key denotes. -/
def VariantKey.rational? : VariantKey → Option ℚ
  | .name _ _ => none
  | .number digits _ => (Number.parse? digits).map Number.rational

/-- A number key that rounding keeps apart from a rational. -/
def VariantKey.IsResolved (key : VariantKey) (q : ℚ) : Prop :=
  ∃ p, key.rational? = some p ∧ Resolved p q

/-- The first variant whose key denotes a rational, with its index. -/
def firstEqual? (variants : List Variant) (q : ℚ) : Option (Variant × ℕ) :=
  variants.zipIdx.find? fun (variant, _) => variant.key.rational? = some q

namespace Resolver

variable {env : Environment} {enter : Enter} {site : Site}

/-- A choice is made by the value of its selector. -/
theorem expression_select {selector : Expression} {value : Value} {variants : List Variant}
    {defaultIndex : ℕ} {span : Span} {scope scope' : Scope}
    (h : expression env enter selector site.selector scope = (value, scope')) :
    expression env enter (.select (some selector) variants defaultIndex span) site scope =
      choose env enter (some value) variants defaultIndex site scope' := by
  simp only [expression, selectorValue, bind_assoc, pure_bind]
  change choose env enter (some (expression env enter selector site.selector scope).1) _ _ _
    (expression env enter selector site.selector scope).2 = _
  rw [h]

theorem choose_number (n : Number) (variants : List Variant) (defaultIndex : ℕ) :
    choose env enter (some (.number n)) variants defaultIndex site =
      match selectVariant? env variants (.number n) with
      | some (variant, index) => enter variant.value (site.variant index)
      | none => defaultVariant enter variants defaultIndex site :=
  rfl

/-- The default variant at the end of the variants. -/
theorem defaultVariant_concat (init : List Variant) (last : Variant) :
    defaultVariant enter (init ++ [last]) init.length site =
      enter last.value (site.variant init.length) := by
  unfold defaultVariant
  rw [List.getElem?_concat_length]

end Resolver

namespace Number

variable {m n : Number}

/-- Numbers that are kept apart select one another exactly if they are equal. -/
theorem IsWritten.selects_iff (hm : m.IsWritten) (hn : n.IsWritten)
    (hresolved : Resolved m.rational n.rational) (locale : Locale) :
    (Value.number m).selects locale (.number n) ↔ m.rational = n.rational :=
  ⟨hm.eq_of_sameNumber hn hresolved, hm.sameNumber_of_eq hn⟩

theorem IsWritten.key_selects (hn : n.IsWritten) {key : VariantKey} {q : ℚ}
    (hkey : key.rational? = some q) (hresolved : Resolved q n.rational) (locale : Locale) :
    (Resolver.keyValue key).selects locale (.number n) =
      decide (key.rational? = some n.rational) := by
  cases key with
  | name => cases hkey
  | number digits span =>
    obtain ⟨m, hparse, rfl⟩ := Option.map_eq_some_iff.1 hkey
    rw [Bool.eq_iff_iff, decide_eq_true_iff, hkey, Option.some.injEq, Resolver.keyValue,
      Value.ofNumberText, hparse]
    exact (IsWritten.parsed hparse).selects_iff hn hresolved locale

/-- Keys with at most fifteen digits are kept apart from numbers with at most fifteen digits. -/
theorem IsWritten.key_isResolved (hn : n.IsWritten) {digits : String} (span : Span)
    (hparse : parse? digits = some m) (hmdigits : (m.parts.whole ++ m.parts.places).length ≤ 15)
    (hndigits : (n.parts.whole ++ n.parts.places).length ≤ 15) :
    (VariantKey.number digits span).IsResolved n.rational :=
  ⟨_, congrArg (Option.map rational) hparse,
    IsWritten.resolved_of_digits (.parsed hparse) hn hmdigits hndigits⟩

/-- A choice among number keys that are kept apart from a number, where only a default variant at
the end may have another key, enters the first variant whose key is equal to the number. -/
theorem IsWritten.choose_eq (hn : n.IsWritten) (env : Environment) (enter : Resolver.Enter)
    {variants : List Variant} {defaultIndex : ℕ} (site : Site)
    (hkeys : ∀ entry ∈ variants.zipIdx, entry.1.key.IsResolved n.rational ∨
      entry.2 = defaultIndex ∧ entry.2 + 1 = variants.length) :
    Resolver.choose env enter (some (.number n)) variants defaultIndex site =
      match firstEqual? variants n.rational with
      | some (variant, index) => enter variant.value (site.variant index)
      | none => Resolver.defaultVariant enter variants defaultIndex site := by
  rw [Resolver.choose_number]
  unfold Resolver.selectVariant? firstEqual?
  rcases List.eq_nil_or_concat variants with rfl | ⟨init, last, rfl⟩
  · rfl
  rw [List.concat_eq_append] at hkeys ⊢
  rw [List.zipIdx_append, List.forall_mem_append] at hkeys
  -- all keys in front of the last one are number keys
  have hinit : ∀ entry ∈ init.zipIdx, (Resolver.keyValue entry.1.key).selects env.locale
      (.number n) = decide (entry.1.key.rational? = some n.rational) := by
    intro entry hmem
    rcases hkeys.1 entry hmem with ⟨q, hkey, hresolved⟩ | ⟨-, hlast⟩
    · exact hn.key_selects hkey hresolved env.locale
    · have hlt := List.snd_lt_of_mem_zipIdx hmem
      rw [List.length_append, List.length_singleton] at hlast
      omega
  rw [List.zipIdx_append, List.find?_append, List.find?_append, List.find?_congr hinit]
  cases init.zipIdx.find? fun entry => decide (entry.1.key.rational? = some n.rational) with
  | some => rfl
  | none =>
    rcases hkeys.2 _ (List.mem_singleton_self _) with ⟨q, hkey, hresolved⟩ | ⟨hindex, -⟩
    · simp [hn.key_selects hkey hresolved env.locale]
    · -- selecting the default variant and not selecting any is the same
      subst hindex
      simp only [Nat.zero_add, List.zipIdx_singleton, List.find?_singleton, Option.none_or]
      split_ifs <;> simp [Resolver.defaultVariant_concat]

open Resolver in
/-- Equal numbers select one another in every locale, and numbers that are kept apart do so only if
they are equal. So a choice by number keys enters the first variant whose key is equal to the
selector, and the default one if there is none. -/
theorem keys_select_equal (hm : m.IsWritten) (hn : n.IsWritten) :
    (∀ locale, m.rational = n.rational → (Value.number m).selects locale (.number n)) ∧
    (Resolved m.rational n.rational → ∀ locale,
      ((Value.number m).selects locale (.number n) ↔ m.rational = n.rational)) ∧
    ∀ env enter selector variants defaultIndex span site scope scope',
      expression env enter selector (site.selector) scope = (.number n, scope') →
      (∀ entry ∈ variants.zipIdx, entry.1.key.IsResolved n.rational ∨
        entry.2 = defaultIndex ∧ entry.2 + 1 = variants.length) →
      expression env enter (.select (some selector) variants defaultIndex span) site scope =
        match firstEqual? variants n.rational with
        | some (variant, index) => enter variant.value (site.variant index) scope'
        | none => defaultVariant enter variants defaultIndex site scope' := by
  refine ⟨fun _ => hm.sameNumber_of_eq hn, hm.selects_iff hn, ?_⟩
  intro env enter selector variants defaultIndex span site scope scope' hselector hkeys
  rw [expression_select hselector, hn.choose_eq env enter site hkeys]
  cases firstEqual? variants n.rational <;> rfl

open Resolver in
theorem keys_select_equal_tenth :
    parse? "0.1" = some ⟨"0.1", .ofDecimal false 1 1, default⟩ ∧
    parse? "0.10" = some ⟨"0.10", .ofDecimal false 10 2, default⟩ ∧
    (∀ locale, (Value.number ⟨"0.1", .ofDecimal false 1 1, default⟩).selects locale
      (.number ⟨"0.10", .ofDecimal false 10 2, default⟩)) ∧
    ∀ env enter site scope,
      expression env enter (.select (some (.numberLiteral "0.10" default))
        [⟨.number "0.5" default, ⟨[.text "half" default], default⟩, false, default⟩,
          ⟨.number "0.1" default, ⟨[.text "tenth" default], default⟩, false, default⟩,
          ⟨.name "other" default, ⟨[], default⟩, true, default⟩] 2 default) site scope =
        enter ⟨[.text "tenth" default], default⟩ (site.variant 1) scope := by
  have hhalf : parse? "0.5" = some ⟨"0.5", .ofDecimal false 5 1, default⟩ := by decide +kernel
  have htenth : parse? "0.1" = some ⟨"0.1", .ofDecimal false 1 1, default⟩ := by decide +kernel
  have hpadded : parse? "0.10" = some ⟨"0.10", .ofDecimal false 10 2, default⟩ := by decide +kernel
  have hhalfKey : (VariantKey.number "0.5" default).rational? = some (1 / 2) := by decide +kernel
  have htenthKey : (VariantKey.number "0.1" default).rational? = some (1 / 10) := by decide +kernel
  have hvalue : rational ⟨"0.10", .ofDecimal false 10 2, default⟩ = 1 / 10 := by decide +kernel
  obtain ⟨hequal, -, hselect⟩ := keys_select_equal (.parsed htenth) (.parsed hpadded)
  refine ⟨htenth, hpadded, fun locale => hequal locale (by decide +kernel), ?_⟩
  intro env enter site scope
  rw [hselect env enter (.numberLiteral "0.10" default) _ 2 default site scope scope]
  · rw [hvalue]
    simp [firstEqual?, hhalfKey, htenthKey]
  · rw [expression, Value.ofNumberText, hpadded]
    rfl
  · have hresolved {text m} (hparse : parse? text = some m)
        (hdigits : (m.parts.whole ++ m.parts.places).length ≤ 15) :=
      (IsWritten.parsed hpadded).key_isResolved default hparse hdigits (by decide +kernel)
    simp only [List.zipIdx_cons, List.zipIdx_nil, List.forall_mem_cons]
    exact ⟨.inl (hresolved hhalf (by decide +kernel)), .inl (hresolved htenth (by decide +kernel)),
      .inr (by decide), List.forall_mem_nil _⟩

/-- Rounding mixes up large integers: each selects the other, though they differ. -/
theorem keys_select_rounded :
    (ofInt (2 ^ 53 + 1)).IsWritten ∧ (ofInt (2 ^ 53)).IsWritten ∧
    (ofInt (2 ^ 53 + 1)).rational ≠ (ofInt (2 ^ 53)).rational ∧
    ∀ locale, (Value.number (ofInt (2 ^ 53 + 1))).selects locale (.number (ofInt (2 ^ 53))) := by
  refine ⟨.integer _, .integer _, ?_, fun locale => ?_⟩
  · rw [rational_ofInt, rational_ofInt]
    norm_num
  · exact (by decide +kernel : (ofInt (2 ^ 53 + 1)).sameNumber (ofInt (2 ^ 53)))

end Number

end Localization
