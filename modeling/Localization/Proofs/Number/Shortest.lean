import Localization.Proofs.Number.Denotation

/-!
# The shortest text of a number

A binary number is written with the fewest digits that read back. Which grid these digits are on is
a matter of search; that they read back is not: a neighbour on a grid is only taken if it does, and
the finest grid has the number itself. So the number nearest to what its text denotes is the number
again, with its sign, and zero is no exception.

## Main definitions

* `Binary64.IsMantissa` — the mantissas that finite numbers have
* `Number.IsNearest` — numbers whose value is the one nearest to their text

## Main statements

* `Binary64.ofBits_cases` — the numbers of the interchange format
* `Binary64.IsMantissa.nearest_self` — a finite number is nearest to itself
* `Binary64.readsBack_shortest` — the decimal that is searched for reads back
* `Number.isNearest_ofBinary64` — a finite number is the one nearest to its text
-/

namespace Localization

open Binary64 (nearest)

/-! ### Positional texts -/

namespace Decimal

theorem ratio_eq (d : Decimal) : (d.ratio.1 : ℚ) / d.ratio.2 = d.digits * 10 ^ d.exponent := by
  exact_mod_cast scaled_eq d.digits 10 d.exponent

theorem ratio_snd_pos (d : Decimal) : 0 < d.ratio.2 := scaled_snd_pos (by decide) _ _

/-- A decimal is written as a text that denotes it. -/
theorem parts_text (negative : Bool) (d : Decimal) :
    let text := signOf negative ++ d.text.toList
    IsDecimal text ∧ (Number.Parts.ofText text).negative = negative ∧
      (Number.Parts.ofText text).magnitude = d.digits * 10 ^ d.exponent := by
  have hpower : ((10 : ℚ) ^ (-d.exponent).toNat) = d.ratio.2 := by
    simp [ratio, scaled]
  rw [← ratio_eq, ← hpower]
  exact parts_positional negative d.ratio.1 _

end Decimal

namespace Binary64

variable {m : ℕ} {e : ℤ} {d : Decimal}

/-! ### Canonical numbers -/

/-- The mantissas that finite numbers have at an exponent: they have 53 bits, fewer only at the
least exponent. -/
structure IsMantissa (mantissa : ℕ) (exponent : ℤ) : Prop where
  lt : mantissa < 2 ^ 53
  min_le : minExponent ≤ exponent
  le_max : exponent ≤ maxExponent
  full : exponent = minExponent ∨ 2 ^ 52 ≤ mantissa

/-- All bits are those of a number in canonical form. -/
theorem ofBits_cases (bits : ℕ) :
    ofBits bits = .nan ∨ (∃ negative, ofBits bits = .infinite negative) ∨
      ∃ negative m e, ofBits bits = .finite negative m e ∧ IsMantissa m e := by
  have hfraction : bits % leastFull < 2 ^ 52 := Nat.mod_lt _ (by decide)
  have hexponent : bits / leastFull % 2048 < 2048 := Nat.mod_lt _ (by decide)
  unfold ofBits
  dsimp only
  split_ifs with hlast hzero hfirst
  · exact .inr (.inl ⟨_, rfl⟩)
  · exact .inl rfl
  · exact .inr (.inr ⟨_, _, _, rfl, hfraction.trans (by decide), le_rfl, by decide, .inl rfl⟩)
  · refine .inr (.inr ⟨_, _, _, rfl, ?_, ?_, ?_, .inr ?_⟩) <;>
      simp only [leastFull, minExponent, maxExponent] at * <;> omega

/-- The unit in the last place of a finite number is its exponent. -/
theorem IsMantissa.unit_eq (h : IsMantissa m e) (hm : 0 < m) : unit (m * 2 ^ e) = e := by
  have hpos : (0 : ℚ) < m * 2 ^ e := mul_pos (by exact_mod_cast hm) (two_zpow_pos e)
  have hhigh : Int.log 2 (m * 2 ^ e : ℚ) < 53 + e := by
    rw [← Int.lt_zpow_iff_log_lt one_lt_two hpos]
    push_cast
    rw [zpow_add₀ two_ne_zero]
    have hlt : (m : ℚ) < 2 ^ (53 : ℤ) := by exact_mod_cast h.lt
    exact mul_lt_mul_of_pos_right hlt (two_zpow_pos e)
  have hmin := h.min_le
  -- a mantissa that is not full stands at the least exponent, where the unit is clamped
  rcases h.full with hleast | hfull
  · exact (max_eq_right (by omega)).trans hleast.symm
  · have hlow : 52 + e ≤ Int.log 2 (m * 2 ^ e : ℚ) := by
      rw [← Int.zpow_le_iff_le_log one_lt_two hpos]
      push_cast
      rw [zpow_add₀ two_ne_zero]
      have hle : (2 : ℚ) ^ (52 : ℤ) ≤ m := by exact_mod_cast hfull
      exact mul_le_mul_of_nonneg_right hle (two_zpow_pos e).le
    exact (max_eq_left (by omega)).trans (by omega)

/-- A finite number is nearest to itself. -/
theorem IsMantissa.nearest_self (h : IsMantissa m e) (hm : 0 < m) (negative : Bool) :
    nearest negative (m * 2 ^ e) = .finite negative m e := by
  have hpos : (0 : ℚ) < m * 2 ^ e := mul_pos (by exact_mod_cast hm) (two_zpow_pos e)
  rw [nearest, if_neg hpos.ne', h.unit_eq hm, mul_div_cancel_right₀ _ (two_zpow_pos e).ne',
    roundHalfEven_natCast, ofRounded_of_lt negative h.lt h.le_max]

theorem ofRounded_of_positive {mantissa : ℕ} {exponent : ℤ}
    (h : ofRounded false mantissa exponent = .finite false m e) (negative : Bool) :
    ofRounded negative mantissa exponent = .finite negative m e := by
  unfold ofRounded at *
  by_cases hfull : mantissa = 2 * leastFull
  · simp only [if_pos hfull] at h ⊢
    split_ifs at h ⊢
    cases h
    rfl
  · simp only [if_neg hfull] at h ⊢
    split_ifs at h ⊢
    cases h
    rfl

/-- The sign takes no part in rounding. -/
theorem nearest_of_positive {q : ℚ} (h : nearest false q = .finite false m e) (negative : Bool) :
    nearest negative q = .finite negative m e := by
  unfold nearest at *
  split_ifs at h ⊢
  · cases h
    rfl
  · exact ofRounded_of_positive h negative

/-! ### The search for the fewest digits -/

theorem readsBack_iff :
    readsBack m e d ↔ nearest false (d.digits * 10 ^ d.exponent) = .finite false m e := by
  unfold readsBack
  rw [decide_eq_true_iff, ofRatio_eq false _ d.ratio_snd_pos, d.ratio_eq]

/-- A neighbour on a grid is only taken if it reads back. -/
theorem readsBack_of_onGrid? {k : ℤ} (h : onGrid? m e k = some d) : readsBack m e d := by
  unfold onGrid? at h
  dsimp only at h
  split at h
  · next heq =>
    -- there are only two neighbours, so that both are left means that both read back
    have hlength := congrArg List.length heq
    have hboth := List.length_filter_eq_length_iff.1 hlength
    split_ifs at h <;> cases h <;> exact hboth _ (by simp)
  · exact (List.mem_filter.1 (List.mem_of_mem_head? h)).2

/-- On the finest grid the decimal is exact. -/
theorem coarsest_zero (m : ℕ) (e : ℤ) :
    ((coarsest m e (min e 0) 0).digits : ℚ) * 10 ^ (coarsest m e (min e 0) 0).exponent =
      m * 2 ^ e := by
  obtain ⟨n, rfl | rfl⟩ := e.eq_nat_or_neg
  · simp [coarsest, ratio, scaled]
  -- a negative power of two divides the power of ten with the same exponent
  · have hmin : min (-(n : ℤ)) 0 = -n := min_eq_left (by omega)
    have hten : m * 10 ^ n / 2 ^ n = m * 5 ^ n := by
      rw [show 10 ^ n = 5 ^ n * 2 ^ n from Nat.mul_pow 5 2 n, ← Nat.mul_assoc,
        Nat.mul_div_cancel _ (Nat.two_pow_pos n)]
    have hdigits : (coarsest m (-n) (-n) 0).digits = m * 5 ^ n := by
      simpa [coarsest, ratio, scaled] using hten
    have hpower : (10 : ℚ) ^ n = 5 ^ n * 2 ^ n := by
      rw [← mul_pow]
      norm_num
    rw [hmin, hdigits, show (coarsest m (-n) (-n) 0).exponent = -n from rfl, zpow_neg, zpow_neg,
      zpow_natCast, zpow_natCast, hpower]
    push_cast
    field_simp

theorem readsBack_coarsest (h : IsMantissa m e) (hm : 0 < m) (steps : ℕ) :
    readsBack m e (coarsest m e (min e 0) steps) := by
  induction steps with
  | zero => rw [readsBack_iff, coarsest_zero, h.nearest_self hm]
  | succ steps ih =>
    rw [coarsest]
    cases hgrid : onGrid? m e (min e 0 + (steps + 1 : ℕ)) with
    | none => exact ih
    | some d => exact readsBack_of_onGrid? hgrid

theorem readsBack_shortest (h : IsMantissa m e) (hm : 0 < m) : readsBack m e (shortest m e) :=
  readsBack_coarsest h hm _

end Binary64

/-! ### Numbers -/

namespace Number

variable {m : ℕ} {e : ℤ} {n : Number}

/-- The text of a number is a decimal text, and the value is the one nearest to what it denotes. -/
structure IsNearest (n : Number) : Prop where
  isDecimal : IsDecimal n.raw.toList
  value_eq : n.value = nearest n.parts.negative n.parts.magnitude

theorem IsWritten.isNearest (h : n.IsWritten) : n.IsNearest := ⟨h.isDecimal, h.value_eq⟩

/-- A finite binary number is the one nearest to its text. -/
theorem isNearest_ofBinary64 (h : Binary64.IsMantissa m e) (negative : Bool) :
    (ofBinary64 (.finite negative m e)).IsNearest := by
  have htext : (ofBinary64 (.finite negative m e)).raw.toList = signOf negative ++
      (if m = 0 then "0" else (Binary64.shortest m e).text).toList :=
    Binary64.toList_signed negative _
  rcases Nat.eq_zero_or_pos m with rfl | hm
  · have hleast : e = Binary64.minExponent := h.full.resolve_right (by decide)
    obtain ⟨hdecimal, hnegative, hmagnitude⟩ := Decimal.parts_positional negative 0 0
    rw [if_pos rfl, show "0" = Decimal.positional 0 0 by decide] at htext
    rw [← htext] at hdecimal hnegative hmagnitude
    refine ⟨hdecimal, ?_⟩
    rw [parts, hnegative, hmagnitude, hleast]
    simp [ofBinary64, nearest]
  · obtain ⟨hdecimal, hnegative, hmagnitude⟩ :=
      Decimal.parts_text negative (Binary64.shortest m e)
    rw [if_neg hm.ne'] at htext
    rw [← htext] at hdecimal hnegative hmagnitude
    have hback := Binary64.readsBack_iff.1 (Binary64.readsBack_shortest h hm)
    refine ⟨hdecimal, ?_⟩
    rw [parts, hnegative, hmagnitude, Binary64.nearest_of_positive hback]
    rfl

end Number

end Localization
