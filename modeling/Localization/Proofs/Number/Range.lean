import Localization.Proofs.Number.Rounding

/-!
# The range of binary numbers

Rounding to a binary number gives an infinite one for what is too large. The bound is not the
greatest finite number but half a unit in the last place beyond it: there the tie goes to the even
mantissa, which is the one that overflows.

## Main definitions

* `Binary64.overflow` — the least rational that is rounded to an infinite number

## Main statements

* `le_roundHalfEven_iff` — what is rounded up to an even integer
* `Binary64.nearest_eq_infinite_iff` — what is rounded to an infinite number
-/

namespace Localization

/-- What is less than an integer is not rounded beyond it. -/
theorem roundHalfEven_le {q : ℚ} (hq : 0 ≤ q) {n : ℕ} (h : q < n) : roundHalfEven q ≤ n := by
  have hround := (abs_le.1 (abs_roundHalfEven_sub_le hq)).2
  have hlt : (roundHalfEven q : ℚ) < n + 1 := by linarith
  exact Nat.lt_succ_iff.1 (by exact_mod_cast hlt)

/-- A tie in front of an even integer goes up to it. -/
theorem le_roundHalfEven_iff {q : ℚ} (hq : 0 ≤ q) {n : ℕ} (hn : Even n) :
    n ≤ roundHalfEven q ↔ (n - 1 / 2 : ℚ) ≤ q := by
  obtain ⟨hlow, hhigh⟩ := abs_le.1 (abs_roundHalfEven_sub_le hq)
  constructor
  · intro hle
    have : (n : ℚ) ≤ roundHalfEven q := by exact_mod_cast hle
    linarith
  · intro hle
    by_contra hlt
    have hsucc : (roundHalfEven q : ℚ) + 1 ≤ n := by exact_mod_cast not_le.1 hlt
    -- what is not rounded up lies on the tie, in front of an odd integer
    have htie : q = roundHalfEven q + 1 / 2 := by linarith
    have hpred : n = roundHalfEven q + 1 := by
      have : (n : ℚ) = (roundHalfEven q + 1 : ℕ) := by
        push_cast
        linarith
      exact_mod_cast this
    have hfloor : ⌊q⌋₊ = roundHalfEven q :=
      (Nat.floor_eq_iff hq).2 ⟨by linarith, by linarith⟩
    have hodd : ⌊q⌋₊ % 2 ≠ 0 := by
      have := Nat.even_iff.1 hn
      omega
    have hup : roundHalfEven q = ⌊q⌋₊ + 1 := by
      conv_lhs => unfold roundHalfEven
      refine if_neg ?_
      rw [hfloor] at hodd ⊢
      rintro (hnear | ⟨-, heven⟩)
      · linarith
      · exact hodd heven
    omega

namespace Binary64

/-- The least rational that is rounded to an infinite number: half a unit in the last place beyond
the greatest finite one. -/
def overflow : ℚ := 2 ^ (1024 : ℤ) - 2 ^ (970 : ℤ)

theorem overflow_eq : overflow = (2 ^ 53 - 1 / 2) * 2 ^ maxExponent := by
  have hhigh : (2 : ℚ) ^ (1024 : ℤ) = 2 ^ (53 : ℤ) * 2 ^ maxExponent := by
    rw [← zpow_add₀ two_ne_zero]
    rfl
  have hlow : (2 : ℚ) ^ (970 : ℤ) = 2 ^ (-1 : ℤ) * 2 ^ maxExponent := by
    rw [← zpow_add₀ two_ne_zero]
    rfl
  rw [overflow, hhigh, hlow, ← sub_mul]
  norm_num

theorem two_pow_le_overflow : (2 : ℚ) ^ (1023 : ℤ) ≤ overflow := by
  have hpower : (2 : ℚ) ^ (1023 : ℤ) = 2 ^ (52 : ℤ) * 2 ^ maxExponent := by
    rw [← zpow_add₀ two_ne_zero]
    rfl
  rw [hpower, overflow_eq]
  gcongr
  norm_num

theorem ofRounded_eq_infinite_iff (negative : Bool) (mantissa : ℕ) (exponent : ℤ) :
    ofRounded negative mantissa exponent = .infinite negative ↔
      maxExponent < exponent ∨ mantissa = 2 ^ 53 ∧ exponent = maxExponent := by
  have hfull : 2 * leastFull = 2 ^ 53 := rfl
  unfold ofRounded
  rw [hfull]
  by_cases hmantissa : mantissa = 2 ^ 53
  · simp only [if_pos hmantissa, ite_eq_left_iff, reduceCtorEq, imp_false, not_not]
    omega
  · simp only [if_neg hmantissa, ite_eq_left_iff, reduceCtorEq, imp_false, not_not]
    omega

variable {q : ℚ}

theorem nearest_eq_infinite_iff (negative : Bool) (hq : 0 ≤ q) :
    nearest negative q = .infinite negative ↔ overflow ≤ q := by
  have hmax : (0 : ℚ) < 2 ^ maxExponent := two_zpow_pos _
  rcases hq.eq_or_lt with rfl | hpos
  · exact iff_of_false (by simp [nearest])
      (not_le.2 ((two_zpow_pos 1023).trans_le two_pow_le_overflow))
  have hlt (x : ℤ) : q < 2 ^ x ↔ Int.log 2 q < x := Int.lt_zpow_iff_log_lt one_lt_two hpos
  rw [nearest, if_neg hpos.ne', ofRounded_eq_infinite_iff]
  -- the unit in the last place tells the binade: below the last one, the last one, or above
  rcases lt_trichotomy (unit q) maxExponent with hunit | hunit | hunit
  · refine iff_of_false (by omega) (not_le.2 (lt_of_lt_of_le ?_ two_pow_le_overflow))
    rw [hlt]
    unfold unit at hunit
    simp only [maxExponent, minExponent] at hunit
    omega
  · -- in the last binade the mantissa decides, which is rounded up to `2 ^ 53` at most
    have hbinade : q / 2 ^ maxExponent < 2 ^ 53 := by
      rw [div_lt_iff₀ hmax, ← zpow_natCast, ← zpow_add₀ two_ne_zero, hlt]
      unfold unit at hunit
      push_cast
      omega
    have hquotient : 0 ≤ q / 2 ^ maxExponent := (div_pos hpos hmax).le
    have hle : roundHalfEven (q / 2 ^ maxExponent) ≤ 2 ^ 53 :=
      roundHalfEven_le hquotient (by exact_mod_cast hbinade)
    have hround : 2 ^ 53 ≤ roundHalfEven (q / 2 ^ maxExponent) ↔
        (2 ^ 53 - 1 / 2 : ℚ) ≤ q / 2 ^ maxExponent := by
      exact_mod_cast @le_roundHalfEven_iff _ hquotient (2 ^ 53) (by decide)
    rw [hunit, overflow_eq, ← le_div_iff₀ hmax, ← hround]
    omega
  · refine iff_of_true (.inl hunit) ?_
    have hlarge : (2 : ℚ) ^ (1024 : ℤ) ≤ q := by
      refine two_pow_log_le hpos ?_
      unfold unit at hunit
      simp only [maxExponent, minExponent] at hunit
      omega
    exact (sub_le_self _ (two_zpow_pos 970).le).trans hlarge

/-- What is not too large is rounded to a finite number. -/
theorem exists_nearest_of_lt_overflow (negative : Bool) (hq : 0 ≤ q) (h : q < overflow) :
    ∃ m e, nearest negative q = .finite negative m e := by
  rcases nearest_cases negative hq with ⟨-, hinfinite⟩ | ⟨m, e, hfinite, -⟩
  · exact absurd ((nearest_eq_infinite_iff negative hq).1 hinfinite) (not_le.2 h)
  · exact ⟨m, e, hfinite⟩

end Binary64

end Localization
